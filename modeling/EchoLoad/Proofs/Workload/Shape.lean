import EchoLoad.Proofs.Calls
import EchoLoad.Proofs.Workload.Latched
import EchoLoad.Proofs.Workload.Members
import EchoLoad.Proofs.Workload.Records
/-!
The shape of a sweep. Its phases go through the sizes from the first one on, each with the whole
pool, and one that fails is the last. Main statement: `sweep_shape`.
-/

namespace EchoLoad

/-- Before a failure was received, each client in hand holds its connection, which is open. -/
theorem Pooled.holds {o : ClientOptions} {a : Account} {w : World} (h : Pooled o a w)
    (hr : a.received = []) {c : Client} (hc : c ∈ a.held) :
    ∃ conn, c.HoldsAt w.network c.id conn := by
  obtain ⟨conn, es, hv, hrest⟩ := h.ledger.custody.at_hand hc
  have hconn : w.network.connections[c.id]? = some conn := congrArg View.connection hv
  have hopen := h.isOpen hr c hc
  cases hrest with
  | clean rounds hh => exact ⟨conn, hopen, hh.stream, hconn, hh.fate⟩
  | failed rounds e hg => exact absurd (hopen.symm.trans hg.isOpen) Bool.noConfusion

namespace Sweep

/-- The whole pool goes through the phase. Its clients begin in the order of their ids, each with
its connection open, and they come back in that order. -/
structure PhaseRun.WholePool (pool : Nat) (ph : PhaseRun) : Prop where
  holds : ∀ c ∈ ph.clients, ∃ conn, c.HoldsAt ph.before.network c.id conn
  clients : ph.clients.map Client.id = List.range pool
  back : ph.back.map Client.id = List.range pool

/-- How some phases went through the sizes to come, with the failure that is left and the world in
which they end. -/
structure Shaped (pool : Nat) (sizes : List Nat) (phs : List PhaseRun) (failure : Option ClientError)
    (w : World) : Prop where
  front : phs.map PhaseRun.size <+: sizes
  wholePool : ∀ ph ∈ phs, ph.WholePool pool
  /-- No round failed in a phase but the last. -/
  clean : ∀ ph ∈ phs.dropLast, ph.failure = none ∧ ph.after.failedRounds = []
  told : failure = (phs.getLast?.bind PhaseRun.failure).map Failure.error
  cut : phs.length < sizes.length → failure ≠ none ∨ w.stopped = true

variable {set : Setting} {fuel : Nat} {s : SweepSettings} {o : Output} {a : Account}
  {clients clients' : List Client} {w w' : World} {size : Nat}

/-! ## One phase -/

/-- The pool is all there before a phase. -/
structure Ready (o : ClientOptions) (a : Account) (clients : List Client) (w : World) : Prop where
  pooled : Pooled o { a with held := clients } w
  received : a.received = []
  numbered : Client.Numbered clients
  length : w.network.connections.length = clients.length

namespace Ready

theorem pause {p : Sweep} (h : Ready set.options a clients w)
    (hp : Sweep.pause set fuel s p w = .ok w') : Ready set.options a clients w' := by
  refine ⟨pause_pooled h.pooled hp, h.received, h.numbered, ?_⟩
  unfold Sweep.pause at hp
  split at hp
  · cases hp
    exact h.length
  · obtain ⟨⟨w1, u⟩, hs, he⟩ := map_eq_ok.1 hp
    cases he
    exact (World.attend_connections (fun _ b _ => by cases b <;> rfl) hs).trans h.length

theorem takeMessages (h : Ready set.options a clients w) :
    Ready set.options a clients w.takeMessages.2 :=
  ⟨h.pooled.takeMessages, h.received, h.numbered, h.length⟩

/-- **The pool comes back from a phase as it went in.** -/
theorem phase {p : PhaseSummary} {failure : Option Failure} (h : Ready set.options a clients w)
    (hp : Sweep.phase set fuel s size clients w = .ok (w', clients', p, failure)) :
    Client.Numbered clients' ∧ clients'.length = clients.length ∧
      (failure = none → w'.failedRounds = [] ∧ Ready set.options a clients' w') := by
  have hpooled := phase_ledger h.pooled h.received hp
  obtain ⟨⟨es, ht⟩, hworkers⟩ :=
    phase_tally h.pooled.noBatch.dials h.pooled.workers (h.pooled.failures h.received) hp
  have hback : clients'.length = clients.length := ht.back_length hworkers
  obtain ⟨⟨w1, clients1, failure1⟩, hj, he⟩ := bind_eq_ok.1 hp
  cases he
  have hcrew := crew_ledger (phaseStart_crew h.pooled h.received) hj
  have hstart : (phaseStart set s size clients w).network = w.network := by
    rw [phaseStart, World.spawnAll_eq]
    rfl
  have hlen : clients'.length = (phaseStart set s size clients w).network.connections.length := by
    rw [hstart, h.length, hback]
  obtain ⟨hnumbered, hlen'⟩ := World.joinAll_numbered hcrew.ledger.custody hj hlen
  refine ⟨hnumbered, hback, ?_⟩
  rintro rfl
  refine ⟨?_, ?_, h.received, hnumbered, hlen'⟩
  · rw [hpooled.ledger.rounds, hpooled.failures rfl]
    rfl
  · rw [h.received]
    exact hpooled

end Ready

/-! ## A turn -/

/-- What a turn leaves of a sweep and of its world, and whether another one may follow. -/
inductive Turned (set : Setting) (fuel : Nat) (s : SweepSettings) (a : Account) (size : Nat)
    (p : Sweep) (w : World) : Sweep → Bool → World → Prop
  | halted {w' : World} : w.Idle w' → w'.stopped = true → Turned set fuel s a size p w p false w'
  | phase {ph : PhaseRun} {w' : World} : w.Idle ph.before → ph.Valid set fuel s → ph.after.Idle w' →
      ph.size = size → ph.WholePool p.clients.length → ph.back.length = p.clients.length →
      (ph.failure = none → ph.after.failedRounds = [] ∧ Ready set.options a ph.back w') →
      Turned set fuel s a size p w
        ⟨ph.back, p.phases ++ [ph.summary], ph.failure.map (·.error)⟩ ph.failure.isNone w'

/-- **A turn goes one of these ways.** -/
theorem turn_shape {p p' : Sweep} {more : Bool} {session session' : Session}
    (h : Ready set.options a p.clients session.world)
    (ht : turn set fuel s o size p session = .ok (session', .ok (p', more))) :
    Turned set fuel s a size p session.world p' more session'.world := by
  obtain ⟨w, hpause, hcase⟩ := turn_ok ht
  have hready := h.pause hpause
  have hidle := pause_idle h.pooled.workers hpause
  rcases hcase with ⟨hstopped, rfl, rfl, rfl⟩ |
    ⟨ph, rfl, rfl, hclients, hruns, -, hrecord, rfl, rfl⟩
  · exact .halted hidle hstopped
  · have hworld : session'.world = ph.after.takeMessages.2 := by
      have hrecorded := record_world o ph.summary { session with world := ph.after }
      rwa [hrecord] at hrecorded
    rw [← hclients] at hready
    obtain ⟨hnumbered, hback, hgood⟩ := hready.phase hruns
    obtain ⟨-, hworkers⟩ := phase_tally hready.pooled.noBatch.dials hready.pooled.workers
      (hready.pooled.failures hready.received) hruns
    have hmembers : ph.WholePool p.clients.length := by
      rw [← hclients]
      exact ⟨fun c hc => hready.pooled.holds hready.received hc, hready.numbered,
        hback ▸ hnumbered⟩
    rw [hworld]
    refine .phase hidle hruns (.of_eq rfl rfl hworkers) rfl hmembers
      (hback.trans (congrArg _ hclients)) fun hnone => ?_
    obtain ⟨hclean, hready'⟩ := hgood hnone
    exact ⟨hclean, hready'.takeMessages⟩

/-! ## All phases -/

namespace Shaped

variable {pool : Nat} {sizes : List Nat} {phs : List PhaseRun} {ph : PhaseRun}
  {failure : Option ClientError}

theorem nil (h : sizes = [] ∨ w.stopped = true) : Shaped pool sizes [] none w := by
  refine ⟨List.nil_prefix, by simp, by simp, rfl, fun hlen => .inr ?_⟩
  rcases h with rfl | h
  · cases hlen
  · exact h

theorem failed (hmembers : ph.WholePool pool) (hfailure : ph.failure ≠ none) :
    Shaped pool (ph.size :: sizes) [ph] (ph.failure.map (·.error)) w := by
  refine ⟨⟨sizes, rfl⟩, by simpa using hmembers, by simp, rfl, fun _ => .inl ?_⟩
  simpa using hfailure

theorem cons (h : Shaped pool sizes phs failure w) (hmembers : ph.WholePool pool)
    (hnone : ph.failure = none) (hclean : ph.after.failedRounds = []) :
    Shaped pool (ph.size :: sizes) (ph :: phs) failure w := by
  refine ⟨List.cons_prefix_cons.2 ⟨rfl, h.front⟩, ?_, ?_, ?_, ?_⟩
  · intro x hx
    rcases List.mem_cons.1 hx with rfl | hx
    · exact hmembers
    · exact h.wholePool x hx
  · intro x hx
    cases phs with
    | nil => cases hx
    | cons next phs =>
      rcases List.mem_cons.1 hx with rfl | hx
      · exact ⟨hnone, hclean⟩
      · exact h.clean x hx
  · rw [h.told]
    cases phs with
    | nil => simp [hnone]
    | cons next phs => rw [List.getLast?_cons_cons]
  · intro hlen
    exact h.cut (Nat.lt_of_succ_lt_succ hlen)

end Shaped

/-- **All phases.** -/
theorem advance_shape {sizes : List Nat} {p p' : Sweep} {session session' : Session}
    (h : Ready set.options a p.clients session.world) (hnone : p.failure = none)
    (hp : advance set fuel s o sizes p session = .ok (session', .ok p')) :
    ∃ phs, PhaseSequence set fuel s session.world phs session'.world ∧
      p'.phases = p.phases ++ phs.map PhaseRun.summary ∧ p'.clients.length = p.clients.length ∧
      Shaped p.clients.length sizes phs p'.failure session'.world := by
  induction sizes generalizing p session with
  | nil =>
    cases hp
    exact ⟨[], .rest (.refl h.pooled.workers), by simp, rfl, hnone ▸ .nil (.inl rfl)⟩
  | cons size sizes ih =>
    unfold advance at hp
    split at hp
    · cases hp
    · cases hp
    · next session1 p1 ht =>
      cases hp
      generalize hmore : false = more at ht
      cases turn_shape h ht with
      | halted hidle hstopped =>
        exact ⟨[], .rest hidle, by simp, rfl, hnone ▸ .nil (.inr hstopped)⟩
      | @phase ph _ hbefore hruns hafter hsize hmembers hback =>
        subst hsize
        refine ⟨[ph], .phase hbefore hruns (.rest hafter), rfl, hback, .failed hmembers ?_⟩
        exact fun hf => by simp [hf] at hmore
    · next session1 p1 ht =>
      generalize hmore : true = more at ht
      cases turn_shape h ht with
      | halted => cases hmore
      | @phase ph _ hbefore hruns hafter hsize hmembers hback hgood =>
        subst hsize
        have hfailure : ph.failure = none := Option.isNone_iff_eq_none.1 hmore.symm
        obtain ⟨hclean, hready⟩ := hgood hfailure
        obtain ⟨phs, hseq, hphases, hlen, hshape⟩ := ih hready (by simp [hfailure]) hp
        refine ⟨ph :: phs, .phase hbefore hruns (hseq.after_idle hafter), ?_,
          hlen.trans hback, ?_⟩
        · rw [hphases, List.append_assoc]
          rfl
        · exact (hback ▸ hshape).cons hmembers hfailure hclean

/-! ## The shape -/

theorem PhaseSequence.sizes {phs : List PhaseRun} (h : PhaseSequence set fuel s w phs w') :
    (phs.map PhaseRun.summary).map PhaseSummary.size = phs.map PhaseRun.size := by
  induction h with
  | rest => rfl
  | phase _ hruns _ ih => exact congrArg₂ List.cons (phase_numbers hruns).1 ih

/-- **The shape of a sweep.** The sizes of its phases are the first ones of those asked for. The
whole pool goes into each of them, every client open, and comes back in the order of the ids. Only
the last one can fail, and sizes are left out only if it did or the stop latch was set. The
throughput file has the records of these phases and nothing else. -/
theorem sweep_shape {session session' : Session} {r : SweepReport} (hw : session.world.Fresh)
    (h : run set fuel s o session = .ok (session', .ok r)) :
    ∃ phs, PhaseSequence set fuel s session.world phs session'.world ∧
      r.phases = phs.map PhaseRun.summary ∧ r.phases.map PhaseSummary.size <+: s.sizes ∧
      (∀ ph ∈ phs, ph.WholePool r.pool) ∧
      (∀ ph ∈ phs.dropLast, ph.failure = none ∧ ph.after.failedRounds = []) ∧
      r.failure = (phs.getLast?.bind PhaseRun.failure).map Failure.error ∧
      (r.phases.length < s.sizes.length → r.failure ≠ none ∨ r.interrupted = true) ∧
      o.Records r.phases session'.store := by
  have hfiled := run_filed hw h
  obtain ⟨session1, clients, joins, store, session2, p, w, n, hestablish, -, hadvance, hclose, rfl,
    rfl⟩ := run_ok h
  obtain ⟨hnumbered, hlen⟩ := Session.establish_numbered hw hestablish
  have hready : Ready set.options { joins } clients ({ session1 with store } : Session).world :=
    ⟨(Session.establish_ledger hw hestablish).1 clients joins rfl, rfl, hnumbered, hlen⟩
  obtain ⟨phs, hseq, hphases, hpool, hshape⟩ :=
    advance_shape (p := { clients }) hready rfl hadvance
  have hbefore : session.world.Idle session1.world := Session.establish_idle hw.workers hestablish
  have hafter : session2.world.Idle w := World.closeAll_idle hseq.workers hclose
  have hwhole : PhaseSequence set fuel s session.world phs w :=
    (hseq.after_idle hbefore).then_idle hafter
  have hphases : p.phases = phs.map PhaseRun.summary := hphases
  refine ⟨phs, hwhole, hphases, ?_, ?_, hshape.clean, hshape.told, fun hcut => ?_,
    hfiled.throughput⟩
  · rw [hphases, hwhole.sizes]
    exact hshape.front
  · exact hpool ▸ hshape.wholePool
  · rw [hphases, List.length_map] at hcut
    exact (hshape.cut hcut).imp_right (World.closeAll_stopped hclose)

/-- The second of three phases fails, so the third size is left out. The file tells of one round and
its four bytes, and of none. -/
theorem sweep_shape_hangup :
    ∃ session' r text, ∃ phs : List PhaseRun, run { source := SplitMix.source #[] 0 } 40
        { clients := 1, batchSize := 1, sizes := [0, 2, 0], phaseEnd := .rounds 1 } ⟨".", "r"⟩
        { world := { network := { rest := { replies := [.echo, .hangup] } } } }
        = .ok (session', .ok r) ∧
      r.phases.map (fun p => (p.size, p.bytes)) = [(0, 4), (2, 0)] ∧
      r.phases = phs.map PhaseRun.summary ∧ r.failure ≠ none ∧
      session'.store.readText (Output.path ⟨".", "r"⟩ "throughput" "csv") = .ok text ∧
      lineCount text = 2 ∧ readRecords text = some [(0, 4), (2, 0)] := by
  have hrun : ((run { source := SplitMix.source #[] 0 } 40
      { clients := 1, batchSize := 1, sizes := [0, 2, 0], phaseEnd := .rounds 1 } ⟨".", "r"⟩
      { world := { network := { rest := { replies := [.echo, .hangup] } } } }).toOption.any
        fun x => x.2.toOption.any fun r =>
          r.phases.map (fun p => (p.size, p.bytes)) = [(0, 4), (2, 0)] ∧ r.interrupted = false) =
        true := by
    decide +kernel
  obtain ⟨⟨session', result⟩, h, hresult⟩ := toOption_any.1 hrun
  obtain ⟨r, rfl, hphases⟩ := toOption_any.1 hresult
  obtain ⟨hpairs, hinterrupted⟩ := of_decide_eq_true hphases
  have hfresh : ({ network := { rest := { replies := [.echo, .hangup] } } } : World).Fresh :=
    ⟨rfl, rfl, rfl, rfl, rfl, rfl, rfl, rfl⟩
  obtain ⟨phs, -, hphs, -, -, -, -, hcut, hrecords⟩ := sweep_shape hfresh h
  have hlen : r.phases.length = 2 := by
    have hlen := congrArg List.length hpairs
    rwa [List.length_map] at hlen
  have hread := hrecords.pairs
  rw [hpairs] at hread
  refine ⟨session', r, _, phs, h, hpairs, hphs, ?_, hrecords.text, hrecords.lines.trans hlen, hread⟩
  have hshort : r.phases.length < 3 := by omega
  refine (hcut hshort).resolve_right ?_
  rw [hinterrupted]
  exact Bool.noConfusion

end Sweep

end EchoLoad
