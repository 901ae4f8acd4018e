import EchoLoad.Proofs.Metered
import EchoLoad.Proofs.Workload.PhaseRuns
import EchoLoad.Proofs.Workload.Unused
/-!
What a workload with a fixed pool reports, and what its peers have accepted. Nothing is reported that
is not on the wire; of what is on the wire only the handshakes are left out, and what was sent of
rounds that failed. Main statement: `reports_agree_with_wire`.
-/

namespace EchoLoad

/-! ## Each client and its failure -/

theorem countP_lived_failed (n rounds : Nat) :
    (lived n rounds).countP (fun e => e.failedRound?.isSome) = 0 := by
  induction rounds with
  | zero => rfl
  | succ rounds ih => rwa [lived, List.countP_cons, List.countP_cons]

/-- **No client fails twice.** -/
theorem Settled.length_failedRounds {o : ClientOptions} {a : Account} {w : World}
    (h : Settled o a w) : w.failedRounds.length =
      (List.range w.network.connections.length).countP (fun n => w.HasFailed n) := by
  have hlt : ∀ e ∈ w.events, e.client < w.network.connections.length :=
    fun e he => h.ledger.custody.client_lt he
  rw [World.failedRounds, List.length_filterMap_eq_countP, List.countP_reverse,
    countP_range_eq_sum, countP_eq_sum_fibers _ _ hlt]
  refine Finset.sum_congr rfl fun n hn => ?_
  have hg := h.gone (List.getElem?_eq_getElem (Finset.mem_range.1 hn))
  have hfailed := World.hasFailed_iff (w := w) (n := n)
  generalize fiber Event.client n w.events = es at hg hfailed ⊢
  cases hg with
  | closed rounds =>
    have hno : ¬ w.HasFailed n := by simp [hfailed, not_mem_lived_failed]
    rw [List.countP_cons, countP_lived_failed]
    simp [hno, Event.failedRound?]
  | failed rounds e =>
    have hyes : w.HasFailed n := hfailed.2 ⟨e, by simp⟩
    rw [List.countP_cons, List.countP_cons, countP_lived_failed]
    simp [hyes, Event.failedRound?]
  | declined =>
    have hno : ¬ w.HasFailed n := by simp [hfailed]
    simp [hno, Event.failedRound?]

namespace Pooled

variable {o : ClientOptions} {a : Account} {w : World}

theorem failedRounds (h : Pooled o a w) (hr : a.received = []) : w.failedRounds = [] := by
  rw [← List.head?_eq_none_iff, h.first, hr]
  rfl

/-- **A pool has a client for each connection** as long as none has failed. -/
theorem population (h : Pooled o a w) (hr : a.received = []) :
    a.held.length = w.network.connections.length := by
  have hlt : ∀ c ∈ a.held, c.id < w.network.connections.length := by
    intro c hc
    obtain ⟨conn, es, hv, -⟩ := h.ledger.custody.at_hand hc
    exact (List.getElem?_eq_some_iff.1 (congrArg View.connection hv)).1
  have hclosed : ∀ e ∈ w.events, e.isClosing = false := by
    have hz := h.ledger.closed
    rw [h.closed, List.countP_eq_zero] at hz
    simpa using hz
  rw [← List.countP_true, countP_eq_sum_fibers _ _ hlt]
  have hone : ∀ n ∈ Finset.range w.network.connections.length,
      (fiber Client.id n a.held).countP (fun _ => true) = 1 := by
    intro n hn
    have hs := h.ledger.custody n
    have hfailed := World.hasFailed_iff (w := w) (n := n)
    have hmem : ∀ e ∈ fiber Event.client n w.events, e ∈ w.events := fun e he => (mem_fiber.1 he).1
    obtain ⟨conn, hconn⟩ : ∃ conn, w.network.connections[n]? = some conn :=
      ⟨_, List.getElem?_eq_getElem (Finset.mem_range.1 hn)⟩
    have hview : w.view a.held n =
        ⟨some conn, fiber Event.client n w.events, [], [], fiber Client.id n a.held⟩ := by
      simp [World.view, h.workers, h.noBatch.dials, h.noBatch.connected, hconn]
    rw [hview] at hs
    generalize fiber Event.client n w.events = es at hs hfailed hmem
    generalize fiber Client.id n a.held = cs at hs
    cases hs with
    | held => rfl
    | declined =>
      have hattempt := World.mem_failedAttempts.2 ⟨_, hmem _ List.mem_cons_self⟩
      rw [h.attempts] at hattempt
      cases hattempt
    | past hover =>
      cases hover with
      | closed => exact absurd (hclosed _ (hmem _ List.mem_cons_self)) Bool.noConfusion
      | failed rounds e =>
        obtain ⟨f, hf, -⟩ := hfailed.2 ⟨e, List.mem_cons_self⟩
        rw [h.failedRounds hr] at hf
        cases hf
  rw [Finset.sum_congr rfl hone]
  simp

end Pooled

namespace Meter

variable (m : Meter) {set : Setting} {fuel : Nat} {o : Output}

/-- **A pool that stands has its handshakes on the wire**, and nothing else. -/
theorem establish_handshakes {session session' : Session} {size batch joins : Nat}
    {clients : List Client} (hw : session.world.Fresh)
    (h : session.establish set fuel size batch o = .ok (session', .ok (clients, joins))) :
    m.total session'.world.network = clients.length * m.handshake set.options := by
  have hpool := (Session.establish_ledger hw h).1 clients joins rfl
  have hadds : m.AddsHandshakesOnly set.options session.world session'.world :=
    (Session.establish_keeps (C := fun _ => True) (m.addsHandshakesOnly_kept set session.world).anyPlan
      (fun _ _ _ _ => trivial) (.refl m _ _) h).1
  have hbetween := hadds.between m (Session.establish_idle hw.workers h) hpool.attempts
    hpool.noBatch.dials
  rw [hw.connections, ← hpool.population rfl] at hbetween
  simpa [total, hw.connections] using hbetween

/-! ## A sweep -/

/-- The wire of a sweep between two phases: `base` for the handshakes, what was reported, and of
rounds that failed no more than rounds of the last phase. -/
structure Follows (base : Nat) (phases : List PhaseSummary) (w : World) : Prop where
  least : base + (phases.map m.reported).sum ≤ m.total w.network
  most : m.total w.network ≤ base + (phases.map m.reported).sum +
    w.failedRounds.length * phases.getLast?.elim 0 fun p => m.round p.size

variable {m}

theorem Follows.total {base : Nat} {phases : List PhaseSummary} {w : World}
    (h : m.Follows base phases w) (hclean : w.failedRounds = []) :
    m.total w.network = base + (phases.map m.reported).sum := by
  have hmost := h.most
  rw [hclean, List.length_nil, Nat.zero_mul, Nat.add_zero] at hmost
  exact Nat.le_antisymm hmost h.least

theorem Follows.congr {base : Nat} {phases : List PhaseSummary} {w w' : World}
    (h : m.Follows base phases w) (htotal : m.total w'.network = m.total w.network)
    (hfailed : w'.failedRounds = w.failedRounds) : m.Follows base phases w' :=
  ⟨htotal ▸ h.least, by rw [htotal, hfailed]; exact h.most⟩

end Meter

namespace Sweep

variable {m : Meter} {set : Setting} {fuel base : Nat} {s : SweepSettings} {o : Output}

/-- **One phase.** -/
theorem phase_follows {size : Nat} {clients back : List Client} {w w' : World} {p : PhaseSummary}
    {failure : Option Failure} {phases : List PhaseSummary} (hworkers : w.workers = [])
    (hworkers' : w'.workers = []) (hw : m.total w.network = base + (phases.map m.reported).sum)
    (h : phase set fuel s size clients w = .ok (w', back, p, failure)) :
    m.Follows base (phases ++ [p]) w' := by
  obtain ⟨⟨w1, clients1, failure1⟩, hj, he⟩ := bind_eq_ok.1 h
  cases he
  have hstart : m.Balance (m.round size) (phaseStart set s size clients w).workers.length
      (m.total (phaseStart set s size clients w).network) [] (phaseStart set s size clients w) := by
    have hcrew : ∀ k ∈ (phaseStart set s size clients w).workers, k.plan = phasePlan s size ∧
        ∃ c : Client, k.client = c.resetCounters := by
      intro k hk
      rw [phaseStart, World.spawnAll_eq] at hk
      rcases List.mem_append.1 hk with hk | hk
      · have hk : k ∈ w.workers := hk
        rw [hworkers] at hk
        cases hk
      · obtain ⟨c, hc, rfl⟩ := List.mem_map.1 hk
        obtain ⟨c, -, rfl⟩ := List.mem_map.1 hc
        exact ⟨rfl, c, rfl⟩
    refine .start (fun k hk n hn => ?_) fun k hk => ?_
    · rw [(hcrew k hk).1] at hn
      rw [show n = size from hn]
    · obtain ⟨c, hc⟩ := (hcrew k hk).2
      rw [hc]
      exact m.counted_none _ rfl rfl
  have hnet : (phaseStart set s size clients w).network = w.network := by
    rw [phaseStart, World.spawnAll_eq]
    rfl
  obtain ⟨-, hleast, hmost⟩ := (hstart.joinAll hj).complete hworkers'
  rw [hnet, hw] at hleast hmost
  have hreported := m.reported_sum size back w1.sink.collect.messages.length (w1.now - w.now)
  constructor
  · rw [List.map_append, List.sum_append, List.map_singleton, List.sum_singleton, ← Nat.add_assoc]
    exact (congrArg _ hreported).le.trans hleast
  · rw [List.map_append, List.sum_append, List.map_singleton, List.sum_singleton, ← Nat.add_assoc,
      List.getLast?_concat]
    refine hmost.trans (Nat.add_le_add_right ?_ _)
    exact (congrArg _ hreported).ge

/-- **One turn.** -/
theorem turn_follows {size : Nat} {a : Account} {p p' : Sweep} {more : Bool}
    {session session' : Session} (h : Pooled set.options a session.world) (hk : RecordsFailure a p)
    (hr : a.received = []) (hp : m.Follows base p.phases session.world)
    (ht : turn set fuel s o size p session = .ok (session', .ok (p', more))) :
    m.Follows base p'.phases session'.world := by
  obtain ⟨w, hpause, hcase⟩ := turn_ok ht
  have hpooled := pause_pooled h hpause
  have htotal : m.total w.network = m.total session.world.network := by
    unfold pause at hpause
    split at hpause
    · cases hpause
      rfl
    · exact m.sleep_unmoved h.workers hpooled.attempts hpooled.noBatch.dials hpause
  rcases hcase with ⟨-, rfl, rfl, -⟩ | ⟨ph, rfl, rfl, hclients, hruns, -, hrecord, rfl, -⟩
  · exact hp.congr htotal ((hpooled.failedRounds hr).trans (h.failedRounds hr).symm)
  · have hworld : session'.world = ph.after.takeMessages.2 := by
      have hrecorded := record_world o ph.summary { session with world := ph.after }
      rwa [hrecord] at hrecorded
    have hheld : a.held = ph.clients := hk.1.trans hclients.symm
    have hafter := phase_ledger (a := a) (hheld ▸ hpooled) hr hruns
    have hphase : m.Follows base (p.phases ++ [ph.summary]) ph.after :=
      phase_follows hpooled.workers hafter.workers (htotal.trans (hp.total (h.failedRounds hr)))
        hruns
    rw [hworld]
    exact hphase.congr rfl rfl

theorem advance_follows {sizes : List Nat} {a : Account} {p p' : Sweep}
    {session session' : Session} (h : Pooled set.options a session.world) (hk : RecordsFailure a p)
    (hr : a.received = []) (hp : m.Follows base p.phases session.world)
    (ha : advance set fuel s o sizes p session = .ok (session', .ok p')) :
    m.Follows base p'.phases session'.world := by
  induction sizes generalizing a p session with
  | nil =>
    cases ha
    exact hp
  | cons size sizes ih =>
    unfold advance at ha
    split at ha
    · cases ha
    · cases ha
    · next session1 p1 ht =>
      cases ha
      exact turn_follows h hk hr hp ht
    · next session1 p1 ht =>
      obtain ⟨a1, h1, hk1, hr1⟩ := (turn_ledger h hk hr ht).1 _ _ rfl
      exact ih h1 hk1 (hr1 rfl) (turn_follows h hk hr hp ht) ha

end Sweep

/-! ## Whole runs -/

/-- A report of a pool and the wire agree. Without a failed round the wire has what was reported and
a handshake for each client; for each client that failed it may have up to `frame` more. -/
structure Meter.Agrees (m : Meter) (o : ClientOptions) (pool reported frame : Nat) (w : World) :
    Prop where
  clean : w.failedRounds = [] → m.total w.network = reported + pool * m.handshake o
  least : reported + pool * m.handshake o ≤ m.total w.network
  most : m.total w.network ≤ reported + pool * m.handshake o +
    (List.range w.network.connections.length).countP (fun n => w.HasFailed n) * frame

theorem Meter.Agrees.of_settled {m : Meter} {o : ClientOptions} {a : Account} {w : World}
    {pool reported limit frame : Nat} (h : Settled o a w)
    (hleast : pool * m.handshake o + reported ≤ m.total w.network)
    (hmost : m.total w.network ≤ pool * m.handshake o + reported + w.failedRounds.length * limit)
    (hlimit : limit ≤ frame) : m.Agrees o pool reported frame w := by
  have hframe := Nat.mul_le_mul_left w.failedRounds.length hlimit
  refine ⟨fun hclean => ?_, by omega, ?_⟩
  · rw [hclean, List.length_nil, Nat.zero_mul] at hmost
    omega
  · rw [← h.length_failedRounds]
    omega

section Valid

variable (m : Meter) {set : Setting} {fuel : Nat} {o : Output} {session session' : Session}

theorem Sweep.run_agrees {s : SweepSettings} {r : SweepReport} {frame : Nat}
    (hw : session.world.Fresh) (h : run set fuel s o session = .ok (session', .ok r))
    (hframe : (r.phases.getLast?.elim 0 fun p => m.round p.size) ≤ frame) :
    m.Agrees set.options r.pool (r.phases.map m.reported).sum frame session'.world := by
  obtain ⟨session1, clients, joins, store, session2, p, w, n, hestablish, -, hadvance, hclose, rfl,
    rfl⟩ := run_ok h
  obtain ⟨a, hsettled⟩ := ((run_ledger hw h).1 _ rfl).1
  let begun : Session := { session1 with store }
  have hpool : Pooled set.options { held := clients, joins } begun.world :=
    (Session.establish_ledger hw hestablish).1 clients joins rfl
  have honly : m.total session1.world.network = clients.length * m.handshake set.options :=
    m.establish_handshakes hw hestablish
  have hbegun : m.Follows (clients.length * m.handshake set.options) [] begun.world :=
    ⟨honly.ge, honly.le.trans (Nat.le_add_right _ _)⟩
  obtain ⟨a', hback, hheld, -⟩ := (advance_ledger hpool ⟨rfl, rfl⟩ rfl hadvance).1 p rfl
  obtain ⟨-, -, -, hlen, -⟩ := advance_phaseSequence hpool ⟨rfl, rfl⟩ rfl hadvance
  have hfailed : w.failedRounds = session2.world.failedRounds := (hback.settle (hheld ▸ hclose)).2
  have htotal : m.total w.network = m.total session2.world.network :=
    m.closeAll_unmoved hback.workers (hback.settle_attempts (hheld ▸ hclose)) hsettled.noBatch.dials
      hclose
  have hfollows : m.Follows (clients.length * m.handshake set.options) p.phases w :=
    (advance_follows hpool ⟨rfl, rfl⟩ rfl hbegun hadvance).congr htotal hfailed
  dsimp only at hlen hframe ⊢
  rw [hlen]
  exact .of_settled hsettled hfollows.least hfollows.most hframe

theorem Mixed.run_agrees {s : MixedSettings} {r : MixedReport} {frame : Nat}
    (hw : session.world.Fresh) (h : run set fuel s o session = .ok (session', .ok r))
    (hframe : ∀ n, s.payload.Allows n → m.round n ≤ frame) :
    ∃ back, r.totalBytes = Client.totalBytes back ∧ r.rounds = Client.totalRounds back ∧
      m.Agrees set.options r.pool (back.map m.counted).sum frame session'.world := by
  obtain ⟨session1, clients, joins, w1, w2, back, failure, n, hestablish, hspawn, hjoin, hclose,
    rfl⟩ := run_parts h
  obtain ⟨a, hsettled⟩ := ((run_ledger hw h).1 _ rfl).1
  have hpool := (Session.establish_ledger hw hestablish).1 clients joins rfl
  have hback := rounds_ledger hpool hspawn hjoin
  have hclients : ∀ c ∈ clients, c.Unused :=
    (Session.establish_keeps (World.Unused.kept set).anyPlan (fun _ h => h.connected)
      ⟨by simp [hw.dials], by simp [hw.connected]⟩ hestablish).2
  have honly : m.total session1.world.network = clients.length * m.handshake set.options :=
    m.establish_handshakes hw hestablish
  obtain ⟨ks, rfl, rfl, hks⟩ := spawnAll_ok hspawn
  -- no loop is left from before, so the crew consists of the loops just started
  rw [hpool.workers, List.nil_append] at hjoin
  let crew : World :=
    { session1.world with active := !session1.world.stopped, workers := ks }
  have hstart : m.Balance frame ks.length (m.total session1.world.network) [] crew := by
    refine .start (w := crew) (fun k hk n hn => ?_) fun k hk => ?_
    · exact hframe n ((hks k hk).2 ▸ hn)
    · obtain ⟨hrounds, hbytes⟩ := hclients _ (List.mem_map_of_mem hk)
      exact m.counted_none _ hrounds hbytes
  obtain ⟨hlen, hleast, hmost⟩ := (hstart.joinAll hjoin).complete hback.workers
  have hfailed : session'.world.failedRounds = w2.failedRounds := (hback.settle hclose).2
  have htotal : m.total session'.world.network = m.total w2.cancel.takeMessages.2.network :=
    m.closeAll_unmoved hback.workers (hback.settle_attempts hclose) hsettled.noBatch.dials hclose
  have htotal : m.total session'.world.network = m.total w2.network := htotal
  rw [List.length_map] at honly
  rw [honly, ← htotal] at hleast hmost
  rw [← hfailed] at hmost
  exact ⟨back, rfl, rfl, .of_settled hsettled (hlen ▸ hleast) (hlen ▸ hmost) (Nat.le_refl _)⟩

end Valid

/-- **Reports agree with the wire.** Take a run with a fixed pool that has a report, against any
peers and with any interrupts. If no round failed, the peers have accepted the bytes reported and a
handshake from each client, and as many whole requests as there are rounds reported and handshakes.
If rounds failed they have accepted no less; and they have at most one frame more for each client
that failed, of the size of the last phase, which a failure ends, or of the largest size that the
payloads may have. -/
theorem reports_agree_with_wire {set : Setting} {fuel : Nat} {o : Output}
    {session session' : Session} (hw : session.world.Fresh) :
    (∀ (s : SweepSettings) (r : SweepReport),
      Sweep.run set fuel s o session = .ok (session', .ok r) →
        Meter.bytes.Agrees set.options r.pool (r.phases.map (·.bytes)).sum
          (r.phases.getLast?.elim 0 fun p => Frame.size p.size) session'.world ∧
        Meter.requests.Agrees set.options r.pool (r.phases.map (·.rounds)).sum 1 session'.world) ∧
    ∀ (s : MixedSettings) (r : MixedReport),
      Mixed.run set fuel s o session = .ok (session', .ok r) →
        Meter.bytes.Agrees set.options r.pool r.totalBytes (Frame.size s.payload.maxLength)
          session'.world ∧
        Meter.requests.Agrees set.options r.pool r.rounds 1 session'.world := by
  constructor
  · intro s r h
    refine ⟨Sweep.run_agrees Meter.bytes hw h (Nat.le_refl _), Sweep.run_agrees _ hw h ?_⟩
    cases r.phases.getLast? with
    | none => exact Nat.zero_le _
    | some p => exact Nat.le_refl _
  · intro s r h
    have hsize : ∀ n, s.payload.Allows n → Frame.size n ≤ Frame.size s.payload.maxLength :=
      fun n hn => Nat.add_le_add_left hn.le_maxLength _
    obtain ⟨back, hbytes, -, hagrees⟩ := Mixed.run_agrees Meter.bytes hw h hsize
    obtain ⟨back', -, hrounds, hagrees'⟩ :=
      Mixed.run_agrees Meter.requests hw h fun _ _ => Nat.le_refl 1
    rw [hbytes, hrounds, Client.totalBytes_eq, Client.totalRounds_eq]
    exact ⟨hagrees, hagrees'⟩

/-- A client is to do two rounds with empty payloads after a handshake of two bytes. The peer takes
two bytes of the last frame, which are not reported. -/
theorem reports_agree_with_wire_cut_off :
    ∃ session' r,
      Sweep.run { source := SplitMix.source #[] 0, options := { handshake := some [104, 105] } } 40
        { clients := 1, batchSize := 1, sizes := [0], phaseEnd := .rounds 2 } ⟨".", "r"⟩
        { world := { network := { rest :=
          { replies := [.echo, .echo, .writeZero 2] } } } } = .ok (session', .ok r) ∧
      Meter.bytes.Agrees { handshake := some [104, 105] } r.pool (r.phases.map (·.bytes)).sum
        (r.phases.getLast?.elim 0 fun p => Frame.size p.size) session'.world ∧
      r.phases.map (fun p => (p.size, p.bytes, p.rounds)) = [(0, 4, 1)] ∧
      Meter.bytes.total session'.world.network = 6 + 4 + 2 ∧
      Meter.requests.total session'.world.network = 1 + 1 := by
  have hrun : ((Sweep.run
      { source := SplitMix.source #[] 0, options := { handshake := some [104, 105] } } 40
      { clients := 1, batchSize := 1, sizes := [0], phaseEnd := .rounds 2 } ⟨".", "r"⟩
      { world := { network := { rest :=
        { replies := [.echo, .echo, .writeZero 2] } } } }).toOption.any fun x =>
          x.2.toOption.any fun r =>
            r.phases.map (fun p => (p.size, p.bytes, p.rounds)) = [(0, 4, 1)] ∧
            Meter.bytes.total x.1.world.network = 6 + 4 + 2 ∧
            Meter.requests.total x.1.world.network = 1 + 1) = true := by
    decide +kernel
  obtain ⟨⟨session', result⟩, h, hresult⟩ := toOption_any.1 hrun
  obtain ⟨r, rfl, hfigures⟩ := toOption_any.1 hresult
  have hfresh : ({ network := { rest := { replies := [.echo, .echo, .writeZero 2] } } } :
      World).Fresh := ⟨rfl, rfl, rfl, rfl, rfl, rfl, rfl, rfl⟩
  exact ⟨session', r, h, ((reports_agree_with_wire hfresh).1 _ r h).1, of_decide_eq_true hfigures⟩

end EchoLoad
