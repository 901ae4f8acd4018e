import EchoLoad.Proofs.Returns
import EchoLoad.Proofs.Workload.RunSteps
import EchoLoad.Proofs.Workload.CleanGrowth
import EchoLoad.Random.SplitMix
/-!
With both timeouts set no workload hangs, whatever the peers do, as long as none replies at once:
the sweep and the mixed workload return, and so does a ramp with a cap, for each of its batches
without a failure brings it nearer to the cap. Main statement: `workloads_return`.
-/

namespace EchoLoad

open World

variable {set : Setting} {plans : EchoPlan → Prop} {o : Output} {session : Session} {w : World}

/-! ## A fixed pool -/

section

variable (ho : set.options.Timed) (hplans : ∀ plan, plans plan → ∃ n, plan.payload.Allows n)

include ho hplans

theorem Session.establish_returns (h : session.world.WaitsEnd plans) (clients batch : Nat) :
    Returns fun fuel => session.establish set fuel clients batch o := by
  unfold Session.establish
  refine (growPool_returns ho hplans h clients batch clients {}).bind ?_
  rintro fuel ⟨w1, pool⟩ hok
  obtain ⟨hw1, -⟩ := (growPool_leaves (C := fun _ => True) (waitsEnd_kept ho)
    (fun _ _ _ _ => trivial) (by simp) h).ok hok
  dsimp only
  split
  · refine (closeAll_returns ho hplans hw1 batch 0 pool.clients).bind fun _ x _ => ?_
    split <;> exact .of_ok fun _ => rfl
  · split <;> exact .of_ok fun _ => rfl

namespace Sweep

variable {s : SweepSettings} {p : Sweep}

theorem pause_returns (h : w.WaitsEnd plans) : Returns fun fuel => pause set fuel s p w := by
  unfold pause
  split
  · exact .of_ok fun _ => rfl
  · exact sleep_returns ho hplans h s.phasePause

/-- **A phase returns**: it has a deadline, or its loops have limits. -/
theorem phase_returns (h : w.WaitsEnd plans) {size : Nat} (hplan : plans (phasePlan s size))
    (hend : s.phaseEnd.limit? ≠ none ∨ ∀ plan, plans plan → plan.rounds ≠ none)
    (clients : List Client) : Returns fun fuel => phase set fuel s size clients w := by
  have hstart : (phaseStart set s size clients w).WaitsEnd plans :=
    spawnAll_keeps (waitsEnd_kept ho).lasting hplan _
      ⟨h.network, h.dials, h.rounds, h.plans⟩
  exact (joinAll_returns ho hplans hstart hend).bind fun _ x _ => .of_ok fun _ => rfl

theorem turn_returns {size : Nat} (hplan : plans (phasePlan s size))
    (hend : s.phaseEnd.limit? ≠ none ∨ ∀ plan, plans plan → plan.rounds ≠ none)
    (h : session.world.WaitsEnd plans) : Returns fun fuel => turn set fuel s o size p session := by
  refine (pause_returns ho hplans h).bind fun fuel w1 hok => ?_
  have hw1 : w1.WaitsEnd plans := (pause_leaves (waitsEnd_kept ho) h).ok hok
  split
  · exact .of_ok fun _ => rfl
  · refine (phase_returns ho hplans hw1 hplan hend p.clients).bind ?_
    rintro _ ⟨w2, clients, summary, failure⟩ -
    dsimp only
    split <;> exact .of_ok fun _ => rfl

theorem advance_returns {sizes : List Nat} (hsizes : ∀ size ∈ sizes, plans (phasePlan s size))
    (hend : s.phaseEnd.limit? ≠ none ∨ ∀ plan, plans plan → plan.rounds ≠ none)
    (h : session.world.WaitsEnd plans) :
    Returns fun fuel => advance set fuel s o sizes p session := by
  induction sizes generalizing p session with
  | nil => exact .of_ok fun _ => rfl
  | cons size sizes ih =>
    have hplan := hsizes size List.mem_cons_self
    refine (turn_returns (o := o) (p := p) ho hplans hplan hend h).follow fun fuel x hok => ?_
    have hkept : x.1.world.WaitsEnd plans := (turn_leaves (waitsEnd_kept ho) hplan h).ok hok
    obtain ⟨session1, e | ⟨p1, more⟩⟩ := x
    · exact ⟨fun _ => .ok (session1, .error e), .of_ok fun _ => rfl,
        fun m hm => by simp only [advance, hm]⟩
    · cases more with
      | false =>
        exact ⟨fun _ => .ok (session1, .ok p1), .of_ok fun _ => rfl,
          fun m hm => by simp only [advance, hm]⟩
      | true =>
        exact ⟨_, ih (p := p1) (fun x hx => hsizes x (List.mem_cons_of_mem _ hx)) hkept,
          fun m hm => by simp only [advance, hm]⟩

/-- **A sweep returns.** -/
theorem run_returns (hsizes : ∀ size ∈ s.sizes, plans (phasePlan s size))
    (hend : s.phaseEnd.limit? ≠ none ∨ ∀ plan, plans plan → plan.rounds ≠ none)
    (h : session.world.WaitsEnd plans) : Returns fun fuel => run set fuel s o session := by
  refine (Session.establish_returns ho hplans h s.clients s.batchSize).bind fun fuel x hok => ?_
  obtain ⟨hw1, -⟩ := (Session.establish_leaves (C := fun _ => True) (waitsEnd_kept ho)
    (fun _ _ _ _ => trivial) h).ok hok
  obtain ⟨session1, e | ⟨clients, joins⟩⟩ := x
  · exact .of_ok fun _ => rfl
  dsimp only
  split
  · exact .of_ok fun _ => rfl
  next store _ =>
  have hbegun : ({ session1 with store } : Session).world.WaitsEnd plans := hw1
  refine (advance_returns ho hplans hsizes hend hbegun).bind fun fuel y hok => ?_
  have hw2 := (advance_leaves (waitsEnd_kept ho) hsizes hbegun).ok hok
  obtain ⟨session2, e | p⟩ := y
  · exact .of_ok fun _ => rfl
  · exact (closeAll_returns ho hplans hw2 s.batchSize s.closePause p.clients).bind
      fun _ _ _ => .of_ok fun _ => rfl

end Sweep

namespace Mixed

variable {s : MixedSettings}

omit ho hplans in
theorem spawnAll_total (set : Setting) (s : MixedSettings) (clients : List Client)
    (source : Source) (w : World) : ∃ w', spawnAll set s clients source w = .ok w' := by
  induction clients generalizing source w with
  | nil => exact ⟨w, rfl⟩
  | cons c clients ih =>
    obtain ⟨⟨n, source'⟩, hdraw⟩ := Option.ne_none_iff_exists'.1
      (Source.uniform_ne_none (s := source) (Nat.le_max_right s.maxRounds 1))
    simp only [spawnAll, hdraw]
    exact ih source' _

/-- **A mixed run returns**: its loops have limits. -/
theorem run_returns (hloops : ∀ n, plans { payload := s.payload, rounds := some n })
    (hlimits : ∀ plan, plans plan → plan.rounds ≠ none) (h : session.world.WaitsEnd plans) :
    Returns fun fuel => run set fuel s o session := by
  refine (Session.establish_returns ho hplans h s.clients s.batchSize).bind fun fuel x hok => ?_
  obtain ⟨hw1, -⟩ := (Session.establish_leaves (C := fun _ => True) (waitsEnd_kept ho)
    (fun _ _ _ _ => trivial) h).ok hok
  obtain ⟨session1, e | ⟨clients, joins⟩⟩ := x
  · exact .of_ok fun _ => rfl
  let start : World := { session1.world with active := !session1.world.stopped }
  have hstart : start.WaitsEnd plans := ⟨hw1.network, hw1.dials, hw1.rounds, hw1.plans⟩
  obtain ⟨w2, hspawn⟩ := spawnAll_total set s clients set.source start
  have hw2 : w2.WaitsEnd plans := (spawnAll_leaves (waitsEnd_kept ho) hloops hstart).ok hspawn
  dsimp only
  rw [hspawn]
  refine (joinAll_returns ho hplans hw2 (.inr hlimits)).bind fun fuel y hok => ?_
  have hw3 := (joinAll_leaves (waitsEnd_kept ho).lasting hw2).ok hok
  have htaken : y.1.cancel.takeMessages.2.WaitsEnd plans :=
    (waitsEnd_kept ho).sink _ _ ((waitsEnd_kept ho).lasting.cancel hw3)
  split
  · exact .of_ok fun _ => rfl
  · next session4 hwrite =>
    have hw4 : session4.world.WaitsEnd plans := Session.writeSeries_world hwrite ▸ htaken
    exact (closeAll_returns ho hplans hw4 s.batchSize 0 y.2.1).bind
      fun _ _ _ => .of_ok fun _ => rfl

end Mixed

/-! ## A ramp -/

namespace Ramp

variable {s : RampSettings} {r r' : Ramp}

/-- **An admission returns.** Its rounds are limited; a loop that follows one is not, but is not
waited for either. -/
theorem admitBatch_returns (hstarts : Plans plans s) (h : w.WaitsEnd plans) (clients : List Client) :
    Returns fun fuel => admitBatch set fuel s clients w := by
  have hspawned : (clients.foldl (World.spawn set (admissionPlan s)) w).WaitsEnd plans :=
    spawnAll_keeps (waitsEnd_kept ho).lasting hstarts.admission clients h
  refine attend_returns (admitting set s) (I := fun _ _ => True) ho hplans
    (fun _ _ _ => rfl) (fun _ _ _ _ => trivial) (fun _ _ _ _ _ => trivial) ?_ ?_ trivial hspawned
  · intro horizon left w _ hw hover
    by_cases hany : w.workers.any isAdmission = true
    · obtain ⟨k, hk, ha⟩ := List.any_eq_true.1 hany
      exact hover.exists_move hw hk (.inr (Option.isSome_iff_ne_none.1 ha)) ha
    · exact ⟨w.now, .ended, ended_mem_moves (by simpa [admitting] using hany), hover.now⟩
  · intro left w w' b _ hw hr
    cases hr with
    | alarm ha => cases ha
    | mail hm => cases hm
    | ended => trivial
    | @joined i k hk hs ha =>
      have hjoined := (waitsEnd_kept ho).lasting.join hw i
      simp only [admitting]
      by_cases hopen : k.client.isOpen = true
      · rw [if_pos hopen]
        refine ⟨trivial, (waitsEnd_kept ho).spawn _ _ _ hstarts.loop hjoined, .less ?_⟩
        obtain ⟨n, hn⟩ := Option.isSome_iff_exists.1 ha
        have hturns : k.turnsLeft = 1 := by simp only [Worker.turnsLeft, hn, hs]
        rw [turnsLeft, turnsLeft, sum_map_eraseIdx hk, hturns]
        simp [World.spawn, Worker.turnsLeft, loopPlan]
      · rw [if_neg hopen]
        exact ⟨trivial, hjoined, .join hk hs rfl⟩

/-- **A cycle returns.** -/
theorem cycle_returns (hstarts : Plans plans s) (h : w.WaitsEnd plans) (r : Ramp) :
    Returns fun fuel => cycle set fuel s r w := by
  rcases hnext : r.next s w with ⟨w', ending | size⟩
  · refine .of_ok (x := (w', r, some ending)) fun fuel => ?_
    rw [cycle, hnext]
    rfl
  have hstopped := (next_keeps (waitsEnd_kept ho).lasting s r h).2 size
  rw [hnext] at hstopped
  obtain rfl := next_goes_on hnext
  simp only [cycle, hnext]
  refine (connectBatch_returns ho hplans h r.population size true (hstopped rfl)).bind ?_
  rintro fuel ⟨w1, out, seen⟩ hok
  obtain ⟨hw1, -⟩ := (connectBatch_leaves (C := fun _ => True) (waitsEnd_kept ho)
    (fun _ _ _ _ => trivial) _ _ _ true (hstopped rfl) h).ok hok
  dsimp only
  split
  · exact .of_ok fun _ => rfl
  split
  · exact .of_ok fun _ => rfl
  refine (admitBatch_returns ho hplans hstarts hw1 out.connected).bind fun fuel y hok => ?_
  have hw2 := (admitBatch_leaves (waitsEnd_kept ho).lasting hstarts hw1).ok hok
  split
  · exact .of_ok fun _ => rfl
  · exact (pause_returns ho hplans hw2 s.batchPause).bind fun _ _ _ => .of_ok fun _ => rfl

omit hplans in
theorem cycle_waitsEnd (hstarts : Plans plans s) (h : w.WaitsEnd plans) {fuel : Nat} {w' : World}
    {ending : Option RampEnd} (hc : cycle set fuel s r w = .ok (w', r', ending)) :
    w'.WaitsEnd plans := by
  have hkept : KeptWith set plans (WaitsEnd plans) := waitsEnd_kept ho
  have hnext := next_keeps hkept.lasting s r h
  have hleaves : Leaves (WaitsEnd plans) (fun x => x.1.WaitsEnd plans) (cycle set fuel s r w) := by
    refine cycle_waits hkept.lasting hstarts
      (fun w h => hkept.runStep _ _ h .handOver (Nat.le_refl _)) (fun w1 ending he => ?_)
      fun w1 size he => ?_
    · rw [he] at hnext
      exact hnext.1
    · rw [he] at hnext
      exact dialBatch_keeps hkept _ _ (hnext.2 size rfl) hnext.1
  exact hleaves.ok hc

omit ho hplans in
theorem cycle_grows (hg : Growing set.options r w) (hb : 1 ≤ s.batchSize) {cap fuel : Nat}
    (hcap : s.maxClients = some cap) {w' : World} (h : cycle set fuel s r w = .ok (w', r', none)) :
    r.population < r'.population ∧ r.population < cap := by
  have hbatch : ∀ {size : Nat} {w0 w1 : World} {out : BatchOutcome},
      r.next s w = (w0, .inr size) →
      w.connectBatch set fuel r.population size true = .ok (w1, out, none) → out.refusals = [] →
      r.population < r.population + out.connected.length ∧ r.population < cap := by
    intro size w0 w1 out hnext hc hr
    rw [hg.population] at hc
    obtain ⟨-, -, -, hsize, -⟩ := World.connectBatch_ledger hg.books.ledger hg.books.noBatch hc
    rw [hr] at hsize
    cases next_ok hnext with
    | batch _ _ _ hlt =>
      have hlt := hlt cap hcap
      simp only [batchAt, hcap, List.length_nil] at hsize
      omega
  generalize hending : (none : Option RampEnd) = ending at h
  cases cycle_ok h with
  | ended | noticed | refused => cases hending
  | admitted hnext hc hr => exact hbatch hnext hc hr
  | paused hnext hc hr => exact hbatch hnext hc hr

/-- **A ramp with a cap grows to its end.** -/
theorem grow_returns (hstarts : Plans plans s) (hb : 1 ≤ s.batchSize) {cap : Nat}
    (hcap : s.maxClients = some cap) (hg : Growing set.options r w) (h : w.WaitsEnd plans)
    (extra : Nat) : Returns fun fuel => grow set (fuel + extra) s fuel r w := by
  induction hn : cap - r.population using Nat.strong_induction_on generalizing r w extra with
  | _ rest ih =>
    obtain ⟨⟨w1, r1, ending⟩, hcycle⟩ := cycle_returns ho hplans hstarts h r
    obtain ⟨fuel, hok⟩ := hcycle.exists_ok
    cases ending with
    | some ending => exact ⟨_, grow_stops hcycle extra⟩
    | none =>
      obtain ⟨hlt, hlt'⟩ := cycle_grows hg hb hcap hok
      obtain ⟨x, hx⟩ := ih (cap - r1.population) (by omega) ((cycle_ledger hg hok).1 rfl)
        (cycle_waitsEnd ho hstarts h hok) (extra + 1) rfl
      exact ⟨x, grow_goes_on hcycle hx⟩

/-- **A ramp with a cap returns.** -/
theorem run_returns (hstarts : Plans plans s) (hb : 1 ≤ s.batchSize) {cap : Nat}
    (hcap : s.maxClients = some cap) (hw : session.world.Fresh) (h : session.world.WaitsEnd plans) :
    Returns fun fuel => run set fuel s o session := by
  have hkept : KeptWith set plans (WaitsEnd plans) := waitsEnd_kept ho
  have hactivated : session.world.activate.WaitsEnd plans := ⟨h.network, h.dials, h.rounds, h.plans⟩
  refine (grow_returns ho hplans hstarts hb hcap (.start hw) hactivated 0).bind fun fuel x hok => ?_
  have hw1 := (grow_leaves hkept hstarts hactivated).ok hok
  have hdrain := drain_returns ho hplans (hkept.lasting.cancel hw1) rfl
  have hsettle : Returns fun fuel => settle set fuel x.2.2 x.1 :=
    hdrain.bind fun _ _ _ => by dsimp only; split <;> exact .of_ok fun _ => rfl
  refine hsettle.bind fun fuel y hok => ?_
  have hw2 := (settle_leaves hkept.lasting hw1).ok hok
  refine (closeAll_returns ho hplans hw2 s.batchSize 0 (x.2.1.stragglers ++ y.2.1)).bind
    fun _ z _ => ?_
  dsimp only
  split
  · exact .of_ok fun _ => rfl
  · split <;> exact .of_ok fun _ => rfl

end Ramp

end

/-! ## All workloads -/

theorem Network.peer_mem (net : Network) (n : Nat) : net.peer n ∈ net.rest :: net.peers := by
  unfold Network.peer
  cases h : net.peers[n]? with
  | none => exact List.mem_cons_self
  | some p => exact List.mem_cons_of_mem _ (List.mem_of_getElem? h)

theorem World.Fresh.waitsEnd (h : w.Fresh) (hpeers : ∀ n, 0 < (w.network.peer n).latency) :
    w.WaitsEnd plans :=
  ⟨⟨hpeers, by simp [h.connections]⟩, by simp [h.dials], by simp [h.workers], by simp [h.workers]⟩

/-- **No workload hangs while deadlines are set.** Peers may refuse, keep silent, hang up, cut off
their replies or spoil them, on whatever connection, as long as no reply comes at once. Then every
sweep returns, every mixed run that has a length to draw, and every ramp with a cap that has one and
connects a client at least in a batch. -/
theorem workloads_return (set : Setting) (o : Output) (session : Session)
    (hw : session.world.Fresh)
    (hpeers : ∀ n, Duration.ofMillis 1 ≤ (session.world.network.peer n).latency)
    (hconnect : set.options.connectTimeout.isSome = true)
    (hio : set.options.ioTimeout.isSome = true) :
    (∀ s : SweepSettings, Returns fun fuel => Sweep.run set fuel s o session) ∧
    (∀ s : MixedSettings, (∃ n, s.payload.Allows n) →
      Returns fun fuel => Mixed.run set fuel s o session) ∧
    ∀ s : RampSettings, s.maxClients.isSome = true → 1 ≤ s.batchSize →
      (∃ n, s.payload.Allows n) → Returns fun fuel => Ramp.run set fuel s o session := by
  have ho : set.options.Timed :=
    ⟨Option.isSome_iff_ne_none.1 hconnect, Option.isSome_iff_ne_none.1 hio⟩
  have hends : ∀ plans, session.world.WaitsEnd plans := fun plans =>
    hw.waitsEnd fun n => Nat.lt_of_lt_of_le (by decide) (hpeers n)
  refine ⟨fun s => ?_, fun s hsize => ?_, fun s hcap hbatch hsize => ?_⟩
  · have h := hends fun plan => ∃ size, plan = Sweep.phasePlan s size
    refine Sweep.run_returns ho ?_ (fun size _ => ⟨size, rfl⟩) ?_ h
    · rintro plan ⟨size, rfl⟩
      exact ⟨size, rfl⟩
    · cases hend : s.phaseEnd with
      | duration d => exact .inl nofun
      | rounds n =>
        refine .inr ?_
        rintro plan ⟨size, rfl⟩
        rw [Sweep.phasePlan_rounds size hend]
        nofun
  · have h := hends fun plan => ∃ n, plan = ⟨s.payload, some n⟩
    refine Mixed.run_returns ho ?_ (fun n => ⟨n, rfl⟩) ?_ h
    · rintro plan ⟨n, rfl⟩
      exact hsize
    · rintro plan ⟨n, rfl⟩
      nofun
  · obtain ⟨cap, hcap⟩ := Option.isSome_iff_exists.1 hcap
    have h := hends (Ramp.Planned s)
    refine Ramp.run_returns ho ?_ ⟨.inr rfl, .inl rfl⟩ hbatch hcap hw h
    rintro plan (rfl | rfl) <;> exact hsize

/-- Peers that never connect, refuse, keep silent, hang up, and cut off or spoil their replies. -/
theorem workloads_return_faulty :
    let set : Setting := {
      options := {
        connectTimeout := some (Duration.ofSecs 1), ioTimeout := some (Duration.ofSecs 1) }
      source := SplitMix.source #[] 0 }
    let session : Session := { world := { network := {
      peers := [{ never := true }, { refuse := some .writeZero }, { thereafter := .silent },
        { replies := [.echo, .hangup] }, { replies := [.cut 1] }, { thereafter := .flip 0 1 }]
      rest := { latency := Duration.ofMillis 3 } } } }
    (Returns fun fuel => Sweep.run set fuel
      { clients := 6, batchSize := 2, sizes := [0, 64], phaseEnd := .duration (Duration.ofSecs 5) }
      ⟨".", "r"⟩ session) ∧
    (Returns fun fuel => Mixed.run set fuel
      { clients := 6, batchSize := 2, payload := .uniform 1 64, maxRounds := 3 } ⟨".", "r"⟩
      session) ∧
    Returns fun fuel => Ramp.run set fuel
      { batchSize := 2, payload := .fixed 16, maxClients := some 9 } ⟨".", "r"⟩ session := by
  intro set session
  have hpeers : ∀ p ∈ session.world.network.rest :: session.world.network.peers,
      Duration.ofMillis 1 ≤ p.latency := by
    decide
  obtain ⟨hsweep, hmixed, hramp⟩ := workloads_return set ⟨".", "r"⟩ session
    ⟨rfl, rfl, rfl, rfl, rfl, rfl, rfl, rfl⟩
    (fun n => hpeers _ (session.world.network.peer_mem n)) rfl rfl
  exact ⟨hsweep _, hmixed _ ⟨1, by decide, by decide⟩, hramp _ rfl (by decide) ⟨16, rfl⟩⟩

end EchoLoad
