import EchoLoad.Proofs.RunStep
import EchoLoad.Proofs.Workload.Ramp
import EchoLoad.Proofs.Workload.Sweep
import EchoLoad.Workload.Mixed
/-!
The three workloads as things that happen to a world. Main statements: `Ramp.run_leaves`,
`Sweep.run_leaves` and `Mixed.run_leaves`, for all runs, also those that come to no result.
-/

namespace EchoLoad

open World

variable {set : Setting} {fuel : Nat} {o : Output} {P : World → Prop} {w : World}
  {plans : EchoPlan → Prop} {session : Session}

/-! ## The ramp -/

namespace Ramp

variable {s : RampSettings} {r : Ramp}

theorem next_keeps (hP : LastingWith set plans P) (s : RampSettings) (r : Ramp) (hw : P w) :
    P (r.next s w).1 ∧ ∀ size, (r.next s w).2 = .inr size → (r.next s w).1.stopped = false := by
  rcases hn : r.next s w with ⟨w', x⟩
  cases next_ok hn with
  | failed => exact ⟨hP.failures hw _, nofun⟩
  | interrupted | capped => exact ⟨hw, nofun⟩
  | batch _ _ hstopped => exact ⟨hw, fun _ _ => hstopped⟩

structure Plans (plans : EchoPlan → Prop) (s : RampSettings) : Prop where
  admission : plans (admissionPlan s)
  loop : plans (loopPlan s)

theorem admitBatch_leaves (hP : LastingWith set plans P) (hplans : Plans plans s)
    {clients : List Client} (hw : P w) :
    Leaves P (fun x => P x.1) (admitBatch set fuel s clients w) := by
  refine attend_leaves hP (fun left wakeup w hw => ?_) (spawnAll_keeps hP hplans.admission clients hw)
  simp only [admitting]
  split
  · split
    · exact hP.spawn w _ _ hplans.loop hw
    · exact hw
  · exact hw
  · exact hw

/-- In a cycle only the beginning of a batch and its end are not waits. -/
theorem cycle_waits (hP : LastingWith set plans P) (hplans : Plans plans s)
    (hover : ∀ w, P w → P w.handOver.1)
    (hends : ∀ w' ending, r.next s w = (w', .inl ending) → P w')
    (hdials : ∀ w' size, r.next s w = (w', .inr size) → P (w'.dialBatch set r.population size)) :
    Leaves P (fun x => P x.1) (cycle set fuel s r w) := by
  unfold cycle
  split
  · next w1 ending he => exact hends w1 ending he
  · next w1 size he =>
    refine (connectBatch_waits hP fuel _ (hdials w1 size he)).bind ?_
    rintro ⟨w2, out, seen⟩ ⟨w', hw', rfl, rfl⟩
    have hw2 : P w'.handOver.1 := hover w' hw'
    dsimp only
    split
    · exact hw2
    · split
      · exact hw2
      · refine (admitBatch_leaves hP hplans hw2).bind fun y hy => ?_
        split
        · exact hy
        · exact (pause_leaves hP hy).bind fun z hz => hz

theorem grow_waits (hP : LastingWith set plans P) (hplans : Plans plans s)
    (hover : ∀ w, P w → P w.handOver.1)
    (hdials : ∀ (r : Ramp) w size, r.next s w = (w, .inr size) → P w →
      P (w.dialBatch set r.population size))
    {batches : Nat} (hw : P w) : Leaves P (fun x => P x.1) (grow set fuel s batches r w) := by
  induction batches generalizing r w with
  | zero => exact hw
  | succ batches ih =>
    have hcycle : Leaves P (fun x => P x.1) (cycle set fuel s r w) := by
      have hnext := (next_keeps hP s r hw).1
      refine cycle_waits hP hplans hover (fun w' ending he => ?_) fun w' size he => ?_
      · rwa [he] at hnext
      · obtain rfl := next_goes_on he
        exact hdials r _ size he hw
    unfold grow
    split
    · next stop he =>
      rw [he] at hcycle
      exact hcycle
    · next w1 r1 ending he => exact hcycle.ok he
    · next w1 r1 he => exact ih (hcycle.ok he)

theorem grow_leaves (hP : KeptWith set plans P) (hplans : Plans plans s) {batches : Nat}
    (hw : P w) :
    Leaves P (fun x => P x.1) (grow set fuel s batches r w) := by
  refine grow_waits hP.lasting hplans (fun w h => hP.runStep _ _ h .handOver (Nat.le_refl _))
    (fun r w size he hw => ?_) hw
  have hstopped := (next_keeps hP.lasting s r hw).2 size
  rw [he] at hstopped
  exact dialBatch_keeps hP _ _ (hstopped rfl) hw

theorem settle_leaves (hP : LastingWith set plans P) {ending : RampEnd} (hw : P w) :
    Leaves P (fun x => P x.1) (settle set fuel ending w) := by
  refine (drain_leaves hP (hP.cancel hw)).bind fun x hx => ?_
  dsimp only
  split <;> exact hP.failures hx _

theorem run_waits (hP : LastingWith set plans P) (hclose : ∀ w c, P w → P (w.close c))
    (hsink : ∀ w sink, P w → P { w with sink })
    (hgrow : Leaves P (fun x => P x.1) (grow set fuel s fuel {} session.world.activate)) :
    Leaves P (fun x => P x.1.world) (run set fuel s o session) := by
  refine hgrow.bind fun x hx => ?_
  refine (settle_leaves hP hx).bind fun y hy => ?_
  refine (closeAll_leaves hP hclose hy).bind fun z hz => ?_
  have htake : P z.1.takeJoins.2.takeMessages.2 := hsink _ _ (hsink _ _ hz)
  dsimp only
  split
  · exact htake
  · next s1 h1 =>
    have hs1 : P s1.world := Session.writeSeries_world h1 ▸ htake
    split
    · exact hs1
    · next s2 h2 =>
      have hs2 : P s2.world := Session.writeSeries_world h2 ▸ hs1
      exact hs2

theorem run_leaves (hP : KeptWith set plans P) (hplans : Plans plans s)
    (hw : P session.world.activate) :
    Leaves P (fun x => P x.1.world) (run set fuel s o session) :=
  run_waits hP.lasting hP.close hP.sink (grow_leaves hP hplans hw)

end Ramp

/-! ## A fixed pool -/

theorem Session.establish_leaves {C : Client → Prop} (hP : KeptWith set plans P)
    (hC : ∀ w, P w → ∀ c ∈ w.connected, C c) {clients batch : Nat} (hw : P session.world) :
    Leaves P (fun x => P x.1.world ∧ ∀ pool, x.2 = .ok pool → ∀ c ∈ pool.1, C c)
      (session.establish set fuel clients batch o) := by
  refine (growPool_leaves hP hC (by simp) hw).bind ?_
  rintro ⟨w1, pool⟩ ⟨hw1, hclients⟩
  dsimp only
  split
  · refine (closeAll_leaves hP.lasting hP.close hw1).bind fun y hy => ?_
    have htake : P y.1.takeJoins.2 := hP.sink _ _ hy
    split
    · exact ⟨htake, nofun⟩
    · next s1 h1 =>
      have hs1 : P s1.world := Session.writeSeries_world h1 ▸ htake
      exact ⟨hs1, nofun⟩
  · have htake : P w1.takeJoins.2 := hP.sink _ _ hw1
    split
    · exact ⟨hP.runStep _ _ htake (.release _) (Nat.le_refl _), nofun⟩
    · next s1 h1 =>
      have hs1 : P s1.world := Session.writeSeries_world h1 ▸ htake
      refine ⟨hs1, fun clients hok => ?_⟩
      cases hok
      exact hclients

theorem Session.establish_keeps {C : Client → Prop} (hP : KeptWith set plans P)
    (hC : ∀ w, P w → ∀ c ∈ w.connected, C c) {clients batch joins : Nat} {pool : List Client}
    {session' : Session} (hw : P session.world)
    (h : session.establish set fuel clients batch o = .ok (session', .ok (pool, joins))) :
    P session'.world ∧ ∀ c ∈ pool, C c := by
  have hleaves : Leaves P _ (session.establish set fuel clients batch o) :=
    establish_leaves hP hC hw
  rw [h] at hleaves
  exact ⟨hleaves.1, hleaves.2 _ rfl⟩

namespace Sweep

variable {s : SweepSettings} {p : Sweep}

theorem phase_leaves (hP : KeptWith set plans P) {size : Nat} (hplan : plans (phasePlan s size))
    {clients : List Client} (hw : P w) :
    Leaves P (fun x => P x.1) (phase set fuel s size clients w) := by
  have htake : P w.takeMessages.2 := hP.sink _ _ hw
  have hrestart : P { w.takeMessages.2 with active := !w.stopped } :=
    hP.runStep _ _ htake .restart (Nat.le_refl _)
  refine (joinAll_leaves hP.lasting (spawnAll_keeps hP.lasting hplan _ hrestart)).bind
    fun x hx => ?_
  exact hP.sink _ _ (hP.lasting.cancel hx)

theorem pause_leaves (hP : KeptWith set plans P) (hw : P w) :
    Leaves P P (pause set fuel s p w) := by
  unfold pause
  split
  · exact hw
  · exact sleep_leaves hP.lasting hw

theorem turn_leaves (hP : KeptWith set plans P) {size : Nat} (hplan : plans (phasePlan s size))
    (hw : P session.world) :
    Leaves P (fun x => P x.1.world) (turn set fuel s o size p session) := by
  refine (pause_leaves hP hw).bind fun w hw => ?_
  split
  · exact hw
  · refine (phase_leaves hP hplan hw).bind fun x hx => ?_
    have hrecord : P (record o x.2.2.1 { session with world := x.1 }).1.world := by
      rw [record_world]
      exact hP.sink _ _ hx
    dsimp only
    split
    · next s1 e h1 =>
      rw [h1] at hrecord
      exact hP.runStep _ _ hrecord (.release _) (Nat.le_refl _)
    · next s1 h1 =>
      rw [h1] at hrecord
      exact hrecord

theorem advance_leaves (hP : KeptWith set plans P) {sizes : List Nat}
    (hplans : ∀ size ∈ sizes, plans (phasePlan s size)) (hw : P session.world) :
    Leaves P (fun x => P x.1.world) (advance set fuel s o sizes p session) := by
  induction sizes generalizing p session with
  | nil => exact hw
  | cons size sizes ih =>
    have hturn : Leaves P (fun x => P x.1.world) (turn set fuel s o size p session) :=
      turn_leaves hP (hplans size List.mem_cons_self) hw
    unfold advance
    split
    · next stop he =>
      rw [he] at hturn
      exact hturn
    · next s1 e he => exact hturn.ok he
    · next s1 p1 he => exact hturn.ok he
    · next s1 p1 he =>
      exact ih (fun x hx => hplans x (List.mem_cons_of_mem _ hx)) (hturn.ok he)

theorem run_leaves (hP : KeptWith set plans P) (hplans : ∀ size ∈ s.sizes, plans (phasePlan s size))
    (hw : P session.world) : Leaves P (fun x => P x.1.world) (run set fuel s o session) := by
  refine (Session.establish_leaves (C := fun _ => True) hP (fun _ _ _ _ => trivial) hw).bind ?_
  rintro ⟨session1, e | ⟨clients, joins⟩⟩ ⟨hw1, -⟩
  · exact hw1
  · dsimp only
    split
    · exact hP.runStep _ _ hw1 (.release _) (Nat.le_refl _)
    · next store _ =>
      have hbegun : P ({ session1 with store } : Session).world := hw1
      refine (advance_leaves hP hplans hbegun).bind ?_
      rintro ⟨session2, e | p⟩ hw2
      · exact hw2
      · exact (closeAll_leaves hP.lasting hP.close hw2).bind fun x hx => hx

end Sweep

namespace Mixed

variable {s : MixedSettings}

theorem spawnAll_leaves (hP : KeptWith set plans P)
    (hplans : ∀ n, plans { payload := s.payload, rounds := some n }) {clients : List Client}
    {source : Source} (hw : P w) : Leaves P P (spawnAll set s clients source w) := by
  induction clients generalizing source w with
  | nil => exact hw
  | cons c clients ih =>
    unfold spawnAll
    split
    · exact hw
    · exact ih (hP.spawn _ _ _ (hplans _) hw)

theorem run_leaves (hP : KeptWith set plans P)
    (hplans : ∀ n, plans { payload := s.payload, rounds := some n }) (hw : P session.world) :
    Leaves P (fun x => P x.1.world) (run set fuel s o session) := by
  refine (Session.establish_leaves (C := fun _ => True) hP (fun _ _ _ _ => trivial) hw).bind ?_
  rintro ⟨session1, e | ⟨clients, joins⟩⟩ ⟨hw1, -⟩
  · exact hw1
  · refine (spawnAll_leaves hP hplans (hP.runStep _ _ hw1 .restart (Nat.le_refl _))).bind
      fun w2 hw2 => ?_
    refine (joinAll_leaves hP.lasting hw2).bind ?_
    rintro ⟨w3, clients3, failure⟩ hw3
    have htake : P w3.cancel.takeMessages.2 := hP.sink _ _ (hP.lasting.cancel hw3)
    dsimp only
    split
    · exact hP.runStep _ _ htake (.release _) (Nat.le_refl _)
    · next session4 hwrite =>
      have hw4 : P session4.world := Session.writeSeries_world hwrite ▸ htake
      exact (closeAll_leaves hP.lasting hP.close hw4).bind fun x hx => hx

end Mixed

end EchoLoad
