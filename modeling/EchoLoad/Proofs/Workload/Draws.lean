import EchoLoad.Proofs.Checked
import EchoLoad.Proofs.Workload.Barrier
import EchoLoad.Proofs.Workload.NoHang
import EchoLoad.Run
/-!
Ranges that are never empty. A run stops for an empty range only where a loop has no length to draw,
and the loops of an accepted configuration always have one. Its batches are never empty either, and
none goes beyond the cap or the target. Main statements: `Run.run_emptyRange` and `accepted_safe`.
-/

namespace EchoLoad

/-- Some loop has no length to draw. -/
def World.HasEmptyRange (w : World) : Prop := ∃ k ∈ w.workers, k.plan.payload.sample k.source = none

/-- If the computation stops for an empty range, then because of a loop. -/
def StopsOnEmptyRange {α : Type} : Except Stop α → Prop
  | .ok _ => True
  | .error stop => stop.reason = .emptyRange → stop.world.HasEmptyRange

namespace StopsOnEmptyRange

variable {α β : Type} {x : Except Stop α}

theorem of_ok (a : α) : StopsOnEmptyRange (.ok a) := trivial

theorem bind {f : α → Except Stop β} (hx : StopsOnEmptyRange x) (hf : ∀ a, StopsOnEmptyRange (f a)) :
    StopsOnEmptyRange (x >>= f) := by
  cases x with
  | error stop => exact hx
  | ok a => exact hf a

theorem map (hx : StopsOnEmptyRange x) (f : α → β) : StopsOnEmptyRange (x.map f) := by
  cases x with
  | error stop => exact hx
  | ok a => exact of_ok (f a)

theorem passed_on {e : Stop} (hx : StopsOnEmptyRange x) (h : x = .error e) :
    StopsOnEmptyRange (.error e : Except Stop β) := by
  rw [h] at hx
  exact hx

end StopsOnEmptyRange

/-! ## Waiting -/

namespace World

variable {set : Setting} {q : Waiting} {w : World} {fuel : Nat}

theorem proceed_emptyRange {i : Nat} {k : Worker} (hk : w.workers[i]? = some k) :
    StopsOnEmptyRange (w.proceed set i k) := by
  unfold proceed
  split
  · split
    · next hnone =>
      exact fun _ => ⟨k, List.mem_of_getElem? hk, hnone⟩
    · exact .of_ok _
  · exact .of_ok _

theorem work_emptyRange (i : Nat) : StopsOnEmptyRange (w.work set i) := by
  unfold work
  split
  · exact .of_ok _
  · next k hk =>
    split
    · exact proceed_emptyRange hk
    · exact proceed_emptyRange (echoed_getElem? hk)
    · exact .of_ok _
    · exact .of_ok _

/-- **A step** stops for an empty range only because of the loop whose turn it is. -/
theorem step_emptyRange : StopsOnEmptyRange (w.step set q) := by
  unfold step
  split
  · nofun
  · next t m _ =>
    cases m with
    | work i => exact (work_emptyRange i).map _
    | join | mail =>
      simp only [apply]
      split <;> exact .of_ok _
    | signal | dial | alarm | ended => exact .of_ok _

theorem attend_emptyRange {σ ρ : Type} {watch : Watch σ ρ} {s : σ} :
    StopsOnEmptyRange (w.attend set watch fuel s) := by
  induction fuel generalizing s w with
  | zero => nofun
  | succ fuel ih =>
    unfold attend
    split
    · next stop he => exact StopsOnEmptyRange.passed_on step_emptyRange he
    · exact ih
    · split
      · exact ih
      · exact .of_ok _

theorem sleep_emptyRange {d : Duration} :
    StopsOnEmptyRange (w.sleep set fuel d) :=
  StopsOnEmptyRange.map attend_emptyRange _

theorem joinAll_emptyRange {limit : Option Duration} :
    StopsOnEmptyRange (w.joinAll set fuel limit) := by
  unfold joinAll
  split
  · next stop he => exact StopsOnEmptyRange.passed_on attend_emptyRange he
  · dsimp only
    split <;> exact .of_ok _

theorem connectBatch_emptyRange {first size : Nat} {watchful : Bool} :
    StopsOnEmptyRange (w.connectBatch set fuel first size watchful) :=
  StopsOnEmptyRange.map attend_emptyRange _

theorem growPool_emptyRange {target batch batches : Nat} {pool : PoolOutcome} :
    StopsOnEmptyRange (growPool set fuel target batch batches pool w) := by
  induction batches generalizing pool w with
  | zero => exact .of_ok _
  | succ batches ih =>
    unfold growPool
    dsimp only
    split
    · exact .of_ok _
    · split
      · exact .of_ok _
      · split
        · next stop he => exact StopsOnEmptyRange.passed_on connectBatch_emptyRange he
        · split
          · exact .of_ok _
          · exact ih

theorem closeAll_emptyRange {batch : Nat} {pause : Duration} {clients : List Client} :
    StopsOnEmptyRange (w.closeAll set fuel batch pause clients) := by
  induction hn : clients.length using Nat.strong_induction_on generalizing clients w with
  | _ len ih =>
    unfold closeAll
    split
    · exact .of_ok _
    · next hne =>
      have hlen : (clients.drop (max batch 1)).length < len := hn ▸ drop_batch_lt batch hne
      dsimp only
      split
      · next stop he =>
        split at he
        · cases he
        · exact StopsOnEmptyRange.passed_on sleep_emptyRange he
      · exact (ih _ hlen rfl).map _

end World

/-! ## Workloads -/

open World

variable {set : Setting} {fuel : Nat} {o : Output} {session : Session}

theorem Session.establish_emptyRange {clients batch : Nat} :
    StopsOnEmptyRange (session.establish set fuel clients batch o) := by
  refine StopsOnEmptyRange.bind growPool_emptyRange fun x => ?_
  dsimp only
  split
  · refine StopsOnEmptyRange.bind closeAll_emptyRange fun y => ?_
    split <;> exact .of_ok _
  · split <;> exact .of_ok _

namespace Ramp

variable {s : RampSettings} {r : Ramp} {w : World}

theorem cycle_emptyRange : StopsOnEmptyRange (cycle set fuel s r w) := by
  unfold cycle
  split
  · exact .of_ok _
  · refine StopsOnEmptyRange.bind connectBatch_emptyRange fun x => ?_
    dsimp only
    split
    · exact .of_ok _
    · split
      · exact .of_ok _
      · refine StopsOnEmptyRange.bind attend_emptyRange fun y => ?_
        split
        · exact .of_ok _
        · exact StopsOnEmptyRange.bind attend_emptyRange fun z => .of_ok _

theorem grow_emptyRange {batches : Nat} : StopsOnEmptyRange (grow set fuel s batches r w) := by
  induction batches generalizing r w with
  | zero => nofun
  | succ batches ih =>
    unfold grow
    split
    · next stop he => exact StopsOnEmptyRange.passed_on cycle_emptyRange he
    · exact .of_ok _
    · exact ih

theorem run_emptyRange : StopsOnEmptyRange (run set fuel s o session) := by
  refine StopsOnEmptyRange.bind grow_emptyRange fun x => ?_
  refine StopsOnEmptyRange.bind (StopsOnEmptyRange.bind attend_emptyRange fun y => ?_) fun y => ?_
  · dsimp only
    split <;> exact .of_ok _
  · refine StopsOnEmptyRange.bind closeAll_emptyRange fun z => ?_
    dsimp only
    split
    · exact .of_ok _
    · split <;> exact .of_ok _

end Ramp

namespace Sweep

variable {s : SweepSettings} {p : Sweep}

theorem turn_emptyRange {size : Nat} : StopsOnEmptyRange (turn set fuel s o size p session) := by
  have hpause : StopsOnEmptyRange (pause set fuel s p session.world) := by
    unfold pause
    split
    · exact .of_ok _
    · exact sleep_emptyRange
  refine hpause.bind fun w => ?_
  split
  · exact .of_ok _
  · refine StopsOnEmptyRange.bind
      (StopsOnEmptyRange.bind joinAll_emptyRange fun x => .of_ok _) fun y => ?_
    dsimp only
    split <;> exact .of_ok _

theorem advance_emptyRange {sizes : List Nat} :
    StopsOnEmptyRange (advance set fuel s o sizes p session) := by
  induction sizes generalizing p session with
  | nil => exact .of_ok _
  | cons size sizes ih =>
    unfold advance
    split
    · next stop he => exact StopsOnEmptyRange.passed_on turn_emptyRange he
    · exact .of_ok _
    · exact .of_ok _
    · exact ih

theorem run_emptyRange : StopsOnEmptyRange (run set fuel s o session) := by
  refine StopsOnEmptyRange.bind Session.establish_emptyRange fun x => ?_
  split
  · exact .of_ok _
  · split
    · exact .of_ok _
    · refine StopsOnEmptyRange.bind advance_emptyRange fun y => ?_
      split
      · exact .of_ok _
      · exact StopsOnEmptyRange.bind closeAll_emptyRange fun z => .of_ok _

end Sweep

theorem Mixed.run_emptyRange {s : MixedSettings} : StopsOnEmptyRange (run set fuel s o session) := by
  refine StopsOnEmptyRange.bind Session.establish_emptyRange fun x => ?_
  split
  · exact .of_ok _
  · next session1 clients joins =>
    obtain ⟨w, hspawn⟩ := spawnAll_total set s clients set.source
      { session1.world with active := !session1.world.stopped }
    dsimp only
    rw [hspawn]
    have hwait : StopsOnEmptyRange (w.joinAll set fuel none) := joinAll_emptyRange
    refine hwait.bind fun y => ?_
    split
    · exact .of_ok _
    · exact StopsOnEmptyRange.bind closeAll_emptyRange fun z => .of_ok _

namespace Run

variable {env : Surroundings} {c : Config}

theorem workload_emptyRange {s : RunSummary} :
    StopsOnEmptyRange (workload env fuel c o s session) := by
  unfold workload
  dsimp only
  split
  · exact StopsOnEmptyRange.bind Ramp.run_emptyRange fun x => .of_ok _
  · exact StopsOnEmptyRange.bind Sweep.run_emptyRange fun x => .of_ok _
  · exact StopsOnEmptyRange.bind Mixed.run_emptyRange fun x => .of_ok _

/-- **A whole run** stops for an empty range only because of a loop. -/
theorem run_emptyRange : StopsOnEmptyRange (run env fuel c session) := by
  unfold run
  split
  · exact .of_ok _
  · split
    · exact .of_ok _
    · refine StopsOnEmptyRange.bind workload_emptyRange fun x => ?_
      dsimp only
      split <;> exact .of_ok _

theorem run_leaves {P : World → Prop} (h : ∀ o s store,
      Leaves P (fun _ => True) (workload env fuel c o s { session with store })) :
    Leaves P (fun _ => True) (run env fuel c session) := by
  unfold run
  split
  · trivial
  · split
    · trivial
    · refine (h _ _ _).bind fun x _ => ?_
      dsimp only
      split <;> trivial

end Run

/-! ## Loops that can draw -/

namespace World

theorem plans_kept (set : Setting) (plans : EchoPlan → Prop) :
    KeptWith set plans fun w => ∀ k ∈ w.workers, plans k.plan := by
  refine ⟨fun w w' h hmove hlen => ?_, fun w plan c hplan h k hk => ?_⟩
  · have hset : ∀ {i : Nat} {k : Worker} (k' : Worker), w.workers[i]? = some k →
        k'.plan = k.plan → ∀ x ∈ w.workers.set i k', plans x.plan := fun k' hk hplan =>
      forall_mem_set h (hplan ▸ h _ (List.mem_of_getElem? hk))
    cases hmove with
    | internalStep hs =>
      cases hs with
      | signal hsignal =>
        rw [interrupted_eq hsignal]
        exact h
      | arrived | declined => exact h
      | @echoed i k _ _ hk => exact hset k.advance hk rfl
      | @broken i k _ _ hk => exact hset { k with stage := .done } hk rfl
      | start hk => exact hset _ hk rfl
      | @retire i k hk => exact hset { k with stage := .done } hk rfl
    | join i => exact fun k hk => h k (List.eraseIdx_subset hk)
    | spawn plan c =>
      rw [spawn, List.length_append] at hlen
      exact absurd hlen (Nat.not_succ_le_self _)
    | close c =>
      unfold World.close
      split <;> exact h
    | pass | failures | cancel | restart | dial | handOver | release | sink => exact h
  · rcases List.mem_append.1 hk with hk | hk
    · exact h k hk
    · rw [List.mem_singleton.1 hk]
      exact hplan

theorem not_hasEmptyRange {w : World} (h : ∀ k ∈ w.workers, ∃ n, k.plan.payload.Allows n) :
    ¬ w.HasEmptyRange := by
  rintro ⟨k, hk, hnone⟩
  obtain ⟨n, hn⟩ := h k hk
  exact PayloadSize.sample_ne_none hn hnone

end World

/-! ## Batches -/

/-- A batch has a member, and its members keep within the bound. -/
structure Issue.Within (bound : Nat) (x : Issue) : Prop where
  nonempty : 1 ≤ x.size
  first : x.first < bound
  size : x.first + x.size ≤ bound

/-- **A batch of a ramp** has a member, and does not go beyond the cap. -/
theorem Issue.Grows.within {s : RampSettings} {x : Issue} (h : x.Grows s) (hbatch : 0 < s.batchSize) :
    1 ≤ x.size ∧ ∀ cap, s.maxClients = some cap → x.Within cap := by
  have hsize := h.size
  unfold Ramp.batchAt at hsize
  cases hmax : s.maxClients with
  | none =>
    rw [hmax] at hsize
    exact ⟨hsize ▸ hbatch, nofun⟩
  | some cap =>
    rw [hmax] at hsize
    have hroom := h.room cap hmax
    have hone : 1 ≤ x.size := by
      dsimp only at hsize
      omega
    refine ⟨hone, fun cap' hcap => ?_⟩
    cases hcap
    exact ⟨hone, hroom, by dsimp only at hsize; omega⟩

/-- **A batch of a pool** has a member, and does not go beyond the target. -/
theorem World.poolIssues_within (target batch batches : Nat) (pool : PoolOutcome) (w : World) :
    ∀ x ∈ poolIssues set fuel target batch batches pool w, x.Within target := by
  induction batches generalizing pool w with
  | zero => exact List.forall_mem_nil _
  | succ batches ih =>
    unfold poolIssues
    dsimp only
    split
    · exact List.forall_mem_nil _
    · next hroom =>
      split
      · exact List.forall_mem_nil _
      · intro x hx
        rcases List.mem_cons.1 hx with rfl | hx
        · exact ⟨by dsimp only; omega, by dsimp only; omega, by dsimp only; omega⟩
        · split at hx
          · cases hx
          · split at hx
            · cases hx
            · exact ih _ _ x hx

namespace Config

variable {a : Arguments} {f : FileConfig} {c : Config}

theorem Checked.workload_draws (h : c.Checked) (env : Surroundings) (fuel : Nat) (o : Output)
    (s : RunSummary) {session : Session} (hw : session.world.Fresh) :
    Leaves (fun w => ∀ k ∈ w.workers, ∃ n, k.plan.payload.Allows n) (fun _ => True)
      (Run.workload env fuel c o s session) := by
  have hkept := World.plans_kept (Run.setting env c) fun plan => ∃ n, plan.payload.Allows n
  have hramp : ∃ n, c.rampSettings.payload.Allows n := ⟨_, Nat.le_refl _, h.ramp⟩
  have hmixed : ∃ n, c.mixedSettings.payload.Allows n := ⟨_, Nat.le_refl _, h.mixed⟩
  have hloops : Ramp.Plans (fun plan => ∃ n, plan.payload.Allows n) c.rampSettings :=
    ⟨hramp, hramp⟩
  unfold Run.workload
  dsimp only
  split
  · exact (Ramp.run_leaves hkept hloops (by simp [hw.activate.workers])).bind
      fun _ _ => trivial
  · exact (Sweep.run_leaves hkept (fun size _ => ⟨size, rfl⟩) (by simp [hw.workers])).bind
      fun _ _ => trivial
  · exact (Mixed.run_leaves hkept (fun _ => hmixed) (by simp [hw.workers])).bind
      fun _ _ => trivial

/-- **An accepted configuration is safe to run**, in every mode, for every source of random words and
whatever happens. No run draws from an empty range: neither a length, nor a number of rounds, nor the
place of a symbol. Every batch of a ramp and of a pool has a member, and it is issued while the
clients before it are fewer than the cap or the target, which it does not go beyond. No attempt is
made but in these batches. -/
theorem accepted_safe (h : merge a f = .ok c) (env : Surroundings) (fuel : Nat) (o : Output)
    {session : Session} (hw : session.world.Fresh) :
    let set := Run.setting env c
    let ramp := Ramp.runIssues set fuel c.rampSettings session
    let pool := fun target => World.poolIssues set fuel target c.batchSize target {} session.world
    (∀ stop, Run.run env fuel c session = .error stop → stop.reason ≠ .emptyRange) ∧
    (∀ source : Source, (source.below Payload.symbolCount).1 < Payload.symbols.length) ∧
    (∀ x ∈ ramp, 1 ≤ x.size ∧ x.first = x.world.joins ∧
      ∀ cap, c.ramp.maxClients = some cap → x.Within cap) ∧
    Leaves (fun w => w.attempted = ramp.flatMap Issue.ids)
      (fun x => x.1.world.attempted = ramp.flatMap Issue.ids)
      (Ramp.run set fuel c.rampSettings o session) ∧
    ∀ target ∈ [c.sweepSettings.clients, c.mixedSettings.clients],
      (∀ x ∈ pool target, x.Within target) ∧
      Leaves (fun w => w.attempted = (pool target).flatMap Issue.ids)
        (fun x => x.1.attempted = (pool target).flatMap Issue.ids)
        (session.world.establishPool set fuel target c.batchSize) := by
  intro set ramp pool
  obtain ⟨-, hchecked⟩ := merge_ok h
  have hstart : Issued [] session.world.events := by
    rw [show session.world.events = [] from congrArg (List.map Prod.snd) hw.journal]
    exact .start
  refine ⟨fun stop hstop => ?_, fun source => ?_, fun x hx => ?_, ?_, fun target _ => ⟨?_, ?_⟩⟩
  · have hempty : StopsOnEmptyRange (Run.run env fuel c session) := Run.run_emptyRange
    have hleaves : Leaves _ _ (Run.run env fuel c session) :=
      Run.run_leaves fun o s store => hchecked.workload_draws env fuel o s hw
    rw [hstop] at hempty hleaves
    exact fun hreason => World.not_hasEmptyRange hleaves (hempty hreason)
  · have hlength : Payload.symbols.length = Payload.symbolCount := by simp [Payload.symbols]
    rw [hlength]
    exact source.below_lt (by decide)
  · have hgrows := (Ramp.runIssues_series set fuel c.rampSettings hw).holds hx
    obtain ⟨hone, hwithin⟩ := hgrows.within hchecked.batchSize
    exact ⟨hone, hgrows.population, hwithin⟩
  · exact (Ramp.run_issued hw).mono (fun _ h => h.attempted) fun _ _ h => h.attempted
  · exact World.poolIssues_within target c.batchSize target {} session.world
  · exact (World.growPool_issued target {} hstart).mono (fun _ h => h.attempted)
      fun _ _ h => h.attempted

/-- Payloads of the ramp have no length but 0, its cap leaves room for one client, and a pool of two
is connected one by one. -/
theorem accepted_safe_two :
    let env : Surroundings :=
      { resolver := { unknown := .fileNotFound }, source := SplitMix.source #[] 0 }
    ∃ c, merge { clients := some 2, batchSize := some 1 }
        { client := { handshake := false }
          ramp := { minLength := 0, maxLength := 0, maxClients := some 1 } } = .ok c ∧
      (∀ stop, Run.run env 40 c { world := {} } = .error stop → stop.reason ≠ .emptyRange) ∧
      (∀ x ∈ Ramp.runIssues (Run.setting env c) 40 c.rampSettings { world := {} }, x.Within 1) ∧
      (World.poolIssues (Run.setting env c) 40 2 1 2 {} {}).map (fun x => (x.first, x.size)) =
        [(0, 1), (1, 1)] ∧
      ∀ x ∈ World.poolIssues (Run.setting env c) 40 2 1 2 {} {}, x.Within 2 := by
  intro env
  let a : Arguments := { clients := some 2, batchSize := some 1 }
  let f : FileConfig :=
    { client := { handshake := false }
      ramp := { minLength := 0, maxLength := 0, maxClients := some 1 } }
  have hc : merge a f = .ok (overlay a f) := by decide
  have hfresh : ({ world := {} } : Session).world.Fresh := ⟨rfl, rfl, rfl, rfl, rfl, rfl, rfl, rfl⟩
  obtain ⟨hrun, -, hramp, -, hpool⟩ := accepted_safe hc env 40 ⟨".", "r"⟩ hfresh
  refine ⟨overlay a f, hc, hrun, fun x hx => ?_, by decide +kernel, ?_⟩
  · obtain ⟨-, -, hwithin⟩ := hramp x hx
    exact hwithin 1 rfl
  · exact (hpool 2 List.mem_cons_self).1

end Config

end EchoLoad
