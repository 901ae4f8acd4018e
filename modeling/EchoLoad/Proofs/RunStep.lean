import EchoLoad.Proofs.Pool
/-!
All that can happen to a world, also what its controller does. No controller dials or sets the run
flag while the stop latch is set, and the clock does not pass an interrupt that is to come. Main
statement: `attend_leaves`, for any wait, with a result or without.
-/

namespace EchoLoad

/-- A computation leaves a world with `P` if it stops, and a result with `Q` otherwise. -/
def Leaves {α : Type} (P : World → Prop) (Q : α → Prop) : Except Stop α → Prop
  | .ok a => Q a
  | .error stop => P stop.world

namespace Leaves

variable {α β : Type} {P : World → Prop} {Q : α → Prop} {R : β → Prop} {x : Except Stop α}

theorem ok {a : α} (hx : Leaves P Q x) (h : x = .ok a) : Q a := by
  rw [h] at hx
  exact hx

theorem mono {P' : World → Prop} {Q' : α → Prop} (hx : Leaves P Q x) (hp : ∀ w, P w → P' w)
    (hq : ∀ a, x = .ok a → Q a → Q' a) : Leaves P' Q' x := by
  cases x with
  | error stop => exact hp _ hx
  | ok a => exact hq a rfl hx

theorem map {f : α → β} (hx : Leaves P Q x) (hf : ∀ a, Q a → R (f a)) :
    Leaves P R (x.map f) := by
  cases x with
  | error stop => exact hx
  | ok a => exact hf a hx

theorem bind {f : α → Except Stop β} (hx : Leaves P Q x) (hf : ∀ a, Q a → Leaves P R (f a)) :
    Leaves P R (x >>= f) := by
  cases x with
  | error stop => exact hx
  | ok a => exact hf a hx

end Leaves

namespace World

/-- One thing that happens to a world. -/
inductive RunStep (set : Setting) (w : World) : World → Prop
  | pass {t : Duration} :
      w.now ≤ t → (∀ x ∈ w.signals.head?, t ≤ max w.now x.1) → RunStep set w (w.tick t)
  | internalStep {w' : World} : InternalStep set w w' → RunStep set w w'
  /-- Failures are received or given up. -/
  | failures (failures : List Failure) : RunStep set w { w with failures }
  | join (i : Nat) : RunStep set w { w with workers := w.workers.eraseIdx i }
  | cancel : RunStep set w w.cancel
  /-- The run flag is set again, unless the stop latch is. -/
  | restart : RunStep set w { w with active := !w.stopped }
  | dial (id : Nat) : w.stopped = false → RunStep set w (w.dial set id)
  | handOver : RunStep set w w.handOver.1
  | spawn (plan : EchoPlan) (c : Client) : RunStep set w (w.spawn set plan c)
  | close (c : Client) : RunStep set w (w.close c)
  | release (clients : List Client) : RunStep set w (w.release clients)
  /-- Samples are taken off the sink. -/
  | sink (sink : Sink) : RunStep set w { w with sink }

abbrev RunSteps (set : Setting) : World → World → Prop := Relation.ReflTransGen (RunStep set)

/-- One thing that happens while a controller waits, also what it does when woken. -/
inductive WaitStep (set : Setting) (w : World) : World → Prop
  | pass {t : Duration} :
      w.now ≤ t → (∀ x ∈ w.signals.head?, t ≤ max w.now x.1) → WaitStep set w (w.tick t)
  | internalStep {w' : World} : InternalStep set w w' → WaitStep set w w'
  | failures (failures : List Failure) : WaitStep set w { w with failures }
  | join (i : Nat) : WaitStep set w { w with workers := w.workers.eraseIdx i }
  | cancel : WaitStep set w w.cancel
  | spawn (plan : EchoPlan) (c : Client) : WaitStep set w (w.spawn set plan c)

/-- Whatever happens keeps `P`. -/
def Kept (set : Setting) (P : World → Prop) : Prop := ∀ w w', P w → RunStep set w w' → P w'

/-- Waiting keeps `P`. -/
def Lasting (set : Setting) (P : World → Prop) : Prop := ∀ w w', P w → WaitStep set w w' → P w'

theorem RunSteps.kept (set : Setting) (w : World) : Kept set (RunSteps set w) := fun _ _ => .tail

variable {set : Setting} {q : Waiting} {P : World → Prop} {w w' : World}

theorem WaitStep.runStep (h : WaitStep set w w') : RunStep set w w' := by
  cases h with
  | pass hle hhead => exact .pass hle hhead
  | internalStep hs => exact .internalStep hs
  | failures failures => exact .failures failures
  | join i => exact .join i
  | cancel => exact .cancel
  | spawn plan c => exact .spawn plan c

theorem Kept.lasting (hP : Kept set P) : Lasting set P := fun w w' hw h => hP w w' hw h.runStep

/-! ## Plans -/

/-- Waiting keeps `P`, if loops are started with plans that are allowed. -/
structure LastingWith (set : Setting) (plans : EchoPlan → Prop) (P : World → Prop) : Prop where
  waitStep : ∀ w w', P w → WaitStep set w w' → w'.workers.length ≤ w.workers.length → P w'
  spawn : ∀ w plan c, plans plan → P w → P (w.spawn set plan c)

/-- Whatever happens keeps `P`, if loops are started with plans that are allowed. -/
structure KeptWith (set : Setting) (plans : EchoPlan → Prop) (P : World → Prop) : Prop where
  runStep : ∀ w w', P w → RunStep set w w' → w'.workers.length ≤ w.workers.length → P w'
  spawn : ∀ w plan c, plans plan → P w → P (w.spawn set plan c)

variable {plans : EchoPlan → Prop}

theorem Lasting.anyPlan (hP : Lasting set P) : LastingWith set (fun _ => True) P :=
  ⟨fun w w' hw h _ => hP w w' hw h, fun w plan c _ hw => hP w _ hw (.spawn plan c)⟩

theorem Kept.anyPlan (hP : Kept set P) : KeptWith set (fun _ => True) P :=
  ⟨fun w w' hw h _ => hP w w' hw h, fun w plan c _ hw => hP w _ hw (.spawn plan c)⟩

theorem KeptWith.lasting (hP : KeptWith set plans P) : LastingWith set plans P :=
  ⟨fun w w' hw h => hP.runStep w w' hw h.runStep, hP.spawn⟩

theorem KeptWith.close (hP : KeptWith set plans P) (w : World) (c : Client) (hw : P w) :
    P (w.close c) := by
  refine hP.runStep w _ hw (.close c) ?_
  unfold World.close
  split <;> exact Nat.le_refl _

theorem KeptWith.sink (hP : KeptWith set plans P) (w : World) (sink : Sink) (hw : P w) :
    P { w with sink } :=
  hP.runStep w _ hw (.sink sink) (Nat.le_refl _)

theorem InternalStep.workers_length (hs : InternalStep set w w') :
    w'.workers.length = w.workers.length := by
  cases hs with
  | signal hsignal => rw [interrupted_eq hsignal]
  | arrived | declined => rfl
  | _ => exact List.length_set ..

namespace LastingWith

theorem internalStep (hP : LastingWith set plans P) (hw : P w) (hs : InternalStep set w w') : P w' :=
  hP.waitStep w w' hw (.internalStep hs) hs.workers_length.le

theorem failures (hP : LastingWith set plans P) (hw : P w) (failures : List Failure) :
    P { w with failures } :=
  hP.waitStep w _ hw (.failures failures) (Nat.le_refl _)

theorem join (hP : LastingWith set plans P) (hw : P w) (i : Nat) :
    P { w with workers := w.workers.eraseIdx i } :=
  hP.waitStep w _ hw (.join i) (List.length_eraseIdx_le ..)

theorem cancel (hP : LastingWith set plans P) (hw : P w) : P w.cancel :=
  hP.waitStep w _ hw .cancel (Nat.le_refl _)

end LastingWith

/-! ## One step -/

/-- What is chosen comes no later than anything else that can happen. -/
theorem choose_le {t : Duration} {m : Move} (h : w.choose set q = some (t, m))
    {t₁ : Duration} {m₁ : Move} (hm : (t₁, m₁) ∈ w.moves q) : t ≤ max w.now t₁ := by
  unfold choose at h
  dsimp only at h
  split at h
  · cases h
  · next t₀ hearliest =>
    obtain ⟨⟨_, _⟩, -, he⟩ := Option.map_eq_some_iff.1 h
    cases he
    exact (List.min?_eq_some_iff.1 hearliest).2 _ (List.mem_map.2 ⟨(t₁, m₁), hm, rfl⟩)

theorem choose_tick {t : Duration} {m : Move} (h : w.choose set q = some (t, m)) :
    WaitStep set w (w.tick t) := by
  refine .pass (choose_due h).1 fun x hx => ?_
  obtain ⟨rest, hsignals⟩ := List.head?_eq_some_iff.1 hx
  have hmem : (x.1, Move.signal) ∈ w.moves q := by simp [moves, signalMoves, hsignals]
  exact choose_le h hmem

theorem proceed_leaves (hP : LastingWith set plans P) {i : Nat} {k : Worker}
    (hk : w.workers[i]? = some k)
    (hs : k.stage = .ready) (hw : P w) : Leaves P P (w.proceed set i k) := by
  cases h : w.proceed set i k with
  | ok w' => exact hP.internalStep hw (proceed_internalStep hk hs h)
  | error stop =>
    unfold proceed at h
    split at h
    · split at h <;> cases h
      exact hw
    · cases h

theorem work_leaves (hP : LastingWith set plans P) {i : Nat} {k : Worker} {t : Duration}
    (hk : w.workers[i]? = some k)
    (hs : k.stage = .ready ∨ ∃ r, k.stage = .busy (some (t, r))) (ht : t ≤ w.now) (hw : P w) :
    Leaves P P (w.work set i) := by
  rcases hs with hs | ⟨e | latency, hs⟩
  · simp only [work, hk, hs]
    exact proceed_leaves hP hk hs hw
  · simp only [work, hk, hs]
    exact hP.internalStep hw (.broken hk hs ht)
  · simp only [work, hk, hs]
    exact proceed_leaves hP (echoed_getElem? hk) rfl (hP.internalStep hw (.echoed hk hs ht))

theorem apply_leaves (hP : LastingWith set plans P) {t t' : Duration} {m : Move} (ht : t' ≤ t)
    (hd : Due q w t' m)
    (hw : P (w.tick t)) : Leaves P (fun x => P x.1) ((w.tick t).apply set q m) := by
  cases m with
  | signal =>
    obtain ⟨s, rest, hs⟩ := hd
    exact hP.internalStep hw (.signal (w := w.tick t) hs ht)
  | dial i =>
    obtain ⟨c, r, hd⟩ := hd
    exact hP.internalStep hw (resolve_internalStep (w := w.tick t) hd ht)
  | work i =>
    obtain ⟨k, hk, hs⟩ := hd
    exact (work_leaves (w := w.tick t) hP hk hs ht hw).map fun _ h => h
  | join i =>
    simp only [apply]
    split
    · exact hP.join hw i
    · exact hw
  | mail =>
    simp only [apply]
    split
    · exact hP.failures hw _
    · exact hw
  | alarm | ended => exact hw

theorem step_leaves (hP : LastingWith set plans P) (hw : P w) :
    Leaves P (fun x => P x.1) (w.step set q) := by
  unfold step
  split
  · exact hw
  · next t m hc =>
    obtain ⟨-, t', ht, hd⟩ := choose_due hc
    exact apply_leaves hP ht hd (hP.waitStep _ _ hw (choose_tick hc) (Nat.le_refl _))

/-! ## A whole wait -/

/-- **A wait keeps what waiting keeps**, whether or not it comes to an end. -/
theorem attend_leaves (hP : LastingWith set plans P) {σ ρ : Type} {watch : Watch σ ρ}
    (hreact : ∀ s wakeup w, P w → P (watch.react s wakeup w).1) {fuel : Nat} {s : σ} (hw : P w) :
    Leaves P (fun x => P x.1) (w.attend set watch fuel s) := by
  induction fuel generalizing s w with
  | zero => exact hw
  | succ fuel ih =>
    have hstep := step_leaves hP (q := watch.waiting s) hw
    simp only [attend]
    split
    · next stop he =>
      rw [he] at hstep
      exact hstep
    · next w1 he => exact ih (hstep.ok he)
    · next w1 wakeup he =>
      have hwakeup := hreact s wakeup w1 (hstep.ok he)
      split
      · next w2 s' hr =>
        rw [hr] at hwakeup
        exact ih hwakeup
      · next w2 r hr =>
        rw [hr] at hwakeup
        exact hwakeup

variable {fuel : Nat}

theorem sleep_leaves (hP : LastingWith set plans P) {d : Duration} (hw : P w) :
    Leaves P P (w.sleep set fuel d) := by
  refine (attend_leaves hP (fun s wakeup w hw => ?_) hw).map fun _ h => h
  simp only [sleeping]
  split <;> exact hw

theorem pause_leaves (hP : LastingWith set plans P) {d : Duration} (hw : P w) :
    Leaves P (fun x => P x.1) (w.pause set fuel d) := by
  refine attend_leaves hP (fun s wakeup w hw => ?_) hw
  simp only [pausing]
  split <;> exact hw

theorem drain_leaves (hP : LastingWith set plans P) (hw : P w) :
    Leaves P (fun x => P x.1) (w.drain set fuel) := by
  refine attend_leaves hP (fun s wakeup w hw => ?_) hw
  simp only [draining]
  split <;> exact hw

theorem joinAll_leaves (hP : LastingWith set plans P) {limit : Option Duration} (hw : P w) :
    Leaves P (fun x => P x.1) (w.joinAll set fuel limit) := by
  have hwait : Leaves P (fun x => P x.1)
      (w.attend set joining fuel { deadline := limit.map (w.now + ·) }) := by
    refine attend_leaves hP (fun s wakeup w hw => ?_) hw
    simp only [joining]
    split
    · exact hP.cancel hw
    · exact hP.cancel hw
    · exact hw
    · exact hw
  unfold joinAll
  split
  · next stop he =>
    rw [he] at hwait
    exact hwait
  · next w1 c he =>
    have hw1 := hwait.ok he
    dsimp only
    split
    · exact hP.failures hw1 _
    · exact hw1

/-! ## Batches -/

theorem dialBatch_keeps (hP : KeptWith set plans P) (first size : Nat)
    (hstopped : w.stopped = false)
    (hw : P w) : P (w.dialBatch set first size) := by
  have hdial : ∀ w id, P w ∧ w.stopped = false → P (dial set w id) ∧ w.stopped = false :=
    fun w id h => ⟨hP.runStep w _ h.1 (.dial id h.2) (Nat.le_refl _), h.2⟩
  exact (foldl_keeps (P := fun w => P w ∧ w.stopped = false) hdial _ ⟨hw, hstopped⟩).1

theorem spawnAll_keeps (hP : LastingWith set plans P) {plan : EchoPlan} (hplan : plans plan)
    (clients : List Client) (hw : P w) : P (clients.foldl (spawn set plan) w) :=
  foldl_keeps (fun w c h => hP.spawn w plan c hplan h) clients hw

theorem closeAll_leaves (hP : LastingWith set plans P) (hclose : ∀ w c, P w → P (w.close c))
    {batch : Nat}
    {pause : Duration} {clients : List Client} (hw : P w) :
    Leaves P (fun x => P x.1) (w.closeAll set fuel batch pause clients) := by
  induction hn : clients.length using Nat.strong_induction_on generalizing clients w with
  | _ len ih =>
    unfold closeAll
    split
    · exact hw
    · next hne =>
      have hbatch := closeBatch_keeps hclose (clients.take (max batch 1)) hw
      have hlen : (clients.drop (max batch 1)).length < len := hn ▸ drop_batch_lt batch hne
      have hpause : Leaves P P (if clients.drop (max batch 1) = [] ∨ pause = 0
          then .ok (w.closeBatch (clients.take (max batch 1))).1
          else (w.closeBatch (clients.take (max batch 1))).1.sleep set fuel pause) := by
        split
        · exact hbatch
        · exact sleep_leaves hP hbatch
      dsimp only
      split
      · next stop he =>
        rw [he] at hpause
        exact hpause
      · next w1 he => exact (ih _ hlen (hpause.ok he) rfl).map fun _ h => h

/-- While a batch connects, only the beginning of its attempts is not a wait. -/
theorem connectBatch_waits (hP : LastingWith set plans P) {first size : Nat} (fuel : Nat)
    (watchful : Bool)
    (hw : P (w.dialBatch set first size)) :
    Leaves P (fun x => ∃ w', P w' ∧ x.1 = w'.handOver.1 ∧ x.2.1 = w'.handOver.2)
      (w.connectBatch set fuel first size watchful) := by
  refine (attend_leaves hP (fun s wakeup w hw => ?_) hw).map fun x hx => ⟨x.1, hx, rfl, rfl⟩
  simp only [connecting]
  split
  · exact hw
  · exact hP.cancel hw
  · exact hw

variable {C : Client → Prop}

/-- A batch hands over clients as they were when their attempts had ended. -/
theorem connectBatch_leaves (hP : KeptWith set plans P) (hC : ∀ w, P w → ∀ c ∈ w.connected, C c)
    (fuel first size : Nat) (watchful : Bool) (hstopped : w.stopped = false) (hw : P w) :
    Leaves P (fun x => P x.1 ∧ ∀ c ∈ x.2.1.connected, C c)
      (w.connectBatch set fuel first size watchful) := by
  have hdialed := dialBatch_keeps hP first size hstopped hw
  refine (connectBatch_waits hP.lasting fuel watchful hdialed).mono (fun _ h => h) ?_
  rintro ⟨w1, out, seen⟩ - ⟨w', hw', rfl, rfl⟩
  constructor
  · exact hP.runStep _ _ hw' .handOver (Nat.le_refl _)
  · intro c hc
    exact hC _ hw' c ((List.mergeSort_perm ..).mem_iff.1 hc)

theorem growPool_leaves (hP : KeptWith set plans P) (hC : ∀ w, P w → ∀ c ∈ w.connected, C c)
    {target batch batches : Nat} {pool : PoolOutcome} (hpool : ∀ c ∈ pool.clients, C c) (hw : P w) :
    Leaves P (fun x => P x.1 ∧ ∀ c ∈ x.2.clients, C c)
      (growPool set fuel target batch batches pool w) := by
  induction batches generalizing pool w with
  | zero => exact ⟨hw, hpool⟩
  | succ batches ih =>
    unfold growPool
    dsimp only
    split
    · exact ⟨hw, hpool⟩
    · split
      · exact ⟨hw, hpool⟩
      · next hstopped =>
        have hbatch := connectBatch_leaves hP hC fuel pool.clients.length
          (min (max batch 1) (target - pool.clients.length)) false (Bool.eq_false_iff.2 hstopped) hw
        split
        · next stop he =>
          rw [he] at hbatch
          exact hbatch
        · next w1 out seen he =>
          obtain ⟨hw1, hout⟩ := hbatch.ok he
          have hpool' : ∀ c ∈ pool.clients ++ out.connected, C c := by
            intro c hc
            rcases List.mem_append.1 hc with hc | hc
            · exact hpool c hc
            · exact hout c hc
          split
          · exact ⟨hw1, hpool'⟩
          · exact ih hpool' hw1

theorem growPool_waits (hP : LastingWith set plans P) (hover : ∀ w, P w → P w.handOver.1)
    (hdials : ∀ w first size, P w → P (w.dialBatch set first size)) {target batch batches : Nat}
    {pool : PoolOutcome} (hw : P w) :
    Leaves P (fun x => P x.1) (growPool set fuel target batch batches pool w) := by
  induction batches generalizing pool w with
  | zero => exact hw
  | succ batches ih =>
    unfold growPool
    dsimp only
    split
    · exact hw
    · split
      · exact hw
      · have hbatch := connectBatch_waits hP fuel false
          (hdials w pool.clients.length (min (max batch 1) (target - pool.clients.length)) hw)
        split
        · next stop he =>
          rw [he] at hbatch
          exact hbatch
        · next w1 out seen he =>
          obtain ⟨w', hw', rfl, -⟩ := hbatch.ok he
          split
          · exact hover w' hw'
          · exact ih (hover w' hw')

end World

end EchoLoad
