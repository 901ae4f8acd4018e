import EchoLoad.Proofs.Census
import EchoLoad.Proofs.Interrupt
/-!
Batches of attempts, each as it is issued: the world then, the first id and the size. A journal falls
into the attempts of the batches issued and into events that are no attempts, so what had happened
when a batch was issued had happened before each of its attempts. Main statements: `Issued.before` and
`Series.barrier`.
-/

namespace EchoLoad

namespace Event

def attempted? : Event → Option Nat
  | attempt n => some n
  | _ => none

def isFailure (e : Event) : Bool := e.failedAttempt?.isSome || e.failedRound?.isSome

end Event

def World.attempted (w : World) : List Nat := w.events.reverse.filterMap Event.attempted?

/-- A batch of attempts, and the world in which it is issued. -/
structure Issue where
  world : World
  first : Nat
  size : Nat

def Issue.ids (x : Issue) : List Nat := List.range' x.first x.size

/-- These batches were issued, the first one first, and no other attempt was made. -/
inductive Issued : List Issue → List Event → Prop
  | start : Issued [] []
  | event {xs : List Issue} {es : List Event} {e : Event} : e.isAttempt = false →
      Issued xs es → Issued xs (e :: es)
  | issue {xs : List Issue} {x : Issue} : Issued xs x.world.events →
      Issued (xs ++ [x]) ((x.ids.map Event.attempt).reverse ++ x.world.events)

/-- Batches with `p`, each with the ids that follow those of the batch before it, from `n` on. -/
def Series (p : Issue → Prop) : Nat → List Issue → Prop
  | _, [] => True
  | n, x :: xs => x.first = n ∧ p x ∧ Series p (n + x.size) xs

/-- No attempt of a batch began before every member of the batches before it had this history behind
it. -/
def Barrier (xs : List Issue) (history : Nat → List Event) (w : World) : Prop :=
  ∀ n earlier, .attempt n :: earlier <:+ w.events → ∃ before x after,
    xs = before ++ x :: after ∧ n ∈ x.ids ∧
      ∀ y ∈ before, ∀ m ∈ y.ids, history m <:+ fiber Event.client m earlier

variable {set : Setting} {w w' : World} {xs : List Issue} {es : List Event}

/-! ## What the journal tells -/

theorem fiber_suffix {α : Type} {key : α → Nat} {l l' : List α} (n : Nat) (h : l <:+ l') :
    fiber key n l <:+ fiber key n l' := h.filter _

theorem World.length_attempted (w : World) : w.attempted.length = w.attempts := by
  have hattempt : ∀ e : Event, e.attempted?.isSome = e.isAttempt := fun e => by cases e <;> rfl
  rw [attempted, List.length_filterMap_eq_countP, List.countP_reverse, attempts]
  exact congrArg (fun p => w.events.countP p) (funext hattempt)

theorem World.isFailure_eq_false (hattempts : w.failedAttempts = []) (hrounds : w.failedRounds = [])
    {e : Event} (he : e ∈ w.events) : e.isFailure = false := by
  have he := List.mem_reverse.2 he
  have hattempt := List.filterMap_eq_nil_iff.1 hattempts e he
  have hround := List.filterMap_eq_nil_iff.1 hrounds e he
  rw [Event.isFailure, hattempt, hround]
  rfl

/-! ## What waiting adds to the journal -/

namespace World

theorem WaitStep.events (h : WaitStep set w w') : ∃ es, w'.events = es ++ w.events ∧
    ∀ e ∈ es, e.isAttempt = false ∧ e.isClosing = false := by
  have hnothing : ∀ {w' : World}, w'.journal = w.journal → ∃ es, w'.events = es ++ w.events ∧
      ∀ e ∈ es, e.isAttempt = false ∧ e.isClosing = false := by
    intro w' h
    exact ⟨[], congrArg (List.map Prod.snd) h, by simp⟩
  cases h with
  | internalStep hs =>
    cases hs with
    | signal hsignal =>
      rw [interrupted_eq hsignal]
      exact hnothing rfl
    | arrived | declined | echoed | broken | start =>
      exact ⟨[_], rfl, by simp [Event.isAttempt, Event.isClosing]⟩
    | retire => exact hnothing rfl
  | pass | failures | join | cancel | spawn => exact hnothing rfl

theorem WaitStep.active (h : WaitStep set w w') (hactive : w'.active = true) : w.active = true := by
  cases h with
  | internalStep hs =>
    cases hs with
    | signal hsignal =>
      rw [interrupted_eq hsignal] at hactive
      exact (Bool.and_eq_true_iff.1 hactive).1
    | arrived | declined | echoed | broken | start | retire => exact hactive
  | cancel => exact absurd hactive Bool.noConfusion
  | pass | failures | join | spawn => exact hactive

theorem lasting_of_events {P : List Event → Prop} (hP : ∀ es e, P es → P (e :: es)) :
    Lasting set fun w => P w.events := by
  intro w w' hw h
  obtain ⟨es, hes, -⟩ := h.events
  rw [hes]
  clear hes
  induction es with
  | nil => exact hw
  | cons e es ih => exact hP _ _ ih

theorem dialBatch_events (set : Setting) (w : World) (first size : Nat) :
    (w.dialBatch set first size).events =
      ((List.range' first size).map Event.attempt).reverse ++ w.events := by
  induction size generalizing first w with
  | zero => rfl
  | succ size ih =>
    rw [List.range'_succ, List.map_cons, List.reverse_cons, List.append_assoc]
    exact ih (w.dial set first) (first + 1)

end World

/-! ## Batches issued -/

namespace Issued

theorem append (hes : ∀ e ∈ es, e.isAttempt = false) (h : Issued xs w.events) :
    Issued xs (es ++ w.events) := by
  induction es with
  | nil => exact h
  | cons e es ih =>
    exact .event (hes e List.mem_cons_self) (ih fun e he => hes e (List.mem_cons_of_mem _ he))

theorem lasting (set : Setting) (xs : List Issue) : World.Lasting set fun w => Issued xs w.events := by
  intro w w' hw h
  obtain ⟨es, hes, hnone⟩ := h.events
  rw [hes]
  exact hw.append fun e he => (hnone e he).1

theorem close (h : Issued xs w.events) (c : Client) : Issued xs (w.close c).events := by
  unfold World.close
  split
  · exact .event rfl h
  · exact h

theorem dialBatch (set : Setting) (first size : Nat) (h : Issued xs w.events) :
    Issued (xs ++ [⟨w, first, size⟩]) (w.dialBatch set first size).events := by
  rw [World.dialBatch_events]
  exact .issue h

/-- **No other attempt was made** than those of the batches issued. -/
theorem attempted (h : Issued xs w.events) : w.attempted = xs.flatMap Issue.ids := by
  rw [World.attempted]
  generalize w.events = es at h
  induction h with
  | start => rfl
  | @event xs es e he _ ih =>
    have hnone : e.attempted? = none := by
      cases e with
      | attempt => cases he
      | _ => rfl
    rw [List.reverse_cons, List.filterMap_append, ih, List.filterMap_cons, hnone]
    exact List.append_nil _
  | @issue xs x _ ih =>
    have hids : (x.ids.map Event.attempt).filterMap Event.attempted? = x.ids := by
      rw [List.filterMap_map]
      exact List.filterMap_some
    rw [List.reverse_append, List.reverse_reverse, List.filterMap_append, ih, hids,
      List.flatMap_append, List.flatMap_singleton]

/-- **What came before an attempt**: all that had happened when its batch was issued, and other
attempts of this batch. -/
theorem before (h : Issued xs es) {n : Nat} {earlier : List Event}
    (hn : .attempt n :: earlier <:+ es) :
    ∃ before x after, xs = before ++ x :: after ∧ n ∈ x.ids ∧
      ∃ begun, earlier = begun ++ x.world.events ∧ ∀ e ∈ begun, ∃ m ∈ x.ids, e = .attempt m := by
  induction h with
  | start => exact absurd (List.suffix_nil.1 hn) (List.cons_ne_nil _ _)
  | event he _ ih =>
    rcases List.suffix_cons_iff.1 hn with heq | hn
    · rw [← (List.cons.inj heq).1] at he
      exact absurd he Bool.noConfusion
    · exact ih hn
  | @issue xs x _ ih =>
    obtain ⟨later, heq⟩ := hn
    rcases List.append_eq_append_iff.1 heq with ⟨more, hmore, htail⟩ | ⟨more, hlater, htail⟩
    · cases more with
      | nil =>
        obtain ⟨before, y, after, rfl, hy⟩ := ih ⟨[], htail⟩
        exact ⟨before, y, after ++ [x], by simp, hy⟩
      | cons e more =>
        obtain ⟨rfl, rfl⟩ := List.cons.inj htail
        have hmem : ∀ e ∈ .attempt n :: more, ∃ m ∈ x.ids, e = Event.attempt m := by
          intro e he
          have he : e ∈ (x.ids.map Event.attempt).reverse := hmore ▸ List.mem_append_right _ he
          obtain ⟨m, hm, rfl⟩ := List.mem_map.1 (List.mem_reverse.1 he)
          exact ⟨m, hm, rfl⟩
        obtain ⟨m, hm, heq⟩ := hmem _ List.mem_cons_self
        cases heq
        exact ⟨xs, x, [], rfl, hm, more, rfl, fun e he => hmem e (List.mem_cons_of_mem _ he)⟩
    · obtain ⟨before, y, after, rfl, hy⟩ := ih ⟨more, htail.symm⟩
      exact ⟨before, y, after ++ [x], by simp, hy⟩

end Issued

/-! ## Batches in a series -/

namespace Series

variable {p : Issue → Prop} {n : Nat} {x : Issue}

theorem holds (h : Series p n xs) (hx : x ∈ xs) : p x := by
  induction xs generalizing n with
  | nil => cases hx
  | cons y xs ih =>
    rcases List.mem_cons.1 hx with rfl | hx
    · exact h.2.1
    · exact ih h.2.2 hx

/-- **The ids of a series** are those from `n` on, each used once. -/
theorem ids (h : Series p n xs) :
    xs.flatMap Issue.ids = List.range' n (xs.map Issue.size).sum := by
  induction xs generalizing n with
  | nil => rfl
  | cons x xs ih =>
    obtain ⟨rfl, -, hrest⟩ := h
    rw [List.flatMap_cons, ih hrest, List.map_cons, List.sum_cons, Issue.ids,
      List.range'_append_1]

theorem lt {before after : List Issue} (h : Series p n (before ++ x :: after)) {y : Issue}
    (hy : y ∈ before) {m : Nat} (hm : m ∈ y.ids) : m < x.first := by
  have hle : ∀ {before : List Issue} {n : Nat}, Series p n (before ++ x :: after) → n ≤ x.first := by
    intro before
    induction before with
    | nil => exact fun h => Nat.le_of_eq h.1.symm
    | cons z before ih => exact fun h => Nat.le_trans (Nat.le_add_right _ _) (ih h.2.2)
  induction before generalizing n with
  | nil => cases hy
  | cons z before ih =>
    rcases List.mem_cons.1 hy with rfl | hy
    · have hbound := hle h.2.2
      have hm := List.mem_range'_1.1 hm
      have := h.1
      omega
    · exact ih h.2.2 hy

/-- **A barrier between batches.** If each batch was issued when everyone before it had this history
then the history came before its attempts. -/
theorem barrier {history : Nat → List Event} (h : Series p n xs) (hissued : Issued xs w.events)
    (hp : ∀ x, p x → ∀ m < x.first, history m <:+ fiber Event.client m x.world.events) :
    Barrier xs history w := by
  intro n earlier hn
  obtain ⟨before, x, after, rfl, hx, begun, rfl, -⟩ := hissued.before hn
  refine ⟨before, x, after, rfl, hx, fun y hy m hm => ?_⟩
  have hold := hp x (h.holds (by simp)) m (h.lt hy hm)
  exact hold.trans (fiber_suffix m (List.suffix_append _ _))

end Series

end EchoLoad
