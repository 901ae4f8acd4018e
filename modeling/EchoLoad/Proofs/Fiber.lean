import Mathlib.Algebra.BigOperators.Group.Finset.Basic
import Mathlib.Algebra.BigOperators.Group.Finset.Piecewise
import Mathlib.Algebra.GroupWithZero.Nat
import Mathlib.Data.List.Perm.Basic
/-!
The fiber of a list over a number: the members that carry that number as their key. Connections,
clients, attempts, loops and events all carry the id of one client, so what concerns one client
is a fiber of each of these lists, and a change of one member shows in one fiber only. What else it
does to the list and to sums over it stands here too.
-/

namespace EchoLoad

variable {α : Type} {key : α → Nat} {l : List α} {i m : Nat} {x y : α}

/-- The members of a list that carry the key `n`. -/
def fiber (key : α → Nat) (n : Nat) (l : List α) : List α := l.filter fun x => key x = n

@[simp] theorem fiber_nil (n : Nat) : fiber key n [] = [] := rfl

@[simp] theorem fiber_append (n : Nat) (l l' : List α) :
    fiber key n (l ++ l') = fiber key n l ++ fiber key n l' := List.filter_append ..

theorem fiber_cons (n : Nat) (x : α) (l : List α) :
    fiber key n (x :: l) = if key x = n then x :: fiber key n l else fiber key n l := by
  by_cases h : key x = n <;> simp [fiber, h]

@[simp] theorem fiber_cons_self (key : α → Nat) (x : α) (l : List α) :
    fiber key (key x) (x :: l) = x :: fiber key (key x) l := by simp [fiber_cons]

theorem fiber_cons_ne (key : α → Nat) (h : m ≠ key x) (l : List α) :
    fiber key m (x :: l) = fiber key m l := by
  simp [fiber_cons, h.symm]

theorem mem_fiber {n : Nat} : x ∈ fiber key n l ↔ x ∈ l ∧ key x = n := by simp [fiber]

theorem mem_fiber_self (key : α → Nat) (h : x ∈ l) : x ∈ fiber key (key x) l :=
  mem_fiber.2 ⟨h, rfl⟩

theorem fiber_perm {l l' : List α} (h : l.Perm l') (n : Nat) :
    (fiber key n l).Perm (fiber key n l') := h.filter _

/-! ## One member is replaced or taken out -/

theorem split_at (h : l[i]? = some x) :
    l = l.take i ++ x :: l.drop (i + 1) := by
  obtain ⟨hi, rfl⟩ := List.getElem?_eq_some_iff.1 h
  simp

private theorem split_fiber (h : l[i]? = some x) (hx : fiber key (key x) l = [x]) :
    fiber key (key x) (l.take i) = [] ∧ fiber key (key x) (l.drop (i + 1)) = [] := by
  rw [split_at h, fiber_append, fiber_cons_self] at hx
  have hlen := congrArg List.length hx
  simp only [List.length_append, List.length_cons, List.length_nil] at hlen
  exact ⟨List.length_eq_zero_iff.1 (by omega), List.length_eq_zero_iff.1 (by omega)⟩

theorem fiber_set_self (h : l[i]? = some x) (hx : fiber key (key x) l = [x])
    (hy : key y = key x) : fiber key (key x) (l.set i y) = [y] := by
  obtain ⟨hi, -⟩ := List.getElem?_eq_some_iff.1 h
  obtain ⟨h1, h2⟩ := split_fiber h hx
  rw [List.set_eq_take_append_cons_drop, if_pos hi, fiber_append, h1, fiber_cons, if_pos hy, h2]
  rfl

theorem fiber_set_ne (h : l[i]? = some x) (hy : key y = key x) (hm : m ≠ key x) :
    fiber key m (l.set i y) = fiber key m l := by
  obtain ⟨hi, -⟩ := List.getElem?_eq_some_iff.1 h
  rw [List.set_eq_take_append_cons_drop, if_pos hi, fiber_append, fiber_cons_ne key (hy ▸ hm)]
  conv_rhs => rw [split_at h, fiber_append, fiber_cons_ne key hm]

theorem fiber_eraseIdx_self (h : l[i]? = some x) (hx : fiber key (key x) l = [x]) :
    fiber key (key x) (l.eraseIdx i) = [] := by
  obtain ⟨h1, h2⟩ := split_fiber h hx
  rw [List.eraseIdx_eq_take_drop_succ, fiber_append, h1, h2]
  rfl

theorem fiber_eraseIdx_ne (h : l[i]? = some x) (hm : m ≠ key x) :
    fiber key m (l.eraseIdx i) = fiber key m l := by
  rw [List.eraseIdx_eq_take_drop_succ, fiber_append]
  conv_rhs => rw [split_at h, fiber_append, fiber_cons_ne key hm]

/-! ## Counting -/

/-- Members can be counted fiber by fiber. -/
theorem countP_eq_sum_fibers (p : α → Bool) (N : Nat) (h : ∀ x ∈ l, key x < N) :
    l.countP p = ∑ n ∈ Finset.range N, (fiber key n l).countP p := by
  induction l with
  | nil => simp
  | cons x l ih =>
    have hx : key x ∈ Finset.range N := Finset.mem_range.2 (h x (by simp))
    have hc : ∀ n, (fiber key n (x :: l)).countP p =
        (fiber key n l).countP p + if n = key x then (if p x then 1 else 0) else 0 := by
      intro n
      by_cases hn : n = key x
      · subst hn; simp [List.countP_cons]
      · simp [fiber_cons_ne key hn, hn]
    rw [List.countP_cons, ih fun y hy => h y (by simp [hy])]
    simp only [hc, Finset.sum_add_distrib, Finset.sum_ite_eq', hx, if_true]

theorem countP_eq_sum_getElem? (p : α → Bool) (l : List α) :
    l.countP p = ∑ n ∈ Finset.range l.length, if l[n]?.any p then 1 else 0 := by
  induction l with
  | nil => simp
  | cons x l ih =>
    rw [List.countP_cons, ih, List.length_cons, Finset.sum_range_succ']
    simp

theorem countP_range_eq_sum (p : Nat → Bool) (N : Nat) :
    (List.range N).countP p = ∑ n ∈ Finset.range N, if p n then 1 else 0 := by
  rw [countP_eq_sum_getElem?, List.length_range]
  refine Finset.sum_congr rfl fun n hn => ?_
  simp [List.getElem?_range (Finset.mem_range.1 hn)]

/-! ## A list that changes in one place -/

theorem forall_mem_set {p : α → Prop} (h : ∀ x ∈ l, p x) (hy : p y) : ∀ x ∈ l.set i y, p x := by
  intro x hx
  rcases List.mem_or_eq_of_mem_set hx with hx | rfl
  · exact h x hx
  · exact hy

theorem sum_map_eraseIdx {f : α → Nat} (h : l[i]? = some x) :
    (l.map f).sum = f x + ((l.eraseIdx i).map f).sum := by
  obtain ⟨hi, rfl⟩ := List.getElem?_eq_some_iff.1 h
  rw [← ((List.getElem_cons_eraseIdx_perm hi).map f).sum_eq, List.map_cons, List.sum_cons]

theorem sum_map_set {f : α → Nat} (h : l[i]? = some x) (y : α) :
    ((l.set i y).map f).sum = f y + ((l.eraseIdx i).map f).sum := by
  obtain ⟨hi, -⟩ := List.getElem?_eq_some_iff.1 h
  rw [((List.set_perm_cons_eraseIdx hi y).map f).sum_eq, List.map_cons, List.sum_cons]

theorem map_set_same {β : Type} {f : α → β} (h : l[i]? = some x) (hf : f y = f x) :
    (l.set i y).map f = l.map f := by
  obtain ⟨hi, rfl⟩ := List.getElem?_eq_some_iff.1 h
  rw [List.map_set, hf, ← List.getElem_map f (h := by simpa using hi), List.set_getElem_self]

theorem countP_eraseIdx_add {p : α → Bool} (h : l[i]? = some x) :
    (l.eraseIdx i).countP p + (p x).toNat = l.countP p := by
  obtain ⟨hi, rfl⟩ := List.getElem?_eq_some_iff.1 h
  rw [← (List.getElem_cons_eraseIdx_perm hi).countP_eq, List.countP_cons]
  cases p l[i] <;> rfl

theorem countP_set_add {p : α → Bool} (h : l[i]? = some x) (y : α) :
    (l.set i y).countP p + (p x).toNat = l.countP p + (p y).toNat := by
  obtain ⟨hi, rfl⟩ := List.getElem?_eq_some_iff.1 h
  rw [List.countP_set hi]
  cases hx : p l[i] with
  | false => cases p y <;> rfl
  | true =>
    have hpos : 0 < l.countP p := List.countP_pos_iff.2 ⟨l[i], List.getElem_mem hi, hx⟩
    rw [if_pos rfl, Bool.toNat_true]
    cases p y with
    | false => exact Nat.sub_add_cancel hpos
    | true => exact congrArg (· + 1) (Nat.sub_add_cancel hpos)

theorem sum_map_modify {f : α → Nat} (h : l[i]? = some x) (y : α) :
    ((l.modify i fun _ => y).map f).sum + f x = (l.map f).sum + f y := by
  have hset : l.modify i (fun _ => y) = l.set i y := by
    rw [List.modify_eq_set_getElem?]
    simp [h]
  rw [hset, sum_map_set h, sum_map_eraseIdx h]
  omega

end EchoLoad
