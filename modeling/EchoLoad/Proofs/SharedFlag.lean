import EchoLoad.SharedFlag
import Mathlib.Data.List.Basic
/-!
Handles that share a flag, whatever is done with them and in whichever order. The handles that come
from one original by copying are its family, and a flag is what was last written to the family of
its handle. Main statement: `flags_shared`.
-/

namespace EchoLoad

/-- What a handle stands for: the run flag or the stop latch. -/
inductive Switch where
  | run
  | stop
  deriving DecidableEq, Repr

namespace Switch

def handles : Switch → Controls → Handles
  | run, c => c.active
  | stop, c => c.stopped

/-- The handle through which an action writes, and the value. -/
def writing? : Switch → ControlAction → Option (Nat × Bool)
  | run, .activate i => some (i, true)
  | run, .cancel i => some (i, false)
  | stop, .stop i => some (i, true)
  | _, _ => none

end Switch

/-- The original of each handle after an action, by those before it. A new handle is its own. -/
def ControlAction.originate (known : List Nat) : ControlAction → List Nat
  | .new => known ++ [known.length]
  | .clone i => known ++ known[i]?.toList
  | _ => known

/-- The original of each handle. -/
def origins (actions : List ControlAction) : List Nat :=
  actions.foldl ControlAction.originate [0]

namespace Switch

/-- What an action writes to the family of `o`. -/
def write? (k : Switch) (known : List Nat) (o : Nat) (a : ControlAction) : Option Bool :=
  (k.writing? a).bind fun (i, value) => if known[i]? = some o then some value else none

/-- All that is written to the family of `o`, in order. -/
def writes (k : Switch) (o : Nat) : List Nat → List ControlAction → List Bool
  | _, [] => []
  | known, a :: rest => (k.write? known o a).toList ++ writes k o (a.originate known) rest

end Switch

namespace Controls

def after (c : Controls) (actions : List ControlAction) : Controls :=
  actions.foldl (fun c a => (c.perform a).2) c

/-- What the cancellations in the family of `o` answer, in order. -/
def cancellations (o : Nat) : List Nat → Controls → List ControlAction → List Bool
  | _, _, [] => []
  | known, c, a :: rest =>
    (if Switch.run.write? known o a = some false then (c.perform a).1.toList else []) ++
      cancellations o (a.originate known) (c.perform a).2 rest

end Controls

/-- The cells follow the families: each family has a cell of its own, which holds its value. -/
structure Handles.Tracks (h : Handles) (known : List Nat) (value : Nat → Bool) (cell : Nat → Nat) :
    Prop where
  family : h.family = known.map cell
  holds : ∀ o ∈ known, h.cells[cell o]? = some (value o)
  apart : ∀ o ∈ known, ∀ p ∈ known, cell o = cell p → o = p
  origin_lt : ∀ o ∈ known, o < known.length
  /-- Nothing is written to a family before it is there. -/
  unborn : ∀ o, known.length ≤ o → value o = false

variable {k : Switch} {known : List Nat} {h : Handles} {c : Controls} {a : ControlAction}
  {actions : List ControlAction} {value : Nat → Bool} {cell : Nat → Nat} {i o : Nat} {b : Bool}

/-- An action seen from one kind of handles: both kinds are made and copied together, and each is
written by actions of its own. -/
theorem Switch.handles_perform (k : Switch) (c : Controls) (a : ControlAction) :
    k.handles (c.perform a).2 =
      match a with
      | .new => (k.handles c).fresh
      | .clone i => (k.handles c).clone i
      | a => (k.writing? a).elim (k.handles c) fun w => (k.handles c).write w.1 w.2 := by
  cases k <;> cases a <;> rfl

namespace Handles.Tracks

theorem isSet (t : h.Tracks known value cell) (hi : known[i]? = some o) :
    h.isSet i = value o := by
  have hcell : h.family[i]? = some (cell o) := by
    rw [t.family, List.getElem?_map, hi]
    rfl
  rw [Handles.isSet, hcell, Option.bind_some, t.holds o (List.mem_of_getElem? hi)]
  rfl

/-! ## One action -/

theorem fresh (t : h.Tracks known value cell) :
    h.fresh.Tracks (known ++ [known.length]) value
      fun o => if o = known.length then h.cells.length else cell o := by
  have hold : ∀ o ∈ known, o ≠ known.length := fun o ho => Nat.ne_of_lt (t.origin_lt o ho)
  have hlt : ∀ o ∈ known, cell o < h.cells.length := fun o ho =>
    (List.getElem?_eq_some_iff.1 (t.holds o ho)).1
  have hmem : ∀ o ∈ known ++ [known.length], o ∈ known ∨ o = known.length := fun o ho =>
    (List.mem_append.1 ho).imp_right List.mem_singleton.1
  refine ⟨?_, ?_, ?_, ?_, ?_⟩
  · have hsame : known.map cell =
        known.map fun o => if o = known.length then h.cells.length else cell o :=
      List.map_congr_left fun o ho => (if_neg (hold o ho)).symm
    rw [Handles.fresh, t.family, List.map_append, ← hsame]
    simp
  · intro o ho
    obtain ho | rfl := hmem o ho
    · rw [if_neg (hold o ho), Handles.fresh, List.getElem?_append_left (hlt o ho)]
      exact t.holds o ho
    · rw [if_pos rfl, t.unborn _ (Nat.le_refl _)]
      exact List.getElem?_concat_length
  · intro o ho p hp he
    obtain ho | rfl := hmem o ho <;>
      obtain hp | rfl := hmem p hp
    · rw [if_neg (hold o ho), if_neg (hold p hp)] at he
      exact t.apart o ho p hp he
    · rw [if_neg (hold o ho), if_pos rfl] at he
      exact absurd he (Nat.ne_of_lt (hlt o ho))
    · rw [if_pos rfl, if_neg (hold p hp)] at he
      exact absurd he.symm (Nat.ne_of_lt (hlt p hp))
    · rfl
  · intro o ho
    rw [List.length_append, List.length_singleton]
    obtain ho | rfl := hmem o ho
    · exact Nat.lt_succ_of_lt (t.origin_lt o ho)
    · exact Nat.lt_succ_self _
  · intro o ho
    rw [List.length_append] at ho
    exact t.unborn o (Nat.le_of_add_right_le ho)

theorem family_getElem? (t : h.Tracks known value cell) (i : Nat) :
    h.family[i]? = known[i]?.map cell := by
  rw [t.family, List.getElem?_map]

theorem clone (t : h.Tracks known value cell) (i : Nat) :
    (h.clone i).Tracks (known ++ known[i]?.toList) value cell := by
  rw [Handles.clone, t.family_getElem?]
  cases hi : known[i]? with
  | none => simpa using t
  | some o =>
    have hmem : ∀ p ∈ known ++ [o], p ∈ known := fun p hp =>
      (List.mem_append.1 hp).elim id fun hp =>
        List.mem_singleton.1 hp ▸ List.mem_of_getElem? hi
    refine ⟨?_, fun p hp => t.holds p (hmem p hp), fun p hp q hq =>
      t.apart p (hmem p hp) q (hmem q hq), fun p hp => ?_, fun p hp => ?_⟩
    · simp [t.family]
    · exact Nat.lt_of_lt_of_le (t.origin_lt p (hmem p hp)) (by simp)
    · exact t.unborn p (Nat.le_trans (by simp) hp)

theorem write (t : h.Tracks known value cell) (i : Nat) (b : Bool) :
    (h.write i b).Tracks known (fun o => if known[i]? = some o then b else value o) cell := by
  rw [Handles.write, t.family_getElem?]
  cases hi : known[i]? with
  | none => simpa using t
  | some o =>
    have ho := List.mem_of_getElem? hi
    refine ⟨t.family, fun p hp => ?_, t.apart, t.origin_lt, fun p hp => ?_⟩
    · by_cases hpo : o = p
      · have hlt := (List.getElem?_eq_some_iff.1 (t.holds p hp)).1
        simp [hpo, hlt]
      · have hcell : cell o ≠ cell p := fun he => hpo (t.apart o ho p hp he)
        simp [hpo, List.getElem?_set_ne hcell, t.holds p hp]
    · have hop : o ≠ p := fun he => by
        have := t.origin_lt o ho
        omega
      simp [hop, t.unborn p hp]

theorem written (t : h.Tracks known value cell) (writing : Option (Nat × Bool)) :
    (writing.elim h fun w => h.write w.1 w.2).Tracks known
      (fun o => (writing.bind fun w =>
        if known[w.1]? = some o then some w.2 else none).getD (value o)) cell := by
  cases writing with
  | none => exact t
  | some w =>
    have hvalue : (fun o => ((some w).bind fun w =>
        if known[w.1]? = some o then some w.2 else none).getD (value o)) =
        fun o => if known[w.1]? = some o then w.2 else value o := by
      funext o
      rw [Option.bind_some]
      split <;> rfl
    rw [hvalue]
    exact t.write w.1 w.2

/-- **What an action does to every family.** -/
theorem perform (t : (k.handles c).Tracks known value cell) (a : ControlAction) :
    ∃ cell, (k.handles (c.perform a).2).Tracks (a.originate known)
      (fun o => (k.write? known o a).getD (value o)) cell := by
  rw [k.handles_perform]
  cases a with
  | new => cases k <;> exact ⟨_, t.fresh⟩
  | clone i => cases k <;> exact ⟨_, t.clone i⟩
  | activate i | cancel i | stop i => exact ⟨cell, t.written _⟩

/-! ## All actions -/

/-- **What some actions do to every family.** -/
theorem after (t : (k.handles c).Tracks known value cell) (actions : List ControlAction) :
    ∃ cell, (k.handles (c.after actions)).Tracks (actions.foldl ControlAction.originate known)
      (fun o => (k.writes o known actions).getLast?.getD (value o)) cell := by
  induction actions generalizing c known value cell with
  | nil => exact ⟨cell, t⟩
  | cons a rest ih =>
    obtain ⟨cell, hnext⟩ := t.perform a
    obtain ⟨cell, hrest⟩ := ih hnext
    have hvalue : (fun o => (k.writes o known (a :: rest)).getLast?.getD (value o)) =
        fun o => (k.writes o (a.originate known) rest).getLast?.getD
          ((k.write? known o a).getD (value o)) := by
      funext o
      rw [Switch.writes, List.getLast?_append]
      cases (k.writes o (a.originate known) rest).getLast? <;> cases k.write? known o a <;> rfl
    exact ⟨cell, hvalue ▸ hrest⟩

theorem start (k : Switch) : (k.handles {}).Tracks [0] (fun _ => false) id := by
  cases k <;> exact ⟨rfl, by simp [Switch.handles, Handles.first], by simp, by simp, by simp⟩

theorem history (k : Switch) (history : List ControlAction) :
    ∃ cell, (k.handles (Controls.after {} history)).Tracks (origins history)
      (fun o => (k.writes o [0] history).getLast?.getD false) cell :=
  (start k).after history

end Handles.Tracks

theorem origins_append (history actions : List ControlAction) :
    origins (history ++ actions) = actions.foldl ControlAction.originate (origins history) :=
  List.foldl_append

theorem originate_keep (hi : known[i]? = some o) (actions : List ControlAction) :
    (actions.foldl ControlAction.originate known)[i]? = some o := by
  induction actions generalizing known with
  | nil => exact hi
  | cons a rest ih =>
    refine ih ?_
    have hlt := (List.getElem?_eq_some_iff.1 hi).1
    cases a with
    | new | clone => exact (List.getElem?_append_left hlt).trans hi
    | activate | cancel | stop => exact hi

/-! ## Cancelling and stopping -/

theorem Switch.run_write?_false (h : Switch.run.write? known o a = some false) :
    ∃ i, a = .cancel i ∧ known[i]? = some o := by
  obtain ⟨⟨i, b⟩, hw, h⟩ := Option.bind_eq_some_iff.1 h
  dsimp only at h
  split at h
  · next hi =>
    cases h
    cases a <;> cases hw
    exact ⟨i, rfl, hi⟩
  · cases h

theorem Switch.stop_write?_ne (known : List Nat) (o : Nat) (a : ControlAction) :
    Switch.stop.write? known o a ≠ some false := by
  intro h
  obtain ⟨⟨i, b⟩, hw, h⟩ := Option.bind_eq_some_iff.1 h
  dsimp only at h
  split at h
  · cases h
    cases a <;> cases hw
  · cases h

theorem Switch.false_notMem_stop (o : Nat) (known : List Nat) (actions : List ControlAction) :
    false ∉ Switch.stop.writes o known actions := by
  induction actions generalizing known with
  | nil => exact List.not_mem_nil
  | cons a rest ih =>
    rw [Switch.writes, List.mem_append, Option.mem_toList]
    exact not_or.2 ⟨Switch.stop_write?_ne known o a, ih _⟩

theorem getLast?_getD_not {l : List Bool} (h : b ∉ l) : l.getLast?.getD (!b) = !b := by
  cases hl : l.getLast? with
  | none => rfl
  | some x =>
    have hx := List.mem_of_getLast? hl
    cases b <;> cases x <;> first | rfl | exact absurd hx h

/-- **Without an activation in between at most one cancellation clears the flag**, and none if it
is clear. -/
theorem Handles.Tracks.cancellations_le (t : c.active.Tracks known value cell)
    (h : true ∉ Switch.run.writes o known actions) :
    (c.cancellations o known actions).count true ≤ (value o).toNat := by
  induction actions generalizing c known value cell with
  | nil => exact Nat.zero_le _
  | cons a rest ih =>
    rw [Switch.writes, List.mem_append, Option.mem_toList, not_or] at h
    obtain ⟨cell, hnext⟩ := Handles.Tracks.perform (k := .run) t a
    have hrest := ih hnext h.2
    rw [Controls.cancellations, List.count_append]
    cases hw : Switch.run.write? known o a with
    | none =>
      rw [hw] at hrest
      simpa using hrest
    | some b =>
      cases b with
      | true => exact absurd hw h.1
      | false =>
        -- this one clears the flag if it is set, and it is clear from there on
        obtain ⟨i, rfl, hi⟩ := Switch.run_write?_false hw
        have hanswer : (c.perform (.cancel i)).1 = some (value o) := congrArg some (t.isSet hi)
        rw [hw] at hrest
        rw [if_pos rfl, hanswer, Nat.le_zero.1 hrest]
        cases value o <;> decide

/-- **Flags behind handles.** After any history: the run flag of a handle is set just if the last
activation or cancellation in its family was an activation; what is done to other families does not
change it; and a cancellation tells whether it has cleared a flag that was set, for the whole
family. Whatever comes next, a handle stays in its family; between two cancellations that have
cleared the flag of a family there is an activation in it, and as long as there is none at most one
has; and a stop latch that is set stays set, for each handle that is in the family by then. -/
theorem flags_shared (history actions : List ControlAction) (o : Nat) :
    let c := Controls.after {} history
    let known := origins history
    let later := origins (history ++ actions)
    (∀ i : Nat, known[i]? = some o →
      (c.active.isSet i = true ↔ (Switch.run.writes o [0] history).getLast? = some true)) ∧
    (∀ a (i : Nat), known[i]? = some o → Switch.run.write? known o a = none →
      (c.perform a).2.active.isSet i = c.active.isSet i) ∧
    (∀ i j : Nat, known[i]? = some o → known[j]? = some o →
      ((c.perform (.cancel i)).1 = some true ↔
        c.active.isSet j = true ∧ (c.perform (.cancel i)).2.active.isSet j = false)) ∧
    (∀ i : Nat, known[i]? = some o → later[i]? = some o) ∧
    (∀ i j : Nat, known[i]? = some o → later[j]? = some o → (c.perform (.cancel i)).1 = some true →
      (((c.perform (.cancel i)).2.after actions).perform (.cancel j)).1 = some true →
      true ∈ Switch.run.writes o known actions) ∧
    (true ∉ Switch.run.writes o known actions →
      (c.cancellations o known actions).count true ≤ 1) ∧
    ∀ i j : Nat, known[i]? = some o → later[j]? = some o → c.stopped.isSet i = true →
      (c.after actions).stopped.isSet j = true := by
  intro c known later
  obtain ⟨cell, t⟩ := Handles.Tracks.history .run history
  obtain ⟨cell', u⟩ := Handles.Tracks.history .stop history
  have hlater : later = actions.foldl ControlAction.originate known := origins_append ..
  refine ⟨fun i hi => ?_, fun a i hi ha => ?_, fun i j hi hj => ?_, fun i hi => ?_,
    fun i j hi hj hfirst hsecond => ?_, fun hnone => ?_, fun i j hi hj hset => ?_⟩
  · rw [show c.active.isSet i = _ from t.isSet hi]
    cases (Switch.run.writes o [0] history).getLast? <;> simp
  · obtain ⟨cell, hnext⟩ := t.perform a
    have hi' : (a.originate known)[i]? = some o := originate_keep hi [a]
    have hafter : (c.perform a).2.active.isSet i = _ := hnext.isSet hi'
    rw [hafter, show c.active.isSet i = _ from t.isSet hi, ha]
    rfl
  · obtain ⟨cell, hnext⟩ := t.perform (.cancel i)
    have hafter : (c.perform (.cancel i)).2.active.isSet j = _ := hnext.isSet hj
    have hwrite : Switch.run.write? known o (.cancel i) = some false := by
      simp [Switch.write?, Switch.writing?, hi]
    have hanswer : (c.perform (.cancel i)).1 = some (c.active.isSet i) := rfl
    rw [hafter, hwrite, hanswer, show c.active.isSet i = _ from t.isSet hi,
      show c.active.isSet j = _ from t.isSet hj]
    simp
  · rw [hlater]
    exact originate_keep hi actions
  · by_contra hnone
    obtain ⟨cell, hcleared⟩ := t.perform (.cancel i)
    obtain ⟨cell, hnext⟩ := hcleared.after actions
    have hwrite : Switch.run.write? known o (.cancel i) = some false := by
      simp [Switch.write?, Switch.writing?, hi]
    have hclear : ((c.perform (.cancel i)).2.after actions).active.isSet j = false := by
      refine (hnext.isSet (hlater ▸ hj)).trans ?_
      rw [hwrite]
      exact getLast?_getD_not hnone
    have hanswer : some (((c.perform (.cancel i)).2.after actions).active.isSet j) = some true :=
      hsecond
    rw [hclear] at hanswer
    cases hanswer
  · exact Nat.le_trans (t.cancellations_le hnone) (Bool.toNat_le _)
  · obtain ⟨cell, hnext⟩ := u.after actions
    refine (hnext.isSet (hlater ▸ hj)).trans ?_
    rw [← u.isSet hi, show (Switch.stop.handles _).isSet i = true from hset]
    exact getLast?_getD_not (Switch.false_notMem_stop o known actions)

/-- Two families. Handles 0, 2 and 3 are one of them, 3 being the copy of a copy; handle 1 is the
other. The first is activated through 3 and stopped through 2. -/
theorem flags_shared_copies :
    let history : List ControlAction :=
      [.new, .clone 0, .clone 2, .activate 3, .cancel 1, .stop 2]
    let c := Controls.after {} history
    origins history = [0, 1, 0, 0] ∧ c.active.isSet 0 = true ∧
      (c.perform (.activate 1)).2.active.isSet 0 = c.active.isSet 0 ∧
      ((c.perform (.cancel 2)).1 = some true ↔
        c.active.isSet 3 = true ∧ (c.perform (.cancel 2)).2.active.isSet 3 = false) ∧
      true ∈ Switch.run.writes 0 (origins history) [.clone 3, .activate 4] ∧
      (c.cancellations 0 (origins history) [.cancel 1, .cancel 0, .clone 2, .cancel 4]).count true
        ≤ 1 ∧
      (c.after [.clone 3, .cancel 4]).stopped.isSet 4 = true := by
  intro history c
  obtain ⟨hset, haside, hcleared, -, hbetween, -, -⟩ :=
    flags_shared history [.clone 3, .activate 4] 0
  obtain ⟨-, -, -, -, -, hatMost, -⟩ :=
    flags_shared history [.cancel 1, .cancel 0, .clone 2, .cancel 4] 0
  obtain ⟨-, -, -, -, -, -, hstopped⟩ := flags_shared history [.clone 3, .cancel 4] 0
  exact ⟨by decide, (hset 0 (by decide)).2 (by decide),
    haside (.activate 1) 0 (by decide) (by decide), hcleared 2 3 (by decide) (by decide),
    hbetween 0 4 (by decide) (by decide) (by decide) (by decide), hatMost (by decide),
    hstopped 2 4 (by decide) (by decide) (by decide)⟩

end EchoLoad
