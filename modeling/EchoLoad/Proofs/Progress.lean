import EchoLoad.Proofs.InternalStep
import Mathlib.Data.Finset.Dedup
import Mathlib.Data.Finset.Order
import Mathlib.Data.Prod.Lex
/-!
Waits that end. If something can happen then the next step takes it or something earlier, and a
wait whose every step lowers a rank comes to a result that more fuel does not change. Main
statements: `step_total` and `attend_total`.
-/

namespace EchoLoad

theorem exists_bound {α : Type} (f : α → Option Duration) (l : List α) :
    ∃ b, ∀ x ∈ l, ∀ t, f x = some t → t ≤ b := by
  obtain ⟨b, hb⟩ := (l.filterMap f).toFinset.exists_le
  exact ⟨b, fun x hx t ht => hb t (List.mem_toFinset.2 (List.mem_filterMap.2 ⟨x, hx, ht⟩))⟩

/-! ## Enough fuel -/

/-- With enough fuel the computation gives `x`. -/
def Settles {ε α : Type} (f : Nat → Except ε α) (x : α) : Prop :=
  ∃ enough, ∀ n, enough ≤ n → f n = .ok x

namespace Settles

variable {ε α β : Type} {f : Nat → Except ε α} {g : Nat → α → Except ε β} {x : α} {y : β}

theorem of_ok (h : ∀ n, f n = .ok x) : Settles f x := ⟨0, fun n _ => h n⟩

theorem exists_ok (hf : Settles f x) : ∃ n, f n = .ok x := hf.imp fun n hn => hn n (Nat.le_refl n)

theorem follow {f' h : Nat → Except ε β} (hf : Settles f x) (hf' : Settles f' y)
    (hnext : ∀ n, f n = .ok x → h n = f' n) : Settles h y := by
  obtain ⟨a, ha⟩ := hf
  obtain ⟨b, hb⟩ := hf'
  refine ⟨max a b, fun n hn => ?_⟩
  rw [hnext n (ha n (by omega))]
  exact hb n (by omega)

theorem bind (hf : Settles f x) (hg : Settles (fun n => g n x) y) :
    Settles (fun n => f n >>= g n) y := by
  refine hf.follow hg fun n hn => ?_
  rw [hn]
  rfl

theorem step {f' : Nat → Except ε α} (h : ∀ n, f' (n + 1) = f n) (hf : Settles f x) :
    Settles f' x := by
  obtain ⟨a, ha⟩ := hf
  refine ⟨a + 1, fun n hn => ?_⟩
  obtain ⟨m, rfl⟩ := Nat.exists_eq_add_of_le' (Nat.le_of_add_left_le hn)
  rw [h m, ha m (by omega)]

theorem map (hf : Settles f x) (h : α → β) : Settles (fun n => (f n).map h) (h x) := by
  obtain ⟨a, ha⟩ := hf
  refine ⟨a, fun n hn => ?_⟩
  dsimp only
  rw [ha n hn]
  rfl

end Settles

/-- With enough fuel the computation comes to a result. -/
def Returns {ε α : Type} (f : Nat → Except ε α) : Prop := ∃ x, Settles f x

namespace Returns

variable {ε α β : Type} {f : Nat → Except ε α} {g : Nat → α → Except ε β}

theorem of_ok {x : α} (h : ∀ n, f n = .ok x) : Returns f := ⟨x, .of_ok h⟩

theorem bind (hf : Returns f) (hg : ∀ n x, f n = .ok x → Returns fun n => g n x) :
    Returns fun n => f n >>= g n := by
  obtain ⟨x, hx⟩ := hf
  obtain ⟨n, hn⟩ := hx.exists_ok
  obtain ⟨y, hy⟩ := hg n x hn
  exact ⟨y, hx.bind hy⟩

theorem follow {h : Nat → Except ε β} (hf : Returns f)
    (hnext : ∀ n x, f n = .ok x → ∃ f', Returns f' ∧ ∀ m, f m = .ok x → h m = f' m) :
    Returns h := by
  obtain ⟨x, hx⟩ := hf
  obtain ⟨n, hn⟩ := hx.exists_ok
  obtain ⟨f', ⟨y, hy⟩, hsame⟩ := hnext n x hn
  exact ⟨y, hx.follow hy hsame⟩

theorem map (hf : Returns f) (h : α → β) : Returns fun n => (f n).map h :=
  hf.imp' h fun _ hx => hx.map h

end Returns

namespace World

variable {set : Setting} {q : Waiting} {w : World}

/-! ## What can happen -/

theorem dial_mem_moves {i : Nat} {d : Dial} {t : Duration} {r : Except ClientError Duration}
    (hd : w.dials[i]? = some d) (he : d.ending = some (t, r)) : (t, .dial i) ∈ w.moves q := by
  have hm : (t, Move.dial i) ∈ w.dialMoves :=
    List.mem_filterMap.2 ⟨(d, i), List.mem_zipIdx_iff_getElem?.2 hd, by simp [he]⟩
  simp [moves, hm]

theorem alarm_mem_moves {t : Duration} (h : q.alarm = some t) : (t, .alarm) ∈ w.moves q := by
  simp [moves, wakeups, h]

theorem ended_mem_moves (h : q.ended w = true) : (w.now, .ended) ∈ w.moves q := by
  simp [moves, wakeups, h]

theorem round_mem_moves {i : Nat} {k : Worker} {t : Duration} {r : Except ClientError Duration}
    (hk : w.workers[i]? = some k) (hs : k.stage = .busy (some (t, r))) :
    (t, .work i) ∈ w.moves q := by
  have hm : ∀ may, (t, Move.work i) ∈ w.workerMoves may := fun may =>
    List.mem_filterMap.2 ⟨(k, i), List.mem_zipIdx_iff_getElem?.2 hk, by simp [hs]⟩
  simp [moves, hm]

theorem join_mem_moves {i : Nat} {k : Worker} (hk : w.workers[i]? = some k)
    (hs : k.stage = .done) (hj : q.joins k = true) : (w.now, .join i) ∈ w.moves q := by
  have hm : (w.now, Move.join i) ∈ w.wakeups q := by
    simp only [wakeups, List.mem_append]
    exact .inl (.inl (.inl (List.mem_filterMap.2
      ⟨(k, i), List.mem_zipIdx_iff_getElem?.2 hk, by simp [hs, hj]⟩)))
  simp [moves, hm]

theorem exists_move_of_ready {k : Worker} (hk : k ∈ w.workers) (hs : k.stage = .ready) :
    ∃ t m, (t, m) ∈ w.moves q ∧ t ≤ w.now := by
  obtain ⟨i, hi⟩ := List.mem_iff_getElem?.1 hk
  by_cases hmay : (w.wakeups q).all (fun m => w.now < m.1) = true
  · have hm : (w.now, Move.work i) ∈ w.workerMoves true :=
      List.mem_filterMap.2 ⟨(k, i), List.mem_zipIdx_iff_getElem?.2 hi, by simp [hs]⟩
    exact ⟨w.now, .work i, by simp [moves, hmay, hm], Nat.le_refl _⟩
  · simp only [List.all_eq_true, not_forall] at hmay
    obtain ⟨⟨t, m⟩, hm, hdue⟩ := hmay
    exact ⟨t, m, by simp [moves, hm], by simpa using hdue⟩

/-! ## One step -/

/-- If something can happen then something is chosen, and not later. -/
theorem exists_choose (set : Setting) {t₁ : Duration} {m₁ : Move} (hm : (t₁, m₁) ∈ w.moves q) :
    ∃ t m, w.choose set q = some (t, m) ∧ t ≤ max w.now t₁ := by
  have hmem : max w.now t₁ ∈ (w.moves q).map fun m => max w.now m.1 :=
    List.mem_map.2 ⟨(t₁, m₁), hm, rfl⟩
  obtain ⟨t, ht⟩ : ∃ t, earliest w.now (w.moves q) = some t :=
    Option.isSome_iff_exists.1 (List.isSome_min?_of_mem hmem)
  obtain ⟨hleast, hle⟩ := List.min?_eq_some_iff.1 ht
  obtain ⟨m, hm', hmt⟩ := List.mem_map.1 hleast
  let due := (w.moves q).filter fun m => max w.now m.1 = t
  have hdue : 0 < due.length :=
    List.length_pos_of_mem (List.mem_filter.2 ⟨hm', by simpa using hmt⟩)
  have hlt : set.order w.turn % due.length < due.length := Nat.mod_lt _ hdue
  refine ⟨t, due[set.order w.turn % due.length].2, ?_, hle _ hmem⟩
  unfold choose
  dsimp only
  rw [ht]
  dsimp only
  rw [List.getElem?_eq_getElem hlt]
  rfl

theorem apply_total (set : Setting) (t : Duration) {t' : Duration} {m : Move} (hd : Due q w t' m)
    (hdraw : ∀ k ∈ w.workers, k.plan.payload.sample k.source ≠ none) :
    ∃ w' b, (w.tick t).apply set q m = .ok (w', b) := by
  cases m with
  | work i =>
    obtain ⟨k, hk, hs⟩ := hd
    have hproceed : ∀ (w : World) (k' : Worker), k'.plan = k.plan → k'.source = k.source →
        ∃ w', w.proceed set i k' = .ok w' := by
      intro w k' hplan hsource
      unfold proceed
      split
      · split
        · next hnone =>
          rw [hplan, hsource] at hnone
          exact (hdraw k (List.mem_of_getElem? hk) hnone).elim
        · exact ⟨_, rfl⟩
      · exact ⟨_, rfl⟩
    have hwork : ∃ w', (w.tick t).work set i = .ok w' := by
      have hk' : (w.tick t).workers[i]? = some k := hk
      simp only [work, hk']
      rcases hs with hs | ⟨_ | latency, hs⟩
      · rw [hs]
        exact hproceed _ k rfl rfl
      · rw [hs]
        exact ⟨_, rfl⟩
      · rw [hs]
        exact hproceed _ k.advance rfl rfl
    obtain ⟨w', hw⟩ := hwork
    exact ⟨w', none, by rw [apply, hw]; rfl⟩
  | join i =>
    simp only [apply]
    split <;> exact ⟨_, _, rfl⟩
  | mail =>
    simp only [apply]
    split <;> exact ⟨_, _, rfl⟩
  | signal | dial | alarm | ended => exact ⟨_, _, rfl⟩

/-- **The next step.** If something can happen then there is a step, internal or not, and not
later. -/
theorem step_total (set : Setting) {t₁ : Duration} {m₁ : Move} (hm : (t₁, m₁) ∈ w.moves q)
    (hdraw : ∀ k ∈ w.workers, k.plan.payload.sample k.source ≠ none)
    (hended : ∀ t, q.ended (w.tick t) = q.ended w) :
    ∃ t w' b, w.step set q = .ok (w', b) ∧ w.now ≤ t ∧ t ≤ max w.now t₁ ∧
      ((b = none ∧ Relation.TransGen (InternalStep set) (w.tick t) w') ∨
        ∃ wakeup, b = some wakeup ∧ Wakes q (w.tick t) w' wakeup) := by
  obtain ⟨t, m, hc, hle⟩ := exists_choose set hm
  obtain ⟨hn, t', ht, hd⟩ := choose_due hc
  obtain ⟨w', b, ha⟩ := apply_total set t hd hdraw
  refine ⟨t, w', b, by rw [step, hc]; exact ha, hn, hle, ?_⟩
  obtain ⟨hb, hs | ⟨-, rfl, he⟩⟩ | hr := apply_due ht hd ha
  · exact .inl ⟨hb, hs⟩
  · rw [hended, show q.ended w = true from hd] at he
    cases he
  · exact .inr hr

/-! ## A whole wait -/

/-- More fuel does not change a result. -/
theorem attend_mono {σ ρ : Type} {watch : Watch σ ρ} {fuel more : Nat} {s : σ} {x : World × ρ}
    (hle : fuel ≤ more) (h : w.attend set watch fuel s = .ok x) :
    w.attend set watch more s = .ok x := by
  induction fuel generalizing more s w with
  | zero => cases h
  | succ fuel ih =>
    obtain ⟨more, rfl⟩ := Nat.exists_eq_add_of_le' hle
    have hle : fuel ≤ more + fuel := Nat.le_add_left _ _
    rw [← Nat.add_assoc]
    unfold attend at h ⊢
    split at h
    · cases h
    · exact ih hle h
    · split at h
      · exact ih hle h
      · exact h

theorem connectBatch_mono {fuel more first size : Nat} {watchful : Bool}
    {x : World × BatchOutcome × Option Failure} (hle : fuel ≤ more)
    (h : w.connectBatch set fuel first size watchful = .ok x) :
    w.connectBatch set more first size watchful = .ok x := by
  obtain ⟨y, hy, rfl⟩ := map_eq_ok.1 h
  exact map_eq_ok.2 ⟨y, attend_mono hle hy, rfl⟩

theorem connectBatch_unique {fuel first size : Nat} {watchful : Bool}
    {x y : World × BatchOutcome × Option Failure}
    (hx : Settles (fun fuel => w.connectBatch set fuel first size watchful) x)
    (h : w.connectBatch set fuel first size watchful = .ok y) : x = y := by
  obtain ⟨enough, henough⟩ := hx
  have hmore := connectBatch_mono (Nat.le_max_left fuel enough) h
  exact Except.ok.inj ((henough _ (Nat.le_max_right fuel enough)).symm.trans hmore)

/-- **A wait that ends.** `I r s w` says that in the world `w` a controller waits in state `s` at
rank `r`. Something can always happen; time and what can happen by then keep the rank or lower it,
and everything that happens lowers it. -/
theorem attend_total {α σ ρ : Type} [Preorder α] [WellFoundedLT α] {watch : Watch σ ρ}
    {I : α → σ → World → Prop} {Q : World → ρ → Prop}
    (hdraw : ∀ r s w, I r s w → ∀ k ∈ w.workers, k.plan.payload.sample k.source ≠ none)
    (hended : ∀ s w t, (watch.waiting s).ended (w.tick t) = (watch.waiting s).ended w)
    (htick : ∀ r s w, I r s w → ∃ t₁ m₁, (t₁, m₁) ∈ w.moves (watch.waiting s) ∧
      ∀ t, w.now ≤ t → t ≤ max w.now t₁ → ∃ r' ≤ r, I r' s (w.tick t))
    (hinternal : ∀ r s w w', I r s w → InternalStep set w w' → ∃ r' < r, I r' s w')
    (hwakeup : ∀ r s w w' b, I r s w → Wakes (watch.waiting s) w w' b →
      match watch.react s b w' with
      | (w'', .inl s') => ∃ r' < r, I r' s' w''
      | (w'', .inr x) => Q w'' x)
    {r : α} {s : σ} (hw : I r s w) :
    ∃ w' x, Settles (fun fuel => w.attend set watch fuel s) (w', x) ∧ Q w' x := by
  induction r using WellFoundedLT.induction generalizing s w with
  | ind r ih =>
    obtain ⟨t₁, m₁, hm, htick⟩ := htick r s w hw
    obtain ⟨t, w1, b, hs, hn, hle, hcase⟩ := step_total set hm (hdraw r s w hw) (hended s w)
    obtain ⟨r1, hr1, hw1⟩ := htick t hn hle
    obtain ⟨rfl, hst⟩ | ⟨wakeup, rfl, hr⟩ := hcase
    · have hlower : ∀ w2, Relation.TransGen (InternalStep set) (w.tick t) w2 →
          ∃ r' < r1, I r' s w2 := by
        intro w2 hst
        induction hst with
        | single h => exact hinternal r1 s _ _ hw1 h
        | tail _ h ih' =>
          obtain ⟨r2, hr2, hw2⟩ := ih'
          obtain ⟨r3, hr3, hw3⟩ := hinternal r2 s _ _ hw2 h
          exact ⟨r3, hr3.trans hr2, hw3⟩
      obtain ⟨r2, hr2, hw2⟩ := hlower w1 hst
      obtain ⟨w', x, hx, hq⟩ := ih r2 (hr2.trans_le hr1) hw2
      exact ⟨w', x, hx.step fun n => by rw [attend, hs], hq⟩
    · have hreact := hwakeup r1 s _ _ wakeup hw1 hr
      rcases he : watch.react s wakeup w1 with ⟨w2, s' | x⟩
      · rw [he] at hreact
        obtain ⟨r2, hr2, hw2⟩ := hreact
        obtain ⟨w', x, hx, hq⟩ := ih r2 (hr2.trans_le hr1) hw2
        exact ⟨w', x, hx.step fun n => by rw [attend, hs]; simp only [he], hq⟩
      · rw [he] at hreact
        refine ⟨w2, x, ⟨1, fun n hn => ?_⟩, hreact⟩
        obtain ⟨m, rfl⟩ := Nat.exists_eq_add_of_le' hn
        simp only [attend, hs, he]

end World

end EchoLoad
