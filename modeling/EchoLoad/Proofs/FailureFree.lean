import EchoLoad.Proofs.Fair
import EchoLoad.Proofs.Progress
import EchoLoad.Proofs.Wait
import Mathlib.Algebra.Order.BigOperators.Group.List
import Mathlib.Algebra.Order.Group.Nat
/-!
A world without failures: it is fair, its books are in order, and none is on its way. The load of its
loops up to some instant goes down with every turn and never goes up with time, so a wait for
that instant ends. Main statement: `FailureFree.attend_by`.
-/

namespace EchoLoad

/-! ## The load of a loop -/

namespace Worker

/-- A bound for the turns of the loop before `horizon`. -/
def load (horizon now : Duration) (k : Worker) : Nat :=
  match k.stage with
  | .ready => 2 * (horizon - now) + 1
  | .busy (some (t, _)) => 2 * (horizon + 1 - t)
  | _ => 0

variable {active : Bool} {horizon now t : Duration} {k k' : Worker}

theorem load_le (h : now ≤ t) : k.load horizon t ≤ k.load horizon now := by
  unfold load
  split
  · exact Nat.succ_le_succ (Nat.mul_le_mul_left 2 (Nat.sub_le_sub_left h _))
  · exact Nat.le_refl _
  · exact Nat.le_refl _

/-- **A turn lowers the load.** -/
theorem Turns.load_lt (h : k.Turns active now k') (hn : now ≤ horizon) :
    k'.load horizon now < k.load horizon now := by
  cases h with
  | @echoed t latency hs ht =>
    have hk : k.load horizon now = 2 * (horizon + 1 - t) := by simp only [load, hs]
    have hk' : k.advance.load horizon now = 2 * (horizon - now) + 1 := rfl
    rw [hk, hk']
    grind
  | @started _ t latency hs _ _ _ _ hs' ht =>
    have hk : k.load horizon now = 2 * (horizon - now) + 1 := by simp only [load, hs]
    have hk' : k'.load horizon now = 2 * (horizon + 1 - t) := by simp only [load, hs']
    rw [hk, hk']
    grind
  | retired hs =>
    have hk : k.load horizon now = 2 * (horizon - now) + 1 := by simp only [load, hs]
    rw [hk]
    exact Nat.succ_pos _

theorem Turns.plan_eq (h : k.Turns active now k') : k'.plan = k.plan := by
  cases h with
  | echoed => rfl
  | started _ _ _ hp => exact hp
  | retired => rfl

end Worker

namespace World

/-- A bound for all that can happen in the loops before `horizon`, and for the attempts. -/
def load (horizon : Duration) (w : World) : Nat :=
  (w.workers.map (Worker.load horizon w.now)).sum + w.dials.length

variable {w w' : World} {horizon t : Duration}

theorem load_tick (h : w.now ≤ t) : (w.tick t).load horizon ≤ w.load horizon :=
  Nat.add_le_add_right (List.sum_le_sum fun _ _ => Worker.load_le h) _

theorem Turns.load_lt (h : w.Turns w') (hnow : w'.now = w.now) (hn : w.now ≤ horizon) :
    w'.load horizon < w.load horizon := by
  unfold load
  cases h with
  | attempt hw hd _ =>
    rw [hw, hnow]
    exact Nat.add_lt_add_left hd _
  | @loop i k k' hk hw hd ht =>
    rw [hw, hd, hnow, sum_map_set hk, sum_map_eraseIdx hk]
    have hlt := ht.load_lt hn
    omega

/-- Nothing can fail: the world is fair and its books are in order. The run flag is as given, and
the loops have plans of one kind. -/
structure FailureFree (set : Setting) (size : PayloadSize) (peer : Nat → Peer) (flag : Bool)
    (P : EchoPlan → Prop) (w : World) : Prop where
  fair : w.Fair set.options size peer
  books : ∃ a, Ledger set.options a w
  flag : w.active = flag
  plans : ∀ k ∈ w.workers, P k.plan

namespace FailureFree

variable {set : Setting} {size : PayloadSize} {peer : Nat → Peer} {flag : Bool}
  {P : EchoPlan → Prop}

theorem failures (h : w.FailureFree set size peer flag P) : w.failures = [] := by
  obtain ⟨a, ha⟩ := h.books
  have hr := ha.rounds
  rw [h.fair.clean] at hr
  exact (List.append_eq_nil_iff.1 hr.symm).2

theorem tick (h : w.FailureFree set size peer flag P) (ht : w.now ≤ t) :
    (w.tick t).FailureFree set size peer flag P :=
  ⟨h.fair.tick ht, h.books.imp fun _ ha => ledger_tick ha t, h.flag, h.plans⟩

theorem internalStep (h : w.FailureFree set size peer flag P) (hs : InternalStep set w w') :
    w'.FailureFree set size peer flag P ∧ w'.now = w.now ∧ w.Turns w' := by
  obtain ⟨a, ha⟩ := h.books
  obtain ⟨hfair, hnow, hflag, hturn⟩ := h.fair.internalStep ha.custody hs
  refine ⟨⟨hfair, ⟨a, ha.internalStep hs⟩, hflag.trans h.flag, ?_⟩, hnow, hturn⟩
  cases hturn with
  | attempt hw => rw [hw]; exact h.plans
  | @loop i k k' hk hw _ ht =>
    rw [hw]
    exact forall_mem_set h.plans (ht.plan_eq ▸ h.plans k (List.mem_of_getElem? hk))

theorem draws {n : Nat} (hsize : size.Allows n) (h : w.FailureFree set size peer flag P) :
    ∀ k ∈ w.workers, k.plan.payload.sample k.source ≠ none := by
  intro k hk
  rw [h.fair.plans k hk]
  exact PayloadSize.sample_ne_none hsize

def Within (horizon : Duration) (w : World) : Prop :=
  w.now ≤ horizon ∧ ∀ d ∈ w.dials, ∀ t r, d.ending = some (t, r) → t ≤ horizon

theorem exists_within (w : World) : ∃ horizon, Within horizon w := by
  obtain ⟨b, hb⟩ := exists_bound (fun d : Dial => d.ending.map (·.1)) w.dials
  exact ⟨max w.now b, Nat.le_max_left .., fun d hd t r hr =>
    Nat.le_trans (hb d hd t (by rw [hr]; rfl)) (Nat.le_max_right ..)⟩

/-- **A wait for an instant ends**, if something can always happen by then and the controller
leaves when it is woken. -/
theorem attend_by (horizon : Duration) {σ ρ : Type} {watch : Watch σ ρ} {s : σ}
    {Q : World → ρ → Prop} {n : Nat} (hsize : size.Allows n)
    (hended : ∀ s w t, (watch.waiting s).ended (w.tick t) = (watch.waiting s).ended w)
    (hmove : ∀ w, w.FailureFree set size peer flag P → Within horizon w →
      ∃ t m, (t, m) ∈ w.moves (watch.waiting s) ∧ t ≤ horizon)
    (hwakeup : ∀ w w' b, w.FailureFree set size peer flag P → Wakes (watch.waiting s) w w' b →
      ∃ w'' x, watch.react s b w' = (w'', .inr x) ∧ Q w'' x)
    (hw : w.FailureFree set size peer flag P) (hn : Within horizon w) :
    ∃ w' x, Settles (fun fuel => w.attend set watch fuel s) (w', x) ∧ Q w' x := by
  refine attend_total (I := fun r s' w => s' = s ∧ w.FailureFree set size peer flag P ∧
    Within horizon w ∧ r = w.load horizon) ?_ hended ?_ ?_ ?_ ⟨rfl, hw, hn, rfl⟩
  · exact fun _ _ _ h => h.2.1.draws hsize
  · rintro r s' w ⟨rfl, hw, hn, rfl⟩
    obtain ⟨t₁, m₁, hm, ht₁⟩ := hmove w hw hn
    refine ⟨t₁, m₁, hm, fun t hnow ht => ⟨_, load_tick hnow, rfl, hw.tick hnow, ?_, rfl⟩⟩
    exact ⟨Nat.le_trans ht (Nat.max_le.2 ⟨hn.1, ht₁⟩), hn.2⟩
  · rintro r s' w w' ⟨rfl, hw, hn, rfl⟩ hs
    obtain ⟨hw', hnow, hturn⟩ := hw.internalStep hs
    refine ⟨_, hturn.load_lt hnow hn.1, rfl, hw', ⟨hnow ▸ hn.1, ?_⟩, rfl⟩
    cases hturn with
    | attempt _ _ hd => exact fun d hm => hn.2 d (hd hm)
    | loop _ _ hd => rw [hd]; exact hn.2
  · rintro r s' w w' b ⟨rfl, hw, -⟩ hr
    obtain ⟨w'', x, hreact, hq⟩ := hwakeup w w' b hw hr
    rw [hreact]
    exact hq

end FailureFree

end World

end EchoLoad
