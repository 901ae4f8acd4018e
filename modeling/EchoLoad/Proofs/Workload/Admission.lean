import EchoLoad.Proofs.Ends
import EchoLoad.Workload.Ramp
/-!
The admission of a batch ends. Loops without end run beside the rounds that are waited for, and
when such a round starts nobody knows yet how long it takes. So the rank of the wait is a pair:
the rounds that are still to start, and what can happen before the last of those under way ends.
Main statement: `admitBatch_ends`.
-/

namespace EchoLoad

namespace Ramp

def Planned (s : RampSettings) (p : EchoPlan) : Prop := p = loopPlan s ∨ p = admissionPlan s

/-- 1 for a round of an admission that is still to start. -/
def pending (k : Worker) : Nat :=
  match k.stage with
  | .ready => if isAdmission k && k.hasBudget then 1 else 0
  | _ => 0

/-- A bound for the turns before `horizon`, with the loop that follows an admission. -/
def admissionLoad (horizon now : Duration) (k : Worker) : Nat :=
  k.load horizon now +
    if isAdmission k then
      match k.stage with
      | .done => 2 * (horizon - now) + 2
      | _ => 2
    else 0

variable {s : RampSettings} {horizon now t : Duration} {k k' : Worker}

theorem admissionLoad_le (h : now ≤ t) : admissionLoad horizon t k ≤ admissionLoad horizon now k := by
  have hload : k.load horizon t ≤ k.load horizon now := Worker.load_le h
  have hspan : 2 * (horizon - t) ≤ 2 * (horizon - now) :=
    Nat.mul_le_mul_left 2 (Nat.sub_le_sub_left h _)
  unfold admissionLoad
  split
  · split
    · grind
    · exact Nat.add_le_add_right hload 2
  · exact hload

/-- **A turn** starts a round that was to start, or brings the end nearer. -/
theorem turns_rank (h : k.Turns true now k') (hp : Planned s k.plan) (hn : now ≤ horizon) :
    (isAdmission k = true ∧ pending k' < pending k) ∨
      ((isAdmission k = true → ∀ ending, k'.stage ≠ .busy ending) ∧ pending k' = pending k ∧
        admissionLoad horizon now k' < admissionLoad horizon now k) := by
  have hload := h.load_lt hn
  cases h with
  | @echoed t latency hs ht =>
    refine .inr ⟨fun _ _ hb => (by cases hb), ?_, ?_⟩
    · rcases hp with hp | hp <;>
        simp [pending, hs, Worker.advance, isAdmission, Worker.hasBudget, hp, loopPlan,
          admissionPlan]
    · simp only [admissionLoad, hs, Worker.advance, isAdmission] at hload ⊢
      exact Nat.add_lt_add_right hload _
  | started hs _ hb hplan _ hs' ht =>
    rcases hp with hp | hp
    · refine .inr ⟨fun ha => ?_, ?_, ?_⟩
      · simp [isAdmission, hp, loopPlan] at ha
      · simp [pending, hs, hs', isAdmission, hp, loopPlan]
      · simp only [admissionLoad, isAdmission, hplan, hp, loopPlan]
        simpa using hload
    · exact .inl ⟨by simp [isAdmission, hp, admissionPlan],
        by simp [pending, hs, hs', hb, isAdmission, hp, admissionPlan]⟩
  | retired hs hb =>
    have hb : k.hasBudget = false := by simpa using hb
    refine .inr ⟨fun _ _ h => (by cases h), by simp [pending, hs, hb], ?_⟩
    have hready : k.load horizon now = 2 * (horizon - now) + 1 := by simp only [Worker.load, hs]
    have hdone : ({ k with stage := .done } : Worker).load horizon now = 0 := rfl
    simp only [admissionLoad, hready, hdone, hs]
    cases ha : isAdmission k
    · have ha' : isAdmission { k with stage := .done } = false := ha
      simp [ha']
    · have ha' : isAdmission { k with stage := .done } = true := ha
      simp [ha']

/-! ## The wait -/

variable {set : Setting} {size : PayloadSize} {peer : Nat → Peer} {w w' : World} {n : Nat}

def rank (horizon : Duration) (w : World) : ℕ ×ₗ ℕ :=
  toLex ((w.workers.map pending).sum, (w.workers.map (admissionLoad horizon w.now)).sum)

def Timely (horizon : Duration) (w : World) : Prop :=
  w.now ≤ horizon ∧ ∀ k ∈ w.workers, isAdmission k = true →
    ∀ t r, k.stage = .busy (some (t, r)) → t ≤ horizon

theorem rank_tick (h : w.now ≤ t) : rank horizon (w.tick t) ≤ rank horizon w :=
  Prod.Lex.toLex_mono ⟨Nat.le_refl _, List.sum_le_sum fun _ _ => admissionLoad_le h⟩

theorem rank_internalStep (hw : w.FailureFree set s.payload peer true (Planned s)) (hd : w.dials = [])
    (ht : Timely horizon w) (hs : World.InternalStep set w w') :
    w'.FailureFree set s.payload peer true (Planned s) ∧ w'.dials = [] ∧
      ∃ horizon', Timely horizon' w' ∧ rank horizon' w' < rank horizon w := by
  obtain ⟨hw', hnow, hturn⟩ := hw.internalStep hs
  refine ⟨hw', ?_⟩
  cases hturn with
  | attempt _ hlt => simp [hd] at hlt
  | @loop i k k' hk hworkers hdials hk' =>
    rw [hw.flag] at hk'
    refine ⟨hdials.trans hd, ?_⟩
    have hmem : k ∈ w.workers := List.mem_of_getElem? hk
    have hin : ∀ x ∈ w'.workers, x ∈ w.workers ∨ x = k' := by
      rw [hworkers]
      exact fun x hx => List.mem_or_eq_of_mem_set hx
    obtain ⟨-, hlt⟩ | ⟨hstage, heq, hlt⟩ := turns_rank hk' (hw.plans k hmem) ht.1
    · obtain ⟨horizon', hle, hend⟩ : ∃ horizon', horizon ≤ horizon' ∧
          ∀ t r, k'.stage = .busy (some (t, r)) → t ≤ horizon' := by
        rcases hb : k'.stage with _ | ⟨_ | ⟨t, r⟩⟩ | _
        · exact ⟨horizon, Nat.le_refl _, fun _ _ h => by cases h⟩
        · exact ⟨horizon, Nat.le_refl _, fun _ _ h => by cases h⟩
        · refine ⟨max horizon t, Nat.le_max_left .., fun _ _ h => ?_⟩
          cases h
          exact Nat.le_max_right ..
        · exact ⟨horizon, Nat.le_refl _, fun _ _ h => by cases h⟩
      refine ⟨horizon', ⟨hnow ▸ Nat.le_trans ht.1 hle, fun x hx ha t r hb => ?_⟩, ?_⟩
      · rcases hin x hx with hx | rfl
        · exact Nat.le_trans (ht.2 x hx ha t r hb) hle
        · exact hend t r hb
      · refine Prod.Lex.toLex_lt_toLex.2 (.inl ?_)
        dsimp only
        rw [hworkers, sum_map_set hk, sum_map_eraseIdx hk]
        exact Nat.add_lt_add_right hlt _
    · refine ⟨horizon, ⟨hnow ▸ ht.1, fun x hx ha t r hb => ?_⟩, ?_⟩
      · rcases hin x hx with hx | rfl
        · exact ht.2 x hx ha t r hb
        · have ha' : isAdmission k = true := by
            rw [isAdmission, hk'.plan_eq] at ha
            exact ha
          exact (hstage ha' _ hb).elim
      · refine Prod.Lex.toLex_lt_toLex.2 (.inr ⟨?_, ?_⟩)
        · dsimp only
          rw [hworkers, sum_map_set hk, sum_map_eraseIdx hk, heq]
        · dsimp only
          rw [hworkers, hnow, sum_map_set hk, sum_map_eraseIdx hk]
          exact Nat.add_lt_add_right hlt _

theorem exists_move (hw : w.FailureFree set s.payload peer true (Planned s)) (ht : Timely horizon w)
    (left : List Client) :
    ∃ t m, (t, m) ∈ w.moves ((admitting set s).waiting left) ∧ t ≤ horizon := by
  by_cases hany : w.workers.any isAdmission = true
  · obtain ⟨k, hmem, ha⟩ := List.any_eq_true.1 hany
    obtain ⟨i, hi⟩ := List.mem_iff_getElem?.1 hmem
    cases hs : k.stage with
    | ready =>
      obtain ⟨t, m, hm, hle⟩ := World.exists_move_of_ready hmem hs
      exact ⟨t, m, hm, Nat.le_trans hle ht.1⟩
    | busy ending =>
      obtain ⟨t, latency, rfl⟩ := hw.fair.rounds k hmem ending hs
      exact ⟨t, _, World.round_mem_moves hi hs, ht.2 k hmem ha t _ hs⟩
    | done => exact ⟨w.now, _, World.join_mem_moves hi hs ha, ht.1⟩
  · exact ⟨w.now, .ended, World.ended_mem_moves (by simpa [admitting] using hany), ht.1⟩

/-- A loop is taken out that has ended, and perhaps one that has yet to begin comes in. -/
theorem rank_join {i : Nat} {more : List Worker} (hk : w.workers[i]? = some k)
    (hs : k.stage = .done) (ha : isAdmission k = true)
    (hworkers : w'.workers = w.workers.eraseIdx i ++ more) (hnow : w'.now = w.now)
    (hmore : more = [] ∨ ∃ k', more = [k'] ∧ k'.stage = .ready ∧ isAdmission k' = false) :
    rank horizon w' < rank horizon w := by
  have hpending : pending k = 0 := by simp only [pending, hs]
  have hpatience : admissionLoad horizon w.now k = 2 * (horizon - w.now) + 2 := by
    simp [admissionLoad, hs, ha, Worker.load]
  refine Prod.Lex.toLex_lt_toLex.2 (.inr ⟨?_, ?_⟩) <;> dsimp only
  · rw [hworkers, sum_map_eraseIdx hk, hpending]
    obtain rfl | ⟨k', rfl, hk', hl⟩ := hmore
    · simp
    · simp [pending, hk', hl]
  · rw [hworkers, hnow, sum_map_eraseIdx hk, hpatience]
    obtain rfl | ⟨k', rfl, hk', hl⟩ := hmore
    · simp
    · simp [admissionLoad, hk', hl, Worker.load]
      omega

theorem failureFree_spawn {clients : List Client} {a : Account}
    (hw : w.FailureFree set s.payload peer true (· = loopPlan s))
    (hl : Ledger set.options { a with held := clients ++ a.held } w) (hq : w.NoBatch)
    (hopen : ∀ c ∈ clients, c.isOpen = true) :
    let w' := clients.foldl (World.spawn set (admissionPlan s)) w
    w'.FailureFree set s.payload peer true (Planned s) ∧ w'.dials = [] ∧ Timely w'.now w' := by
  have hfair : ∀ (clients : List Client) (w : World), w.Fair set.options s.payload peer →
      (clients.foldl (World.spawn set (admissionPlan s)) w).Fair set.options s.payload peer := by
    intro clients
    induction clients with
    | nil => exact fun _ hf => hf
    | cons c clients ih => exact fun w hf => ih _ (hf.spawn rfl)
  have hspawned := World.spawnAll_eq set (admissionPlan s) clients w
  have hworkers := congrArg World.workers hspawned
  have hactive := congrArg World.active hspawned
  obtain ⟨hl, hq⟩ := World.spawn_ledger set (admissionPlan s) hl hq hopen
  have hin : ∀ k ∈ (clients.foldl (World.spawn set (admissionPlan s)) w).workers,
      k.plan = loopPlan s ∨ (k.plan = admissionPlan s ∧ k.stage = .ready) := by
    intro k hk
    rw [hworkers] at hk
    rcases List.mem_append.1 hk with hk | hk
    · exact .inl (hw.plans k hk)
    · obtain ⟨c, -, rfl⟩ := List.mem_map.1 hk
      exact .inr ⟨rfl, rfl⟩
  refine ⟨⟨hfair clients w hw.fair, ⟨a, hl⟩, hactive.trans hw.flag, fun k hk => ?_⟩, hq.dials,
    Nat.le_refl _, fun k hk ha t r hb => ?_⟩
  · exact (hin k hk).imp_right And.left
  · rcases hin k hk with hp | ⟨-, hs⟩
    · simp [isAdmission, hp, loopPlan] at ha
    · rw [hs] at hb
      cases hb

/-- **The admission of a batch ends**, and then all loops are without end. -/
theorem admitBatch_ends {clients : List Client} {a : Account} (hsize : s.payload.Allows n)
    (hw : w.FailureFree set s.payload peer true (· = loopPlan s))
    (hl : Ledger set.options { a with held := clients ++ a.held } w) (hq : w.NoBatch)
    (hopen : ∀ c ∈ clients, c.isOpen = true) :
    ∃ w' left, w'.FailureFree set s.payload peer true (· = loopPlan s) ∧
      Settles (fun fuel => admitBatch set fuel s clients w) (w', left) := by
  obtain ⟨hw0, hd0, ht0⟩ := failureFree_spawn hw hl hq hopen
  have hwait : ∃ w' left, Settles (fun fuel => admitBatch set fuel s clients w) (w', left) ∧
      w'.FailureFree set s.payload peer true (· = loopPlan s) := by
    refine World.attend_total (I := fun r _ w => ∃ horizon,
      w.FailureFree set s.payload peer true (Planned s) ∧ w.dials = [] ∧ Timely horizon w ∧
        r = rank horizon w) ?_ (fun _ _ _ => rfl) ?_ ?_ ?_ ⟨_, hw0, hd0, ht0, rfl⟩
    · rintro r left w ⟨horizon, hw, -⟩
      exact hw.draws hsize
    · rintro r left w ⟨horizon, hw, hd, ht, rfl⟩
      obtain ⟨t₁, m₁, hm, hle⟩ := exists_move hw ht left
      refine ⟨t₁, m₁, hm, fun t hnow hlt => ⟨_, rank_tick hnow, horizon, hw.tick hnow, hd, ?_, rfl⟩⟩
      exact ⟨Nat.le_trans hlt (Nat.max_le.2 ⟨ht.1, hle⟩), ht.2⟩
    · rintro r left w w' ⟨horizon, hw, hd, ht, rfl⟩ hs
      obtain ⟨hw', hd', horizon', ht', hlt⟩ := rank_internalStep hw hd ht hs
      exact ⟨_, hlt, horizon', hw', hd', ht', rfl⟩
    · rintro r left w w' b ⟨horizon, hw, hd, ht, rfl⟩ hr
      cases hr with
      | alarm ha => cases ha
      | mail hm => cases hm
      | ended he =>
        refine ⟨hw.fair, hw.books, hw.flag, fun k hk => (hw.plans k hk).resolve_right fun hp => ?_⟩
        have hnone : w.workers.any isAdmission = false := by simpa [admitting] using he
        simpa [isAdmission, hp, admissionPlan] using List.any_eq_false.1 hnone k hk
      | @joined i k hk hs ha =>
        obtain ⟨a, hla⟩ := hw.books
        have hj := hla.join hk hs
        have herase : ∀ x ∈ w.workers.eraseIdx i, x ∈ w.workers :=
          fun x hx => List.eraseIdx_subset hx
        simp only [admitting]
        by_cases hc : k.client.isOpen = true
        · rw [if_pos hc]
          let k' : Worker := w.newLoop set (loopPlan s) k.client
          let w1 : World := { w with workers := w.workers.eraseIdx i ++ [k'] }
          have hlt : rank horizon w1 < rank horizon w :=
            rank_join hk hs ha rfl rfl (.inr ⟨k', rfl, rfl, rfl⟩)
          have hin : ∀ x ∈ w1.workers, x ∈ w.workers ∨ x = k' := fun x hx =>
            (List.mem_append.1 hx).imp (herase x) List.mem_singleton.1
          refine ⟨_, hlt, horizon, ⟨(hw.fair.join hk hs).spawn rfl, ?_, hw.flag, fun x hx => ?_⟩, hd,
            ⟨ht.1, fun x hx ha t r hb => ?_⟩, rfl⟩
          · exact ⟨a, Ledger.spawn (hj.perm List.perm_append_comm) hc⟩
          · rcases hin x hx with hx | rfl
            · exact hw.plans x hx
            · exact .inl rfl
          · rcases hin x hx with hx | rfl
            · exact ht.2 x hx ha t r hb
            · cases hb
        · rw [if_neg hc]
          let w1 : World := { w with workers := w.workers.eraseIdx i }
          have hlt : rank horizon w1 < rank horizon w :=
            rank_join hk hs ha (List.append_nil _).symm rfl (.inl rfl)
          exact ⟨_, hlt, horizon,
            ⟨hw.fair.join hk hs, ⟨_, hj⟩, hw.flag, fun x hx => hw.plans x (herase x hx)⟩, hd,
            ⟨ht.1, fun x hx => ht.2 x (herase x hx)⟩, rfl⟩
  obtain ⟨w', left, hx, hw'⟩ := hwait
  exact ⟨w', left, hw', hx⟩

end Ramp

end EchoLoad
