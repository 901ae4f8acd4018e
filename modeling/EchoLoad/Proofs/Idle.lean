import EchoLoad.Proofs.Pool
import EchoLoad.Proofs.Progress
/-!
Stretches of a run in which no loop runs: a pool is established, or a pause goes by, or clients are
closed. No round begins or ends there, and whatever is waited for comes about. Main statements:
`attend_idle`, `establishPool_idle` and `closeAll_idle`, and `attend_idle_returns` for waits that end.
-/

namespace EchoLoad

/-- No loop ran from `w` to `w'`. Interrupts may have arrived. -/
structure World.Idle (w w' : World) : Prop where
  events : ∃ es, w'.events = es ++ w.events ∧ ∀ e ∈ es, e.isRound = false
  signals : w'.signals <:+ w.signals
  workers : w'.workers = []

namespace World

variable {set : Setting} {fuel : Nat} {w w' w'' : World}

namespace Idle

theorem of_eq (hevents : w'.events = w.events) (hsignals : w'.signals = w.signals)
    (hworkers : w'.workers = []) : w.Idle w' :=
  ⟨⟨[], hevents, by simp⟩, hsignals ▸ List.suffix_refl _, hworkers⟩

theorem note {e : Event} (he : e.isRound = false) (hevents : w'.events = e :: w.events)
    (hsignals : w'.signals = w.signals) (hworkers : w'.workers = []) : w.Idle w' :=
  ⟨⟨[e], hevents, by simpa using he⟩, hsignals ▸ List.suffix_refl _, hworkers⟩

theorem refl (hw : w.workers = []) : w.Idle w := .of_eq rfl rfl hw

theorem trans (h : w.Idle w') (h' : w'.Idle w'') : w.Idle w'' := by
  obtain ⟨es, hes, hround⟩ := h.events
  obtain ⟨es', hes', hround'⟩ := h'.events
  refine ⟨⟨es' ++ es, ?_, fun e he => ?_⟩, h'.signals.trans h.signals, h'.workers⟩
  · rw [hes', hes, List.append_assoc]
  · rcases List.mem_append.1 he with he | he
    · exact hround' e he
    · exact hround e he

end Idle

theorem InternalStep.idle (hs : InternalStep set w w') (hw : w.workers = []) : w.Idle w' := by
  cases hs with
  | signal hsignal =>
    rw [interrupted_eq hsignal]
    exact ⟨⟨[], rfl, by simp⟩, hsignal ▸ List.suffix_cons _ _, hw⟩
  | arrived | declined => exact .note rfl rfl rfl hw
  | echoed hk | broken hk | start hk | retire hk => simp [hw] at hk

/-- **While no loop runs none starts.** -/
theorem attend_idle {σ ρ : Type} {watch : Watch σ ρ}
    (hreact : ∀ s b w, (watch.react s b w).1.events = w.events ∧
      (watch.react s b w).1.signals = w.signals ∧ (watch.react s b w).1.workers = w.workers)
    {s : σ} {r : ρ} (hw : w.workers = []) (h : w.attend set watch fuel s = .ok (w', r)) :
    w.Idle w' := by
  refine attend_rule (I := fun _ => w.Idle) (Q := fun w1 _ => w.Idle w1) ?_ ?_ ?_ (.refl hw) h
  · exact fun _ _ _ h => ⟨h.events, h.signals, h.workers⟩
  · exact fun _ _ _ h hs => h.trans (hs.idle h.workers)
  · intro s w1 w2 b hw1 hr
    have hw2 : w1.Idle w2 := by
      cases hr with
      | joined hk => simp [hw1.workers] at hk
      | _ => exact .of_eq rfl rfl hw1.workers
    obtain ⟨hevents, hsignals, hworkers⟩ := hreact s b w2
    have hw3 : w.Idle (watch.react s b w2).1 :=
      (hw1.trans hw2).trans (.of_eq hevents hsignals (hworkers.trans hw2.workers))
    split <;> next he => rwa [he] at hw3

theorem sleep_idle {d : Duration} (hw : w.workers = []) (h : w.sleep set fuel d = .ok w') :
    w.Idle w' := by
  obtain ⟨⟨_, _⟩, ha, rfl⟩ := map_eq_ok.1 h
  refine attend_idle (fun s b w => ?_) hw ha
  simp only [sleeping]
  split <;> exact ⟨rfl, rfl, rfl⟩

/-! ## Waits that end -/

/-- What can still happen by itself, or reach the controller, while no loop runs. -/
def pending (w : World) : Nat := w.dials.length + w.signals.length + w.failures.length

theorem InternalStep.pending_lt (hs : InternalStep set w w') (hw : w.workers = []) :
    w'.pending < w.pending := by
  have herase : ∀ {i : Nat} {d : Dial}, w.dials[i]? = some d →
      (w.dials.eraseIdx i).length < w.dials.length := by
    intro i d hd
    obtain ⟨hi, -⟩ := List.getElem?_eq_some_iff.1 hd
    rw [List.length_eraseIdx_of_lt hi]
    omega
  cases hs with
  | signal hsignal =>
    rw [interrupted_eq hsignal]
    simp only [pending, hsignal, List.length_cons]
    omega
  | arrived hd | declined hd =>
    exact Nat.add_lt_add_right (Nat.add_lt_add_right (herase hd) _) _
  | echoed hk | broken hk | start hk | retire hk => simp [hw] at hk

/-- **While no loop runs a wait ends**, if something can happen as long as it lasts and the controller
is not woken for ever. -/
theorem attend_idle_returns {σ ρ : Type} {watch : Watch σ ρ} {I : σ → World → Prop}
    (hended : ∀ s w t, (watch.waiting s).ended (w.tick t) = (watch.waiting s).ended w)
    (htick : ∀ s, Timeless (I s)) (hinternal : ∀ s w w', I s w → InternalStep set w w' → I s w')
    (hmove : ∀ s w, I s w → ∃ t m, (t, m) ∈ w.moves (watch.waiting s))
    (hwakeup : ∀ s w w' b, I s w → w.workers = [] → Wakes (watch.waiting s) w w' b →
      match watch.react s b w' with
      | (w'', .inl s') => I s' w'' ∧ w''.workers = [] ∧ w''.pending < w.pending
      | (_, .inr _) => True)
    {s : σ} (hi : I s w) (hw : w.workers = []) :
    Returns fun fuel => w.attend set watch fuel s := by
  have hwait : ∃ w' x, Settles (fun fuel => w.attend set watch fuel s) (w', x) ∧ True := by
    refine attend_total (I := fun r s w => I s w ∧ w.workers = [] ∧ r = w.pending)
      ?_ hended ?_ ?_ ?_ ⟨hi, hw, rfl⟩
    · rintro r s w ⟨-, hw, -⟩ k hk
      simp [hw] at hk
    · rintro r s w ⟨hi, hw, rfl⟩
      obtain ⟨t, m, hm⟩ := hmove s w hi
      exact ⟨t, m, hm, fun t' _ _ => ⟨_, Nat.le_refl _, htick s w t' hi, hw, rfl⟩⟩
    · rintro r s w w' ⟨hi, hw, rfl⟩ hs
      exact ⟨_, hs.pending_lt hw, hinternal s w w' hi hs, (hs.idle hw).workers, rfl⟩
    · rintro r s w w' b ⟨hi, hw, rfl⟩ hr
      have hwakeup := hwakeup s w w' b hi hw hr
      split
      · next he =>
        rw [he] at hwakeup
        obtain ⟨hi', hw', hlt⟩ := hwakeup
        exact ⟨_, hlt, hi', hw', rfl⟩
      · trivial
  obtain ⟨w', x, hx, -⟩ := hwait
  exact ⟨_, hx⟩

theorem sleep_idle_returns (hw : w.workers = []) (d : Duration) :
    Returns fun fuel => w.sleep set fuel d := by
  refine Returns.map ?_ _
  refine attend_idle_returns (I := fun _ _ => True) (fun _ _ _ => rfl) (fun _ _ _ _ => trivial)
    (fun _ _ _ _ _ => trivial) (fun _ _ _ => ⟨_, _, alarm_mem_moves rfl⟩) ?_ trivial hw
  intro _ w w' b _ _ hr
  cases hr with
  | alarm => trivial
  | mail hm => cases hm
  | joined _ _ hj => cases hj
  | ended he => cases he

/-- **A batch whose attempts all end is over at some time**, whatever interrupts arrive. -/
theorem connectBatch_idle_returns {first size : Nat} (watchful : Bool) (hw : w.workers = [])
    (hends : ∀ d ∈ (w.dialBatch set first size).dials, d.ending ≠ none) :
    Returns fun fuel => w.connectBatch set fuel first size watchful := by
  refine Returns.map ?_ _
  refine attend_idle_returns (I := fun _ w => ∀ d ∈ w.dials, d.ending ≠ none) (fun _ _ _ => rfl)
    (fun _ _ _ h => h) ?_ ?_ ?_ hends ((dialBatch_frame set w first size).2.2.2.1.trans hw)
  · intro _ w w' hends hs d hd
    cases hs with
    | signal hsignal =>
      rw [interrupted_eq hsignal] at hd
      exact hends d hd
    | arrived | declined => exact hends d (List.eraseIdx_subset hd)
    | _ => exact hends d hd
  · intro seen w hends
    rcases hd : w.dials with _ | ⟨d, dials⟩
    · exact ⟨w.now, .ended, ended_mem_moves (by simp [connecting, hd])⟩
    · obtain ⟨⟨t, r⟩, he⟩ := Option.ne_none_iff_exists'.1 (hends d (by simp [hd]))
      exact ⟨t, .dial 0, dial_mem_moves (by simp [hd]) he⟩
  · intro seen w w' b hends hw hr
    cases hr with
    | alarm ha => cases ha
    | joined _ _ hj => cases hj
    | ended => trivial
    | mail _ hf =>
      refine ⟨hends, hw, ?_⟩
      simp only [pending, cancel, hf, List.length_cons]
      omega

/-! ## A pool is established -/

theorem dialBatch_idle (set : Setting) (first size : Nat) (hw : w.workers = []) :
    w.Idle (w.dialBatch set first size) := by
  induction size generalizing first w with
  | zero => exact .refl hw
  | succ size ih =>
    have hdial : w.Idle (w.dial set first) := .note rfl rfl rfl hw
    exact hdial.trans (ih (first + 1) hdial.workers)

theorem connectBatch_idle {first size : Nat} {watchful : Bool} {out : BatchOutcome}
    {seen : Option Failure} (hw : w.workers = [])
    (h : w.connectBatch set fuel first size watchful = .ok (w', out, seen)) : w.Idle w' := by
  obtain ⟨⟨w1, seen1⟩, ha, he⟩ := map_eq_ok.1 h
  cases he
  have hdials := dialBatch_idle set first size hw
  have hwait : (w.dialBatch set first size).Idle w1 := by
    refine attend_idle (fun s b w => ?_) hdials.workers ha
    simp only [connecting]
    split <;> exact ⟨rfl, rfl, rfl⟩
  exact (hdials.trans hwait).trans (.of_eq rfl rfl hwait.workers)

theorem growPool_idle {target batch batches : Nat} {pool pool' : PoolOutcome}
    (hw : w.workers = [])
    (h : growPool set fuel target batch batches pool w = .ok (w', pool')) : w.Idle w' := by
  have hbatch {w1 w2 : World} {n size : Nat} {out : BatchOutcome} {seen : Option Failure}
      (hw1 : w.Idle w1) (hc : w1.connectBatch set fuel n size false = .ok (w2, out, seen)) :
      w.Idle w2 :=
    hw1.trans (connectBatch_idle hw1.workers hc)
  exact growPool_rule (I := fun _ => w.Idle) (Q := fun w1 _ => w.Idle w1) (fun _ _ hw1 => hw1)
    (fun _ _ _ _ _ _ hw1 hc _ => hbatch hw1 hc)
    (fun _ _ _ _ _ _ _ _ hw1 hc _ => hbatch hw1 hc) (.refl hw) h

theorem establishPool_idle {target batch : Nat} {pool : PoolOutcome} (hw : w.workers = [])
    (h : w.establishPool set fuel target batch = .ok (w', pool)) : w.Idle w' := growPool_idle hw h

/-! ## Clients are closed -/

theorem closeBatch_idle (clients : List Client) (hw : w.workers = []) :
    w.Idle (w.closeBatch clients).1 := by
  refine closeBatch_keeps (fun w1 c hw1 => hw1.trans ?_) clients (.refl hw)
  unfold World.close
  split
  · exact .note rfl rfl rfl hw1.workers
  · exact .refl hw1.workers

theorem closeAll_idle {batch n : Nat} {pause : Duration} {clients : List Client}
    (hw : w.workers = []) (h : w.closeAll set fuel batch pause clients = .ok (w', n)) :
    w.Idle w' :=
  closeAll_rule (m := 0) (I := fun _ _ => w.Idle)
    (fun first _ _ _ hw1 => hw1.trans (closeBatch_idle first hw1.workers))
    (fun _ _ _ _ hw1 hs => hw1.trans (sleep_idle hw1.workers hs)) (.refl hw) h

end World

theorem Session.establish_idle {set : Setting} {fuel clients batch : Nat} {o : Output}
    {s s' : Session} {result : Except RunError (List Client × Nat)} (hw : s.world.workers = [])
    (h : s.establish set fuel clients batch o = .ok (s', result)) : s.world.Idle s'.world := by
  obtain ⟨⟨w, pool⟩, hp, h⟩ := bind_eq_ok.1 h
  have hpool := World.establishPool_idle hw hp
  have htake : ∀ {w1 : World}, s.world.Idle w1 → s.world.Idle w1.takeJoins.2 :=
    fun h => ⟨h.events, h.signals, h.workers⟩
  dsimp only at h
  split at h
  · obtain ⟨⟨w1, n⟩, hc, h⟩ := bind_eq_ok.1 h
    have hclose := hpool.trans (World.closeAll_idle hpool.workers hc)
    dsimp only at h
    split at h
    · cases h
      exact htake hclose
    · next s1 hwrite =>
      cases h
      rw [Session.writeSeries_world hwrite]
      exact htake hclose
  · split at h
    · cases h
      exact ⟨hpool.events, hpool.signals, hpool.workers⟩
    · next s1 hwrite =>
      cases h
      rw [Session.writeSeries_world hwrite]
      exact htake hpool

end EchoLoad
