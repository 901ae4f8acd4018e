import Mathlib.Logic.Relation
import EchoLoad.World.Crew
/-!
What one step of a run can do, said once. Either the controller is woken or the step is internal:
an interrupt arrives, an attempt or a round ends, a loop starts a round or ends. Main statements:
`step_ok` takes a step apart, and `attend_rule` turns what both kinds preserve into what a whole
wait preserves.
-/

namespace EchoLoad

theorem map_eq_ok {ε α β : Type} {f : α → β} {x : Except ε α} {y : β} :
    x.map f = .ok y ↔ ∃ a, x = .ok a ∧ f a = y := by
  cases x <;> simp [Except.map]

theorem bind_eq_ok {ε α β : Type} {x : Except ε α} {f : α → Except ε β} {y : β} :
    x >>= f = .ok y ↔ ∃ a, x = .ok a ∧ f a = .ok y := by
  cases x <;> simp [bind, Except.bind]

theorem toOption_any {ε α : Type} {x : Except ε α} {p : α → Bool} :
    x.toOption.any p = true ↔ ∃ a, x = .ok a ∧ p a = true := by
  cases x <;> simp [Except.toOption]

namespace World

variable {set : Setting} {q : Waiting} {w w' : World}

/-- One thing that happens while the controller waits. -/
inductive InternalStep (set : Setting) (w : World) : World → Prop
  | signal {t : Duration} {s : Signal} {rest : List (Duration × Signal)} :
      w.signals = (t, s) :: rest → t ≤ w.now → InternalStep set w w.interrupted
  | arrived {i : Nat} {c : Client} {t latency : Duration} :
      w.dials[i]? = some ⟨c, some (t, .ok latency)⟩ → t ≤ w.now →
        InternalStep set w (w.arrived i c latency)
  | declined {i : Nat} {c : Client} {t : Duration} {e : ClientError} :
      w.dials[i]? = some ⟨c, some (t, .error e)⟩ → t ≤ w.now → InternalStep set w (w.declined i c e)
  | echoed {i : Nat} {k : Worker} {t latency : Duration} :
      w.workers[i]? = some k → k.stage = .busy (some (t, .ok latency)) → t ≤ w.now →
        InternalStep set w (w.echoed i k latency)
  | broken {i : Nat} {k : Worker} {t : Duration} {e : ClientError} :
      w.workers[i]? = some k → k.stage = .busy (some (t, .error e)) → t ≤ w.now →
        InternalStep set w (w.broken i k e)
  | start {i length : Nat} {k : Worker} {source : Source} :
      w.workers[i]? = some k → k.stage = .ready → w.active = true → k.hasBudget = true →
        k.plan.payload.sample k.source = some (length, source) →
        InternalStep set w (w.startRound set i k (Payload.fill length source).1
          (Payload.fill length source).2)
  | retire {i : Nat} {k : Worker} :
      w.workers[i]? = some k → k.stage = .ready → (w.active && k.hasBudget) = false →
        InternalStep set w (w.retire i k)

abbrev InternalSteps (set : Setting) : World → World → Prop := Relation.ReflTransGen (InternalStep set)

/-- What wakes the controller, and what it leaves of the world. -/
inductive Wakes (q : Waiting) (w : World) : World → Wakeup → Prop
  | alarm {t : Duration} : q.alarm = some t → t ≤ w.now → Wakes q w w .alarm
  | mail {f : Failure} {rest : List Failure} :
      q.mail = true → w.failures = f :: rest → Wakes q w { w with failures := rest } (.mail f)
  | joined {i : Nat} {k : Worker} :
      w.workers[i]? = some k → k.stage = .done → q.joins k = true →
        Wakes q w { w with workers := w.workers.eraseIdx i } (.joined k.client)
  | ended : q.ended w = true → Wakes q w w .ended

theorem interrupted_eq {t : Duration} {s : Signal} {rest : List (Duration × Signal)}
    (h : w.signals = (t, s) :: rest) : w.interrupted = { w with
      signals := rest
      stopped := w.stopped || s = .latch || s = .interrupt
      active := w.active && s = .latch } := by
  unfold interrupted
  rw [h]

theorem InternalStep.dials_nil (hs : InternalStep set w w') (h : w.dials = []) : w'.dials = [] := by
  cases hs with
  | signal hsignal =>
    rw [interrupted_eq hsignal]
    exact h
  | arrived hd | declined hd => simp [h] at hd
  | echoed | broken | start | retire => exact h

theorem InternalStep.active_eq (hs : InternalStep set w w') (h : w.signals = []) :
    w'.active = w.active := by
  cases hs with
  | signal hsignal => simp [h] at hsignal
  | arrived | declined | echoed | broken | start | retire => rfl

/-! ## The choice of what comes next -/

/-- What a move that can be chosen says about the world. -/
def Due (q : Waiting) (w : World) (t : Duration) : Move → Prop
  | .signal => ∃ s rest, w.signals = (t, s) :: rest
  | .dial i => ∃ c r, w.dials[i]? = some ⟨c, some (t, r)⟩
  | .work i => ∃ k, w.workers[i]? = some k ∧
      (k.stage = .ready ∨ ∃ r, k.stage = .busy (some (t, r)))
  | .join i => ∃ k, w.workers[i]? = some k ∧ k.stage = .done ∧ q.joins k = true
  | .mail => q.mail = true ∧ w.failures ≠ []
  | .alarm => q.alarm = some t
  | .ended => q.ended w = true

theorem due_of_mem_workerMoves {may : Bool} {t : Duration} {m : Move}
    (h : (t, m) ∈ w.workerMoves may) : Due q w t m := by
  obtain ⟨⟨k, i⟩, hk, hm⟩ := List.mem_filterMap.1 h
  have hk := List.mem_zipIdx_iff_getElem?.1 hk
  dsimp only at hm hk
  split at hm
  · next hs =>
    split at hm <;> cases hm
    exact ⟨k, hk, .inl hs⟩
  · next ending hs =>
    obtain ⟨⟨t', r⟩, rfl, he⟩ := Option.map_eq_some_iff.1 hm
    cases he
    exact ⟨k, hk, .inr ⟨r, hs⟩⟩
  · cases hm

theorem due_of_mem_dialMoves {t : Duration} {m : Move} (h : (t, m) ∈ w.dialMoves) :
    Due q w t m := by
  obtain ⟨⟨⟨c, ending⟩, i⟩, hd, hm⟩ := List.mem_filterMap.1 h
  obtain ⟨⟨t', r⟩, he, heq⟩ := Option.map_eq_some_iff.1 hm
  cases heq
  cases he
  exact ⟨c, r, List.mem_zipIdx_iff_getElem?.1 hd⟩

theorem due_of_mem_wakeups {t : Duration} {m : Move} (h : (t, m) ∈ w.wakeups q) : Due q w t m := by
  simp only [wakeups, List.mem_append] at h
  rcases h with ((h | h) | h) | h
  · obtain ⟨⟨k, i⟩, hk, hm⟩ := List.mem_filterMap.1 h
    have hk := List.mem_zipIdx_iff_getElem?.1 hk
    dsimp only at hm hk
    split at hm
    · next hs =>
      split at hm <;> cases hm
      exact ⟨k, hk, hs, by assumption⟩
    · cases hm
  · split at h
    · next hq =>
      simp only [List.mem_singleton] at h
      cases h
      simpa [Due] using hq
    · cases h
  · simp only [Option.mem_toList, Option.map_eq_some_iff] at h
    obtain ⟨t', hq, he⟩ := h
    cases he
    exact hq
  · split at h
    · next hq =>
      simp only [List.mem_singleton] at h
      cases h
      exact hq
    · cases h

theorem due_of_mem_moves {t : Duration} {m : Move} (h : (t, m) ∈ w.moves q) : Due q w t m := by
  simp only [moves, List.mem_append] at h
  rcases h with ((h | h) | h) | h
  · exact due_of_mem_workerMoves h
  · exact due_of_mem_dialMoves h
  · unfold signalMoves at h
    split at h
    · cases h
    · simp only [List.mem_singleton] at h
      cases h
      exact ⟨_, _, by assumption⟩
  · exact due_of_mem_wakeups h

theorem choose_due {t : Duration} {m : Move} (h : w.choose set q = some (t, m)) :
    w.now ≤ t ∧ ∃ t', t' ≤ t ∧ Due q w t' m := by
  unfold choose at h
  dsimp only at h
  split at h
  · cases h
  · next t0 _ =>
    obtain ⟨⟨t', m'⟩, hm, he⟩ := Option.map_eq_some_iff.1 h
    cases he
    obtain ⟨hm, ht⟩ := List.mem_filter.1 (List.mem_of_getElem? hm)
    have ht : max w.now t' = t := by simpa using ht
    exact ⟨ht ▸ Nat.le_max_left .., t', ht ▸ Nat.le_max_right .., due_of_mem_moves hm⟩

/-! ## Taking a step apart -/

theorem proceed_internalStep {i : Nat} {k : Worker} (hk : w.workers[i]? = some k)
    (hs : k.stage = .ready) (h : w.proceed set i k = .ok w') : InternalStep set w w' := by
  unfold proceed at h
  split at h
  · next hb =>
    obtain ⟨ha, hb⟩ := Bool.and_eq_true_iff.1 hb
    split at h
    · cases h
    · next length source hp =>
      cases h
      exact .start hk hs ha hb hp
  · next hb =>
    cases h
    exact .retire hk hs (by simpa using hb)

theorem echoed_getElem? {i : Nat} {k : Worker} {latency : Duration}
    (hk : w.workers[i]? = some k) : (w.echoed i k latency).workers[i]? = some k.advance := by
  obtain ⟨hi, -⟩ := List.getElem?_eq_some_iff.1 hk
  simp [echoed, hi]

theorem work_internalSteps {i : Nat} {k : Worker} {t : Duration} (hk : w.workers[i]? = some k)
    (hs : k.stage = .ready ∨ ∃ r, k.stage = .busy (some (t, r))) (ht : t ≤ w.now)
    (h : w.work set i = .ok w') : Relation.TransGen (InternalStep set) w w' := by
  simp only [work, hk] at h
  rcases hs with hs | ⟨r, hs⟩
  · rw [hs] at h
    exact .single (proceed_internalStep hk hs h)
  · rw [hs] at h
    cases r with
    | ok latency =>
      exact .head (.echoed hk hs ht) (.single (proceed_internalStep (echoed_getElem? hk) rfl h))
    | error e =>
      cases h
      exact .single (.broken hk hs ht)

theorem resolve_internalStep {i : Nat} {c : Client} {t : Duration} {r : Except ClientError Duration}
    (hd : w.dials[i]? = some ⟨c, some (t, r)⟩) (ht : t ≤ w.now) :
    InternalStep set w (w.resolve i) := by
  simp only [resolve, hd]
  cases r with
  | ok latency => exact .arrived hd ht
  | error e => exact .declined hd ht

theorem apply_due {t t' : Duration} {m : Move} {b : Option Wakeup} (ht : t' ≤ t)
    (hd : Due q w t' m) (h : (w.tick t).apply set q m = .ok (w', b)) :
    (b = none ∧ (Relation.TransGen (InternalStep set) (w.tick t) w' ∨
      w' = w.tick t ∧ m = .ended ∧ q.ended (w.tick t) = false)) ∨
      ∃ wakeup, b = some wakeup ∧ Wakes q (w.tick t) w' wakeup := by
  cases m with
  | signal =>
    cases h
    obtain ⟨s, rest, hs⟩ := hd
    exact .inl ⟨rfl, .inl (.single (.signal (w := w.tick t) hs ht))⟩
  | dial i =>
    cases h
    obtain ⟨c, r, hd⟩ := hd
    exact .inl ⟨rfl, .inl (.single (resolve_internalStep (w := w.tick t) hd ht))⟩
  | work i =>
    obtain ⟨k, hk, hs⟩ := hd
    obtain ⟨w1, hw, he⟩ := map_eq_ok.1 h
    cases he
    exact .inl ⟨rfl, .inl (work_internalSteps (w := w.tick t) hk hs ht hw)⟩
  | join i =>
    obtain ⟨k, hk, hs, hj⟩ := hd
    have hk' : (w.tick t).workers[i]? = some k := hk
    simp only [apply, hk'] at h
    cases h
    exact .inr ⟨_, rfl, .joined hk' hs hj⟩
  | mail =>
    obtain ⟨hq, hf⟩ := hd
    simp only [apply] at h
    split at h
    · next f rest hf =>
      cases h
      exact .inr ⟨_, rfl, .mail hq hf⟩
    · next hn => exact absurd hn hf
  | alarm =>
    cases h
    exact .inr ⟨_, rfl, .alarm hd ht⟩
  | ended =>
    cases h
    by_cases hq : q.ended (w.tick t) = true
    · exact .inr ⟨.ended, if_pos hq, .ended hq⟩
    · exact .inl ⟨if_neg hq, .inr ⟨rfl, rfl, by simpa using hq⟩⟩

/-- **A step taken apart.** At some instant from now on it is internal or wakes the controller. -/
theorem step_ok {b : Option Wakeup} (h : w.step set q = .ok (w', b)) :
    ∃ t, w.now ≤ t ∧ ((b = none ∧ InternalSteps set (w.tick t) w') ∨
      ∃ wakeup, b = some wakeup ∧ Wakes q (w.tick t) w' wakeup) := by
  unfold step at h
  split at h
  · cases h
  · next t m hc =>
    obtain ⟨hn, t', ht, hd⟩ := choose_due hc
    refine ⟨t, hn, ?_⟩
    obtain ⟨hb, hs | ⟨rfl, -⟩⟩ | hr := apply_due ht hd h
    · exact .inl ⟨hb, hs.to_reflTransGen⟩
    · exact .inl ⟨hb, .refl⟩
    · exact .inr hr

/-! ## A whole wait -/

/-- Something the clock alone does not change. -/
def Timeless (I : World → Prop) : Prop := ∀ w t, I w → I (w.tick t)

theorem InternalSteps.preserve {I : World → Prop} (hI : ∀ w w', I w → InternalStep set w w' → I w')
    (hw : I w) (h : InternalSteps set w w') : I w' := by
  induction h with
  | refl => exact hw
  | tail _ hs ih => exact hI _ _ ih hs

/-- **A wait keeps what its steps keep.** `I` holds while the controller waits in a
state, and `Q` of its result. -/
theorem attend_rule {σ ρ : Type} {watch : Watch σ ρ} {I : σ → World → Prop}
    {Q : World → ρ → Prop} (htick : ∀ s, Timeless (I s))
    (hinternal : ∀ s w w', I s w → InternalStep set w w' → I s w')
    (hwakeup : ∀ s w w' b, I s w → Wakes (watch.waiting s) w w' b →
      match watch.react s b w' with
      | (w'', .inl s') => I s' w''
      | (w'', .inr r) => Q w'' r)
    {fuel : Nat} {s : σ} {r : ρ} (hw : I s w) (h : w.attend set watch fuel s = .ok (w', r)) :
    Q w' r := by
  induction fuel generalizing s w with
  | zero => cases h
  | succ fuel ih =>
    simp only [attend] at h
    split at h
    · cases h
    · next w1 hs =>
      obtain ⟨t, -, ⟨-, hst⟩ | ⟨wakeup, hb, -⟩⟩ := step_ok hs
      · exact ih (InternalSteps.preserve (hinternal s) (htick s w t hw) hst) h
      · cases hb
    · next w1 wakeup hs =>
      obtain ⟨t, -, ⟨hb, -⟩ | ⟨wakeup', hb, hr⟩⟩ := step_ok hs
      · cases hb
      · cases hb
        have hq := hwakeup s _ _ _ (htick s w t hw) hr
        split at h
        · next w2 s' he =>
          rw [he] at hq
          exact ih hq h
        · next w2 r' he =>
          rw [he] at hq
          cases h
          exact hq

end World

end EchoLoad
