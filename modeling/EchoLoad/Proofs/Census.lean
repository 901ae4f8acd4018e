import EchoLoad.Proofs.Fair
import EchoLoad.Proofs.Settled
/-!
How many attempts succeed. When no attempt is in flight each client has been attempted once, and
what came of it is what its peer makes of it, so the successes and failures in the journal can be
counted from the peers alone. Main statements: `census_of_resolved` and `Fair.closings_eq_joins`.
-/

namespace EchoLoad

/-! ## The events of one client -/

theorem countP_lived_isAttempt (n rounds : Nat) : (lived n rounds).countP Event.isAttempt = 1 := by
  induction rounds with
  | zero => rfl
  | succ rounds ih => simp [lived, ih, Event.isAttempt]

theorem countP_lived_failedAttempt (n rounds : Nat) :
    (lived n rounds).countP (·.failedAttempt?.isSome) = 0 := by
  induction rounds with
  | zero => rfl
  | succ rounds ih =>
    rw [lived, List.countP_cons, List.countP_cons, ih]
    rfl

/-- The events of a client whose attempt has ended. -/
inductive Decided (n : Nat) : List Event → Prop
  | declined (e : ClientError) : Decided n [.resolved n (some e), .attempt n]
  | lived (later : List Event) (rounds : Nat) :
      (∀ e ∈ later, e.isAttempt = false ∧ e.isJoin = false ∧ e.failedAttempt? = none) →
      Decided n (later ++ lived n rounds)

theorem AtRest.decided {n : Nat} {c : Client} {conn : Connection} {es : List Event}
    (h : AtRest n c conn es) : Decided n es := by
  cases h with
  | clean rounds => exact .lived [] rounds (by simp)
  | failed rounds e =>
    exact .lived [_, _] rounds (by simp [Event.isAttempt, Event.isJoin, Event.failedAttempt?])

theorem Placed.decided {o : ClientOptions} {n : Nat} {v : View} (h : Placed o n v)
    (hconn : v.connection ≠ none) (hd : v.dials = []) : Decided n v.events := by
  cases h with
  | absent => exact absurd rfl hconn
  | dialing => cases hd
  | declined => exact .declined _
  | working hw =>
    cases hw with
    | ready rounds => exact .lived [] rounds (by simp)
    | busy rounds =>
      exact .lived [_] rounds (by simp [Event.isAttempt, Event.isJoin, Event.failedAttempt?])
    | done _ hr => exact hr.decided
  | held hr => exact hr.decided
  | past ho =>
    cases ho with
    | closed rounds =>
      exact .lived [_] rounds (by simp [Event.isAttempt, Event.isJoin, Event.failedAttempt?])
    | failed rounds e =>
      exact .lived [_, _] rounds (by simp [Event.isAttempt, Event.isJoin, Event.failedAttempt?])

theorem Decided.counts {n : Nat} {es : List Event} (h : Decided n es) :
    es.countP Event.isAttempt = 1 ∧
      ((.resolved n none ∈ es ∧ es.countP Event.isJoin = 1 ∧
          es.countP (·.failedAttempt?.isSome) = 0) ∨
        ((∃ e, .resolved n (some e) ∈ es) ∧ es.countP Event.isJoin = 0 ∧
          es.countP (·.failedAttempt?.isSome) = 1)) := by
  cases h with
  | declined e =>
    exact ⟨rfl, .inr ⟨⟨e, List.mem_cons_self⟩, rfl, rfl⟩⟩
  | lived later rounds hlater =>
    have hattempt : later.countP Event.isAttempt = 0 :=
      List.countP_eq_zero.2 fun e he => by simp [(hlater e he).1]
    have hjoin : later.countP Event.isJoin = 0 :=
      List.countP_eq_zero.2 fun e he => by simp [(hlater e he).2.1]
    have hfailed : later.countP (·.failedAttempt?.isSome) = 0 :=
      List.countP_eq_zero.2 fun e he => by simp [(hlater e he).2.2]
    refine ⟨?_, .inl ⟨List.mem_append_right _ (mem_lived_resolved n rounds), ?_, ?_⟩⟩
    · rw [List.countP_append, hattempt, countP_lived_isAttempt]
    · rw [List.countP_append, hjoin, countP_lived_isJoin]
    · rw [List.countP_append, hfailed, countP_lived_failedAttempt]

/-! ## All clients -/

namespace World

def attempts (w : World) : Nat := w.events.countP Event.isAttempt

def joins (w : World) : Nat := w.events.countP Event.isJoin

variable {w : World}

theorem length_failedAttempts :
    w.failedAttempts.length = w.events.countP (·.failedAttempt?.isSome) := by
  rw [failedAttempts, List.length_filterMap_eq_countP, List.countP_reverse]

/-- The events of a client whose attempt was made and is not in flight. -/
theorem decided_of_lt {o : ClientOptions} {held : List Client} (hc : Custody o held w)
    (hd : w.dials = []) {n : Nat} (hn : n < w.network.connections.length) :
    Decided n (fiber Event.client n w.events) :=
  (hc n).decided (by simpa [view] using hn) (by simp [view, hd])

theorem attempts_eq {o : ClientOptions} {held : List Client} (hc : Custody o held w)
    (hd : w.dials = []) : w.attempts = w.network.connections.length := by
  rw [attempts, countP_eq_sum_fibers Event.isAttempt _ fun _ => hc.client_lt]
  rw [Finset.sum_congr rfl fun n hn => (decided_of_lt hc hd (Finset.mem_range.1 hn)).counts.1]
  simp

/-- Every attempt has either succeeded or failed. -/
theorem joins_add_failures {o : ClientOptions} {held : List Client} (hc : Custody o held w)
    (hd : w.dials = []) :
    w.joins + w.failedAttempts.length = w.network.connections.length := by
  have hlt : ∀ e ∈ w.events, e.client < w.network.connections.length := fun _ => hc.client_lt
  have hone : ∀ n ∈ Finset.range w.network.connections.length,
      (fiber Event.client n w.events).countP Event.isJoin +
        (fiber Event.client n w.events).countP (·.failedAttempt?.isSome) = 1 := by
    intro n hn
    obtain ⟨-, ⟨-, hjoin, hfailed⟩ | ⟨-, hjoin, hfailed⟩⟩ :=
      (decided_of_lt hc hd (Finset.mem_range.1 hn)).counts
    · rw [hjoin, hfailed]
    · rw [hjoin, hfailed]
  rw [joins, length_failedAttempts, countP_eq_sum_fibers Event.isJoin _ hlt,
    countP_eq_sum_fibers _ _ hlt, ← Finset.sum_add_distrib, Finset.sum_congr rfl hone]
  simp

/-- **The census.** If every attempt that has ended has come to what its peer makes of it, then the
attempts that succeeded and those that failed can be counted from the peers. -/
theorem census_of_resolved {o : ClientOptions} {held : List Client} {accepts : Nat → Bool}
    (hc : Custody o held w) (hd : w.dials = [])
    (h : ∀ n failure, .resolved n failure ∈ w.events → (failure = none ↔ accepts n = true)) :
    w.attempts = w.network.connections.length ∧
      w.joins = (List.range w.network.connections.length).countP accepts ∧
      w.failedAttempts.length =
        (List.range w.network.connections.length).countP (fun n => !accepts n) := by
  have hlt : ∀ e ∈ w.events, e.client < w.network.connections.length := fun _ => hc.client_lt
  have hone : ∀ n ∈ Finset.range w.network.connections.length,
      (fiber Event.client n w.events).countP Event.isJoin =
        (if accepts n = true then 1 else 0) ∧
      (fiber Event.client n w.events).countP (·.failedAttempt?.isSome) =
        (if (!accepts n) = true then 1 else 0) := by
    intro n hn
    have hdecided := decided_of_lt hc hd (Finset.mem_range.1 hn)
    obtain ⟨-, ⟨hr, hjoin, hfailed⟩ | ⟨⟨e, hr⟩, hjoin, hfailed⟩⟩ := hdecided.counts
    · have ha := (h n none (mem_fiber.1 hr).1).1 rfl
      simp [hjoin, hfailed, ha]
    · have ha : accepts n = false := by
        have hiff := h n (some e) (mem_fiber.1 hr).1
        simpa using hiff
      simp [hjoin, hfailed, ha]
  refine ⟨attempts_eq hc hd, ?_, ?_⟩
  · rw [joins, countP_range_eq_sum, countP_eq_sum_fibers Event.isJoin _ hlt]
    exact Finset.sum_congr rfl fun n hn => (hone n hn).1
  · rw [length_failedAttempts, countP_range_eq_sum, countP_eq_sum_fibers _ _ hlt]
    exact Finset.sum_congr rfl fun n hn => (hone n hn).2

theorem Fair.census {o : ClientOptions} {size : PayloadSize} {peer : Nat → Peer}
    {held : List Client} (h : w.Fair o size peer) (hc : Custody o held w) (hd : w.dials = []) :
    w.attempts = w.network.connections.length ∧
      w.joins = (List.range w.network.connections.length).countP (fun n => (peer n).accepts o) ∧
      w.failedAttempts.length =
        (List.range w.network.connections.length).countP (fun n => !(peer n).accepts o) :=
  census_of_resolved hc hd h.resolved

/-- When a run in which no round failed is over, whoever connected has been closed. -/
theorem Fair.closings_eq_joins {o : ClientOptions} {size : PayloadSize} {peer : Nat → Peer}
    {a : Account} (h : w.Fair o size peer) (hs : Settled o a w) :
    w.events.countP Event.isClosing = w.joins := by
  have hnone : (List.range w.network.connections.length).countP (fun n => w.HasFailed n) = 0 := by
    refine List.countP_eq_zero.2 fun n _ => ?_
    simp [HasFailed, h.clean]
  have hcount := hs.count.2
  rwa [hnone, Nat.add_zero] at hcount

end World

end EchoLoad
