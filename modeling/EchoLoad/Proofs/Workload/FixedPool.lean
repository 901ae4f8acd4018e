import EchoLoad.Proofs.Settled
/-!
A workload with a fixed pool in the books. The pool is established, its clients run their loops
together and come back, and at the end they are closed or given up. Main statements:
`establish_ledger`, `crew_ledger` and `Pooled.settle`.
-/

namespace EchoLoad

/-- The books of a fixed pool while all its clients are in hand. -/
structure Pooled (o : ClientOptions) (a : Account) (w : World) : Prop where
  ledger : Ledger o a w
  noBatch : w.NoBatch
  workers : w.workers = []
  /-- No failure is on its way before the first is received. -/
  failures : a.received = [] → w.failures = []
  refused : a.refused = []
  closed : a.closed = 0

/-- How a run with a fixed pool fails, and what becomes of the pool: an output error finds it in
hand unless an attempt had failed before. -/
inductive Fails (o : ClientOptions) (w : World) : RunError → Prop
  | closed {e : RunError} {a : Account} : Settled o a w → w.failedAttempts ≠ [] → Fails o w e
  | abandoned {x : IoError} {a : Account} : Abandoned o a w → w.failedAttempts = [] →
      Fails o w (.output x)

theorem Ledger.held_isOpen {o : ClientOptions} {a : Account} {w : World} (h : Ledger o a w)
    (hr : w.failedRounds = []) : ∀ c ∈ a.held, c.isOpen = true := by
  intro c hc
  obtain ⟨conn, es, hv, hrest⟩ := h.custody.at_hand hc
  cases hrest with
  | clean rounds hh => exact hh.isOpen
  | failed rounds e =>
    have hf : w.HasFailed c.id := World.hasFailed_iff.2 ⟨e, by
      rw [show fiber Event.client c.id w.events = _ from congrArg View.events hv]
      exact List.mem_cons_self⟩
    obtain ⟨f, hf, -⟩ := hf
    rw [hr] at hf
    cases hf

namespace Pooled

variable {set : Setting} {o : ClientOptions} {a : Account} {w w' : World} {fuel : Nat}

theorem attempts (h : Pooled o a w) : w.failedAttempts = [] :=
  (h.noBatch.failedAttempts_eq h.ledger).trans h.refused

theorem first (h : Pooled o a w) : w.failedRounds.head? = a.received.head? := by
  rw [h.ledger.rounds]
  cases hr : a.received with
  | nil => rw [h.failures hr, List.append_nil]
  | cons f rest => rfl

theorem isOpen (h : Pooled o a w) (hr : a.received = []) : ∀ c ∈ a.held, c.isOpen = true :=
  h.ledger.held_isOpen (by rw [h.ledger.rounds, hr, h.failures hr, List.append_nil])

theorem sleep {d : Duration} (h : Pooled set.options a w) (hs : w.sleep set fuel d = .ok w') :
    Pooled set.options a w' := by
  obtain ⟨hl, hq⟩ := World.sleep_ledger h.ledger h.noBatch hs
  obtain ⟨hw, hf⟩ := World.sleep_noneStarted hs h.workers
  exact ⟨hl, hq, hw, fun hr => hf.trans (h.failures hr), h.refused, h.closed⟩

theorem takeMessages (h : Pooled o a w) : Pooled o a w.takeMessages.2 :=
  ⟨h.ledger.takeMessages, ⟨h.noBatch.dials, h.noBatch.connected, h.noBatch.refusals⟩, h.workers,
    h.failures, h.refused, h.closed⟩

theorem takeJoins (h : Pooled o a w) :
    Pooled o { a with joins := a.joins + w.takeJoins.1.length } w.takeJoins.2 :=
  ⟨h.ledger.takeJoins, ⟨h.noBatch.dials, h.noBatch.connected, h.noBatch.refusals⟩, h.workers,
    h.failures, h.refused, h.closed⟩

theorem settle {batch n : Nat} {pause : Duration} (h : Pooled set.options a w)
    (hc : w.closeAll set fuel batch pause a.held = .ok (w', n)) :
    (∃ a, Settled set.options a w') ∧ w'.failedRounds = w.failedRounds := by
  obtain ⟨hl, hq, hidle⟩ := World.closeAll_ledger (a := a) h.ledger h.noBatch hc
  obtain ⟨hw, hf⟩ := hidle h.workers
  exact ⟨⟨_, hl, rfl, hq, hw⟩, by rw [hl.rounds, h.ledger.rounds, hf]⟩

theorem settle_attempts {batch n : Nat} {pause : Duration} (h : Pooled set.options a w)
    (hc : w.closeAll set fuel batch pause a.held = .ok (w', n)) : w'.failedAttempts = [] := by
  obtain ⟨hl, hq, -⟩ := World.closeAll_ledger (a := a) h.ledger h.noBatch hc
  exact (hq.failedAttempts_eq hl).trans h.refused

theorem abandon (h : Pooled o a w) (x : IoError) : Fails o (w.release a.held) (.output x) :=
  .abandoned ⟨w, h.ledger, h.noBatch, h.workers, h.closed, rfl⟩ h.attempts

end Pooled

/-- What a pool takes with it into its loops. -/
structure Pooled.Crew (o : ClientOptions) (a : Account) (w : World) : Prop where
  ledger : Ledger o { a with held := [] } w
  noBatch : w.NoBatch
  received : a.received = []
  refused : a.refused = []
  closed : a.closed = 0

section Running

variable {set : Setting} {a : Account} {w w' : World} {fuel : Nat}

/-- **A crew.** Its clients come back with the first failure when all loops have ended. -/
theorem crew_ledger {limit : Option Duration} {clients : List Client} {failure : Option Failure}
    (h : Pooled.Crew set.options a w) (hj : w.joinAll set fuel limit = .ok (w', clients, failure)) :
    Pooled set.options { a with held := clients, received := failure.toList } w' := by
  obtain ⟨hl, hq, hw, hf⟩ := World.joinAll_ledger h.ledger h.noBatch hj
  rw [h.received] at hl
  refine ⟨hl, hq, hw, fun hnone => hf ?_, h.refused, h.closed⟩
  simpa using hnone

theorem Session.establish_ledger {clients batch : Nat} {output : Output} {s s' : Session}
    {result : Except RunError (List Client × Nat)} (hs : s.world.Fresh)
    (h : s.establish set fuel clients batch output = .ok (s', result)) :
    (∀ held joins, result = .ok (held, joins) → Pooled set.options { held, joins } s'.world) ∧
      ∀ e, result = .error e → Fails set.options s'.world e := by
  obtain ⟨⟨w, pool⟩, hp, he⟩ := bind_eq_ok.1 h
  obtain ⟨refused, hl, hq, hfailure, hidle⟩ :=
    World.growPool_ledger (show Ledger set.options { held := ({} : PoolOutcome).clients } _ from
      Ledger.of_fresh hs) hs.noBatch (congrArg List.length hs.connections) rfl hp
  obtain ⟨hw, hf⟩ := hidle hs.workers
  have hattempts : w.failedAttempts = refused := hq.failedAttempts_eq hl
  dsimp only at he
  cases hpool : pool.failure with
  | some e =>
    rw [hpool] at he hfailure
    obtain ⟨⟨w1, n⟩, hc, he⟩ := bind_eq_ok.1 he
    obtain ⟨hl1, hq1, hrests1⟩ := World.closeAll_ledger (a := { refused }) hl hq hc
    have hsettled : Settled set.options _ w1.takeJoins.2 :=
      ⟨hl1.takeJoins, rfl, ⟨hq1.dials, hq1.connected, hq1.refusals⟩, (hrests1 hw).1⟩
    have hrefused : w1.takeJoins.2.failedAttempts ≠ [] := by
      have h1 : w1.failedAttempts = refused := hq1.failedAttempts_eq hl1
      intro h2
      rw [show refused = [] from h1.symm.trans h2] at hfailure
      cases hfailure
    dsimp only at he
    split at he
    · cases he
      exact ⟨nofun, fun e h => by cases h; exact .closed hsettled hrefused⟩
    · next s1 hwrite =>
      have hw1 : s1.world = _ := Session.writeSeries_world hwrite
      cases he
      rw [hw1]
      exact ⟨nofun, fun e h => by cases h; exact .closed hsettled hrefused⟩
  | none =>
    rw [hpool] at he hfailure
    obtain rfl : refused = [] := by simpa using hfailure.symm
    have hpooled : Pooled set.options { held := pool.clients } w :=
      ⟨hl, hq, hw, fun _ => hf.trans hs.failures, rfl, rfl⟩
    dsimp only at he
    split at he
    · cases he
      exact ⟨nofun, fun e h => by cases h; exact hpooled.takeJoins.abandon _⟩
    · next s1 hwrite =>
      have hw1 : s1.world = _ := Session.writeSeries_world hwrite
      cases he
      rw [hw1]
      refine ⟨fun held joins h => ?_, nofun⟩
      cases h
      simpa using hpooled.takeJoins

end Running

end EchoLoad
