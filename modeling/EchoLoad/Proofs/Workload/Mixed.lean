import EchoLoad.Proofs.Workload.FixedPool
import EchoLoad.Workload.Mixed
/-!
A mixed run in the books. Main statement: `run_ledger`.
-/

namespace EchoLoad.Mixed

variable {set : Setting} {fuel : Nat} {s : MixedSettings} {output : Output} {a : Account}

theorem spawnAll_ok {clients : List Client} {source : Source} {w w' : World}
    (h : spawnAll set s clients source w = .ok w') :
    ∃ ks : List Worker, w' = { w with workers := w.workers ++ ks } ∧
      ks.map Worker.client = clients ∧
      ∀ k ∈ ks, k.stage = .ready ∧ k.plan.payload = s.payload := by
  induction clients generalizing source w with
  | nil =>
    cases h
    exact ⟨[], by simp, rfl, by simp⟩
  | cons c clients ih =>
    unfold spawnAll at h
    split at h
    · cases h
    · next n source' _ =>
      obtain ⟨ks, rfl, rfl, hks⟩ := ih h
      refine ⟨w.newLoop set { payload := s.payload, rounds := some n } c :: ks,
        by simp [World.spawn], rfl, fun k hk => ?_⟩
      rcases List.mem_cons.1 hk with rfl | hk
      · exact ⟨rfl, rfl⟩
      · exact hks k hk

theorem spawnAll_ledger {clients : List Client} {source : Source} {w w' : World}
    (hl : Ledger set.options { a with held := clients ++ a.held } w) (hq : w.NoBatch)
    (hopen : ∀ c ∈ clients, c.isOpen = true)
    (h : spawnAll set s clients source w = .ok w') : Ledger set.options a w' ∧ w'.NoBatch := by
  induction clients generalizing source w with
  | nil => cases h; exact ⟨hl, hq⟩
  | cons c clients ih =>
    unfold spawnAll at h
    split at h
    · cases h
    · exact ih (Ledger.spawn (a := a) hl (hopen c List.mem_cons_self))
        ⟨hq.dials, hq.connected, hq.refusals⟩ (fun x hx => hopen x (List.mem_cons_of_mem _ hx)) h

/-- The pool does its rounds, and is in hand again with the first failure, if there was one. -/
theorem rounds_ledger {clients back : List Client} {joins : Nat} {failure : Option Failure}
    {w w1 w2 : World} (h : Pooled set.options { held := clients, joins } w)
    (hspawn : spawnAll set s clients set.source { w with active := !w.stopped } = .ok w1)
    (hjoin : w1.joinAll set fuel none = .ok (w2, back, failure)) :
    Pooled set.options { held := back, received := failure.toList, joins }
      w2.cancel.takeMessages.2 := by
  let start : World := { w with active := !w.stopped }
  have hstart : Ledger set.options { held := clients ++ [], joins } start := by
    rw [List.append_nil]
    exact h.ledger.congr h.ledger.custody rfl rfl rfl rfl rfl
  obtain ⟨hl, hq⟩ := spawnAll_ledger (a := { joins }) hstart
    ⟨h.noBatch.dials, h.noBatch.connected, h.noBatch.refusals⟩ (h.isOpen rfl) hspawn
  have hback := crew_ledger (a := { joins }) ⟨hl, hq, rfl, rfl, rfl⟩ hjoin
  exact ⟨hback.ledger.takeMessages.congr hback.ledger.custody rfl rfl rfl rfl rfl,
    ⟨hback.noBatch.dials, hback.noBatch.connected, hback.noBatch.refusals⟩, hback.workers,
    hback.failures, rfl, rfl⟩

/-- **All that a mixed run with a report has done.** -/
theorem run_parts {session session' : Session} {r : MixedReport}
    (h : run set fuel s output session = .ok (session', .ok r)) :
    ∃ session1 clients joins w1 w2 back failure n,
      session.establish set fuel s.clients s.batchSize output = .ok (session1, .ok (clients, joins)) ∧
      spawnAll set s clients set.source
        { session1.world with active := !session1.world.stopped } = .ok w1 ∧
      w1.joinAll set fuel none = .ok (w2, back, failure) ∧
      w2.cancel.takeMessages.2.closeAll set fuel s.batchSize 0 back = .ok (session'.world, n) ∧
      r = { pool := back.length, joinSamples := joins, rounds := Client.totalRounds back
            totalBytes := Client.totalBytes back
            messageSamples := w2.cancel.takeMessages.1.length
            failure := failure.map (·.error), interrupted := session'.world.stopped } := by
  obtain ⟨⟨session1, established⟩, hestablish, h⟩ := bind_eq_ok.1 h
  cases established with
  | error e => cases h
  | ok pool =>
    obtain ⟨clients, joins⟩ := pool
    obtain ⟨w1, hspawn, h⟩ := bind_eq_ok.1 h
    obtain ⟨⟨w2, back, failure⟩, hjoin, h⟩ := bind_eq_ok.1 h
    dsimp only at h
    split at h
    · cases h
    · next session2 hwrite =>
      obtain ⟨⟨w3, n⟩, hclose, h⟩ := bind_eq_ok.1 h
      rw [Session.writeSeries_world hwrite] at hclose
      cases h
      exact ⟨session1, clients, joins, w1, w2, back, failure, n, hestablish, hspawn, hjoin, hclose,
        rfl⟩

/-- **A whole mixed run.** A report comes with a closed pool and tells the first failure of all. -/
theorem run_ledger {session session' : Session} {result : Except RunError MixedReport}
    (hw : session.world.Fresh) (h : run set fuel s output session = .ok (session', result)) :
    (∀ r, result = .ok r → (∃ a, Settled set.options a session'.world) ∧
      r.failure = session'.world.failedRounds.head?.map (·.error)) ∧
      ∀ e, result = .error e → Fails set.options session'.world e := by
  obtain ⟨⟨session1, established⟩, he, h⟩ := bind_eq_ok.1 h
  obtain ⟨hok, herror⟩ := Session.establish_ledger hw he
  cases established with
  | error e =>
    cases h
    exact ⟨(fun r h' => by cases h'), fun e' h' => by cases h'; exact herror e rfl⟩
  | ok pool =>
    obtain ⟨clients, joins⟩ := pool
    have hpool := hok clients joins rfl
    obtain ⟨w1, hs, h⟩ := bind_eq_ok.1 h
    obtain ⟨⟨w2, clients2, failure⟩, hj, h⟩ := bind_eq_ok.1 h
    have hback := rounds_ledger hpool hs hj
    dsimp only at h
    split at h
    · cases h
      exact ⟨(fun r h' => by cases h'), fun e' h' => by cases h'; exact hback.abandon _⟩
    · next session2 hwrite =>
      have hw2 : session2.world = _ := Session.writeSeries_world hwrite
      obtain ⟨⟨w3, n⟩, hc, h⟩ := bind_eq_ok.1 h
      cases h
      rw [hw2] at hc
      obtain ⟨hsettled, hrounds⟩ := hback.settle hc
      refine ⟨fun r h' => ?_, fun e h' => by cases h'⟩
      cases h'
      refine ⟨hsettled, ?_⟩
      dsimp only
      rw [hrounds, hback.first]
      cases failure <;> rfl

theorem run_attempts {session session' : Session} {r : MixedReport} (hw : session.world.Fresh)
    (h : run set fuel s output session = .ok (session', .ok r)) :
    session'.world.failedAttempts = [] := by
  obtain ⟨session1, clients, joins, w1, w2, back, failure, n, hestablish, hspawn, hjoin, hclose,
    -⟩ := run_parts h
  have hpool := (Session.establish_ledger hw hestablish).1 clients joins rfl
  exact (rounds_ledger hpool hspawn hjoin).settle_attempts hclose

end EchoLoad.Mixed
