import EchoLoad.Proofs.Failures
import EchoLoad.Proofs.Workload.Latched
import EchoLoad.Proofs.Workload.PhaseRuns
import EchoLoad.Run
/-!
Outcome, failure text and result of a run. The modes fill the summary differently, and an error of
the workload overwrites part of it; what comes out agrees with the result and with what has happened.
Main statement: `outcome_agrees`.
-/

namespace EchoLoad

/-! ## Labels -/

theorem RampEnd.label_eq_failed {ending : RampEnd} :
    ending.label = "failed" ↔ ending.IsFailure := by
  cases ending with
  | failed point e => exact iff_of_true rfl ⟨point, e, rfl⟩
  | capped | interrupted => exact iff_of_false (by decide) fun ⟨_, _, h⟩ => by cases h

theorem RampEnd.label_eq_interrupted {ending : RampEnd} :
    ending.label = "interrupted" ↔ ending = .interrupted := by
  cases ending with
  | failed point e => exact iff_of_false (show "failed" ≠ "interrupted" by decide) nofun
  | capped => exact iff_of_false (by decide) nofun
  | interrupted => exact iff_of_true rfl rfl

theorem outcomeLabel_eq_failed {failed interrupted : Bool} :
    outcomeLabel failed interrupted = "failed" ↔ failed = true := by
  cases failed <;> cases interrupted <;> decide

theorem outcomeLabel_eq_interrupted {failed interrupted : Bool} :
    outcomeLabel failed interrupted = "interrupted" ↔ failed = false ∧ interrupted = true := by
  cases failed <;> cases interrupted <;> decide

/-! ## One workload summed up -/

/-- What the outcome in a summary means for a run that has left this world and this result. -/
structure RunSummary.Agrees (w : World) (mode : Mode) (s : RunSummary)
    (result : Except RunError Unit) : Prop where
  outcome : s.outcome ≠ none
  failure : s.failure ≠ none ↔ s.outcome = some "failed"
  /-- The failure text is that of the error. -/
  error : ∀ e, result = .error e → s.outcome = some "failed" ∧ s.failure = some e.message
  /-- A pool that failed is an error. -/
  pool : mode ≠ .ramp → s.outcome = some "failed" → ∃ e, result = .error e
  /-- A ramp that failed is none, unless it cannot be written down. -/
  ramp : mode = .ramp → ∀ e, result = .error e → ∃ x, e = .output x
  interrupted : s.outcome = some "interrupted" →
    w.stopped = true ∧ w.failedAttempts = [] ∧ w.failedRounds = []

namespace RunSummary

variable {w : World} {mode : Mode} {s : RunSummary}

theorem failed_agrees {e : RunError} (he : mode = .ramp → ∃ x, e = .output x) :
    (s.failed e).Agrees w mode (.error e) := by
  refine ⟨nofun, iff_of_true nofun rfl, ?_, fun _ _ => ⟨e, rfl⟩, ?_, fun h => ?_⟩
  · rintro e' ⟨⟩
    exact ⟨rfl, rfl⟩
  · rintro hmode e' ⟨⟩
    exact he hmode
  · have hne : "failed" ≠ "interrupted" := by decide
    exact absurd (Option.some.inj h) hne

theorem ofRamp_failure {r : RampReport} (hs : s.failure = none) :
    (s.ofRamp r).failure ≠ none ↔ r.ending.IsFailure := by
  unfold ofRamp
  cases h : r.ending with
  | failed point e => exact iff_of_true nofun ⟨point, e, rfl⟩
  | capped | interrupted =>
    refine iff_of_false (fun hne => hne hs) ?_
    rintro ⟨point, e, he⟩
    cases he

theorem ofRamp_agrees {r : RampReport} (hs : s.failure = none) (htells : r.ending.Tells w)
    (hlatched : r.ending = .interrupted → w.stopped = true) :
    (s.ofRamp r).Agrees w .ramp (.ok ()) := by
  refine ⟨nofun, ?_, nofun, fun h => absurd rfl h, fun _ => nofun, fun h => ?_⟩
  · rw [ofRamp_failure hs, ← RampEnd.label_eq_failed]
    exact Option.some_inj.symm
  · have hending := RampEnd.label_eq_interrupted.1 (Option.some.inj h)
    rw [hending] at htells
    exact ⟨hlatched hending, htells⟩

/-- The report of a fixed pool no client of which has failed. -/
theorem clean_agrees (interrupted : Bool)
    (houtcome : s.outcome = some (outcomeLabel false interrupted)) (hs : s.failure = none)
    (hlatched : interrupted = true → w.stopped = true) (hattempts : w.failedAttempts = [])
    (hrounds : w.failedRounds = []) : s.Agrees w mode (.ok ()) := by
  have hclean : s.outcome ≠ some "failed" := by
    rw [houtcome, ne_eq, Option.some_inj, outcomeLabel_eq_failed]
    decide
  refine ⟨by simp [houtcome], iff_of_false (fun hne => hne hs) hclean, nofun,
    fun _ h => absurd h hclean, fun _ => nofun, fun h => ?_⟩
  rw [houtcome, Option.some_inj, outcomeLabel_eq_interrupted] at h
  exact ⟨hlatched h.2, hattempts, hrounds⟩

/-- **A fixed pool summed up.** A report of a failed client becomes an error; that of a clean pool
stands. -/
theorem pool_agrees {ρ : Type} {take : RunSummary → ρ → RunSummary} {pool : ρ → Nat}
    {failure : ρ → Option ClientError} {finished : Except RunError ρ} (hmode : mode ≠ .ramp)
    (htake : ∀ r, finished = .ok r → failure r = none → (take s r).Agrees w mode (.ok ())) :
    (s.conclude take (fun r => poolResult (pool r) (failure r)) finished).1.Agrees w mode
      (s.conclude take (fun r => poolResult (pool r) (failure r)) finished).2 := by
  have hfailed : ∀ (s : RunSummary) (e : RunError), (s.failed e).Agrees w mode (.error e) :=
    fun s e => failed_agrees fun h => absurd h hmode
  unfold conclude
  cases finished with
  | error e => exact hfailed s e
  | ok r =>
    dsimp only
    cases hf : failure r with
    | none => exact htake r rfl hf
    | some e => exact hfailed (take s r) (.echo (pool r) e)

end RunSummary

/-! ## The run -/

theorem Ramp.run_error {set : Setting} {fuel : Nat} {s : RampSettings} {o : Output}
    {session session' : Session} {e : RunError}
    (h : run set fuel s o session = .ok (session', .error e)) : ∃ x, e = .output x := by
  obtain ⟨⟨w1, r1, ending1⟩, -, h⟩ := bind_eq_ok.1 h
  obtain ⟨⟨w2, clients, ending⟩, -, h⟩ := bind_eq_ok.1 h
  obtain ⟨⟨w3, closed⟩, -, h⟩ := bind_eq_ok.1 h
  dsimp only at h
  split at h
  · cases h
    exact ⟨_, rfl⟩
  · split at h
    · cases h
      exact ⟨_, rfl⟩
    · cases h

namespace Run

variable {env : Surroundings} {fuel : Nat} {c : Config} {o : Output} {session session' : Session}
  {s s' : RunSummary} {result : Except RunError Unit}

theorem workload_agrees (hw : session.world.Fresh)
    (hsignals : ∀ x ∈ session.world.signals, x.2 = .interrupt) (hs : s.failure = none)
    (h : workload env fuel c o s session = .ok (session', s', result)) :
    s'.Agrees session'.world c.mode result := by
  have hpair : ∀ {session1 : Session} {concluded : RunSummary × Except RunError Unit},
      concluded.1.Agrees session1.world c.mode concluded.2 →
      (pure (session1, concluded) : Except Stop _) = .ok (session', s', result) →
      s'.Agrees session'.world c.mode result := by
    intro session1 concluded hagrees he
    cases he
    exact hagrees
  have hnone : ∀ failures : List Failure, failures.head?.map (·.error) = none → failures = [] := by
    intro failures h
    simpa using h
  unfold workload at h
  split at h
  · next hmode =>
    obtain ⟨⟨session1, finished⟩, hrun, h⟩ := bind_eq_ok.1 h
    refine hpair ?_ h
    rw [hmode]
    cases finished with
    | error e => exact RunSummary.failed_agrees fun _ => Ramp.run_error hrun
    | ok r =>
      obtain ⟨a, ending, -, htells, hr⟩ := Ramp.run_ledger hw hrun
      obtain ⟨rfl, -, -⟩ := hr r rfl
      exact RunSummary.ofRamp_agrees hs htells (Ramp.run_latched hsignals hrun)
  · next hmode =>
    obtain ⟨⟨session1, finished⟩, hrun, h⟩ := bind_eq_ok.1 h
    refine hpair (RunSummary.pool_agrees (by rw [hmode]; decide) fun r hr hclean => ?_) h
    cases hr
    have hfirst := ((Sweep.run_ledger hw hrun).1 r rfl).2
    have hlatch : r.interrupted = session1.world.stopped := by
      obtain ⟨_, _, _, _, _, _, _, _, -, -, -, -, rfl, rfl⟩ := Sweep.run_ok hrun
      rfl
    have hattempts := Sweep.run_attempts hw hrun
    have hrounds := hnone _ (hfirst.symm.trans hclean)
    refine RunSummary.clean_agrees r.interrupted ?_ hs hlatch.symm.trans hattempts hrounds
    rw [RunSummary.ofSweep, hclean]
    rfl
  · next hmode =>
    obtain ⟨⟨session1, finished⟩, hrun, h⟩ := bind_eq_ok.1 h
    refine hpair (RunSummary.pool_agrees (by rw [hmode]; decide) fun r hr hclean => ?_) h
    cases hr
    have hfirst := ((Mixed.run_ledger hw hrun).1 r rfl).2
    have hlatch : r.interrupted = session1.world.stopped := by
      obtain ⟨_, _, _, _, _, _, _, _, -, -, -, -, rfl⟩ := Mixed.run_parts hrun
      rfl
    refine RunSummary.clean_agrees r.interrupted ?_ hs (hlatch ▸ id)
      (Mixed.run_attempts hw hrun) (hnone _ (hfirst.symm.trans hclean))
    rw [RunSummary.ofMixed, hclean]
    rfl

theorem workload_ramp (hmode : c.mode = .ramp)
    (h : workload env fuel c o s session = .ok (session', s', .ok ())) :
    ∃ r, Ramp.run (setting env c) fuel c.rampSettings o session = .ok (session', .ok r) ∧
      s' = s.ofRamp r := by
  simp only [workload, hmode] at h
  obtain ⟨⟨session1, finished⟩, hrun, h⟩ := bind_eq_ok.1 h
  cases finished with
  | error e => cases h
  | ok r =>
    cases h
    exact ⟨r, hrun, rfl⟩

end Run

/-- **Outcome, failure text and result agree.** Interrupts come from outside, each setting the stop
latch and clearing the run flag. Whenever a run has written its summary there is an outcome in it,
and a failure text if and only if that is `failed`. An error of the run has its message for this text.
With a fixed pool the run fails if and only if the outcome is `failed`. A ramp fails only on output;
otherwise the outcome is the label of its end, and the failure text is there if that is a failure. The
outcome is `interrupted` only if the stop latch was set and no attempt and no round has failed. -/
theorem outcome_agrees (env : Surroundings) (fuel : Nat) (c : Config) {session : Session}
    {ended : RunEnd} {s : RunSummary} (hw : session.world.Fresh)
    (hsignals : ∀ x ∈ session.world.signals, x.2 = .interrupt)
    (h : Run.run env fuel c session = .ok ended) (hs : ended.summary = some s) :
    s.outcome ≠ none ∧ (s.failure ≠ none ↔ s.outcome = some "failed") ∧
    (∀ e, ended.result = .error e → s.outcome = some "failed" ∧ s.failure = some e.message) ∧
    (c.mode ≠ .ramp → ((∃ e, ended.result = .error e) ↔ s.outcome = some "failed")) ∧
    (c.mode = .ramp →
      (∀ e, ended.result = .error e → ∃ x, e = .workload (.output x)) ∧
      (ended.result = .ok () → ∃ o store session' r,
        Output.create c.outDir c.name session.store = .ok (o, store) ∧
        Ramp.run (Run.setting env c) fuel c.rampSettings o { session with store } =
          .ok (session', .ok r) ∧
        s.outcome = some r.ending.label ∧ (s.failure ≠ none ↔ r.ending.IsFailure))) ∧
    (s.outcome = some "interrupted" → ended.session.world.stopped = true ∧
      ended.session.world.failedAttempts = [] ∧ ended.session.world.failedRounds = []) := by
  unfold Run.run at h
  split at h
  · cases h
    cases hs
  · split at h
    · cases h
      cases hs
    · next o store hcreate =>
      obtain ⟨⟨session1, s1, result⟩, hworkload, h⟩ := bind_eq_ok.1 h
      have hw' : ({ session with store } : Session).world.Fresh := hw
      have hagrees := Run.workload_agrees hw' hsignals rfl hworkload
      dsimp only at h
      split at h
      · cases h
        cases hs
      · next store2 hwrite =>
        cases h
        cases hs
        have herror : ∀ e, result.mapError RunFailure.workload = .error e →
            ∃ x, result = .error x ∧ e = .workload x := by
          intro e he
          cases result with
          | ok => cases he
          | error x =>
            cases he
            exact ⟨x, rfl, rfl⟩
        refine ⟨hagrees.outcome, hagrees.failure, fun e he => ?_, fun hmode => ⟨?_, fun hf => ?_⟩,
          fun hmode => ⟨fun e he => ?_, fun hok => ?_⟩, hagrees.interrupted⟩
        · obtain ⟨x, hx, rfl⟩ := herror e he
          exact hagrees.error x hx
        · rintro ⟨e, he⟩
          obtain ⟨x, hx, rfl⟩ := herror e he
          exact (hagrees.error x hx).1
        · obtain ⟨x, rfl⟩ := hagrees.pool hmode hf
          exact ⟨_, rfl⟩
        · obtain ⟨x, hx, rfl⟩ := herror e he
          obtain ⟨y, rfl⟩ := hagrees.ramp hmode x hx
          exact ⟨y, rfl⟩
        · cases result with
          | error e => cases hok
          | ok =>
            obtain ⟨r, hrun, rfl⟩ := Run.workload_ramp hmode hworkload
            exact ⟨o, store, session1, r, hcreate, hrun, rfl, RunSummary.ofRamp_failure rfl⟩

/-- A sweep of two phases is interrupted in its first. -/
theorem outcome_agrees_interrupted :
    ∃ ended s, Run.run
        { resolver := { unknown := .fileNotFound }, source := SplitMix.source #[] 0 } 40
        (.overlay {} {
          run := { name := "r", outDir := ".", batchSize := 1 }, client := { handshake := false }
          throughput := { clients := 1, sizes := [0, 0], rounds := some 3 } })
        { world := { signals := [(Duration.ofMillis 2, .interrupt)] } } = .ok ended ∧
      ended.summary = some s ∧ s.outcome = some "interrupted" ∧ s.failure = none ∧
      ended.session.world.stopped = true := by
  have hrun : ((Run.run
      { resolver := { unknown := .fileNotFound }, source := SplitMix.source #[] 0 } 40
      (.overlay {} {
        run := { name := "r", outDir := ".", batchSize := 1 }, client := { handshake := false }
        throughput := { clients := 1, sizes := [0, 0], rounds := some 3 } })
      { world := { signals := [(Duration.ofMillis 2, .interrupt)] } }).toOption.any fun ended =>
        ended.summary.any fun s => s.outcome = some "interrupted") = true := by
    decide +kernel
  obtain ⟨ended, h, hsummary⟩ := toOption_any.1 hrun
  obtain ⟨s, hs, houtcome⟩ := (Option.any_eq_true _ _).1 hsummary
  have houtcome := of_decide_eq_true houtcome
  obtain ⟨-, hfailure, -, -, -, hinterrupted⟩ :=
    outcome_agrees _ _ _ ⟨rfl, rfl, rfl, rfl, rfl, rfl, rfl, rfl⟩ (by simp) h hs
  have hclean : s.outcome ≠ some "failed" := by
    rw [houtcome]
    decide
  exact ⟨ended, s, h, hs, houtcome, not_not.1 fun hne => hclean (hfailure.1 hne),
    (hinterrupted houtcome).1⟩

end EchoLoad
