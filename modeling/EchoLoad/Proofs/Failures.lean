import EchoLoad.Proofs.Workload.Mixed
import EchoLoad.Proofs.Workload.Ramp
import EchoLoad.Proofs.Workload.Sweep
import EchoLoad.Random.SplitMix
/-!
No failure is lost. Whatever the peers do, whenever an interrupt arrives and in whatever order
things fall on one instant, a report names a failure if and only if there was one, and the error
of a failed round is that of the first.
-/

namespace EchoLoad

def RampEnd.IsFailure (ending : RampEnd) : Prop := ∃ point e, ending = .failed point e

theorem RampEnd.Tells.isFailure_iff {w : World} {ending : RampEnd} (h : ending.Tells w) :
    ending.IsFailure ↔ w.failedAttempts ≠ [] ∨ w.failedRounds ≠ [] := by
  cases ending with
  | failed point e =>
    refine iff_of_true ⟨point, e, rfl⟩ ?_
    cases point with
    | connect => exact .inl fun hnil => by simp [RampEnd.Tells, hnil] at h
    | echo => exact .inr fun hnil => by simp [RampEnd.Tells, hnil] at h
  | capped | interrupted =>
    refine iff_of_false (fun ⟨point, e, he⟩ => by cases he) ?_
    simp [h.1, h.2]

/-- **No failure is lost.** A ramp reports a failure if and only if an attempt or a round failed,
and the other workloads if and only if a round failed. The error reported for a round is that of
the first that failed. -/
theorem failure_reported_iff (set : Setting) (fuel : Nat) (o : Output) {session : Session}
    (hw : session.world.Fresh) :
    (∀ s session' r, Ramp.run set fuel s o session = .ok (session', .ok r) →
      (r.ending.IsFailure ↔
        session'.world.failedAttempts ≠ [] ∨ session'.world.failedRounds ≠ []) ∧
      ∀ e, r.ending = .failed .echo e →
        session'.world.failedRounds.head?.map (·.error) = some e) ∧
    (∀ s session' r, Sweep.run set fuel s o session = .ok (session', .ok r) →
      (r.failure ≠ none ↔ session'.world.failedRounds ≠ []) ∧
      r.failure = session'.world.failedRounds.head?.map (·.error)) ∧
    (∀ s session' r, Mixed.run set fuel s o session = .ok (session', .ok r) →
      (r.failure ≠ none ↔ session'.world.failedRounds ≠ []) ∧
      r.failure = session'.world.failedRounds.head?.map (·.error)) := by
  have hfirst : ∀ (failures : List Failure) (failure : Option ClientError),
      failure = failures.head?.map (·.error) → (failure ≠ none ↔ failures ≠ []) := by
    rintro failures _ rfl
    cases failures <;> simp
  refine ⟨fun s session' r h => ?_, fun s session' r h => ?_, fun s session' r h => ?_⟩
  · obtain ⟨_, ending, -, htells, hr⟩ := Ramp.run_ledger hw h
    obtain ⟨rfl, -, -⟩ := hr r rfl
    refine ⟨htells.isFailure_iff, fun e he => ?_⟩
    rw [he] at htells
    exact htells
  · obtain ⟨-, hr⟩ := (Sweep.run_ledger hw h).1 r rfl
    exact ⟨hfirst _ _ hr, hr⟩
  · obtain ⟨-, hr⟩ := (Mixed.run_ledger hw h).1 r rfl
    exact ⟨hfirst _ _ hr, hr⟩

/-- A ramp whose first client loses its peer in its first round. -/
theorem failure_reported_hangup :
    ∃ session' r,
      Ramp.run { source := SplitMix.source #[] 0 } 20 { batchSize := 1, payload := .fixed 0 }
        ⟨".", "r"⟩ { world := { network := { rest := { replies := [.hangup] } } } } =
          .ok (session', .ok r) ∧
      r.ending = .failed .echo (.protocol (.truncated 4 0)) ∧
      session'.world.failedRounds.head?.map (·.error) = some (.protocol (.truncated 4 0)) := by
  have hrun : ((Ramp.run { source := SplitMix.source #[] 0 } 20
      { batchSize := 1, payload := .fixed 0 } ⟨".", "r"⟩
      { world := { network := { rest := { replies := [.hangup] } } } }).toOption.any fun x =>
        x.2.toOption.any fun r => r.ending = .failed .echo (.protocol (.truncated 4 0))) = true := by
    decide +kernel
  obtain ⟨⟨session', result⟩, h, hresult⟩ := toOption_any.1 hrun
  obtain ⟨r, rfl, hending⟩ := toOption_any.1 hresult
  have hending := of_decide_eq_true hending
  have hfresh : ({ network := { rest := { replies := [.hangup] } } } : World).Fresh :=
    ⟨rfl, rfl, rfl, rfl, rfl, rfl, rfl, rfl⟩
  exact ⟨session', r, h, hending,
    ((failure_reported_iff _ _ _ hfresh).1 _ _ _ h).2 _ hending⟩

end EchoLoad
