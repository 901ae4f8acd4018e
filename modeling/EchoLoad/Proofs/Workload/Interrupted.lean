import EchoLoad.Proofs.Connections
import EchoLoad.Proofs.Interrupt
import EchoLoad.Proofs.Workload.PhaseRuns
import EchoLoad.Proofs.Workload.Unused
/-!
Runs that are interrupted, at whatever time and in whatever workload. Main statement:
`interrupt_heeded`.
-/

namespace EchoLoad

open World

variable {set : Setting} {fuel : Nat} {o : Output} {session session' : Session} {t : Duration}

/-! ## The turns of a sweep -/

namespace Sweep

variable {s : SweepSettings} {p : Sweep} {sizes : List Nat}

/-- A turn that a sweep makes, with what it finds. -/
structure Turn where
  size : Nat
  sweep : Sweep
  session : Session

/-- The turns that are made for the sizes to come, also those of a sweep that comes to no result. -/
def turns (set : Setting) (fuel : Nat) (s : SweepSettings) (o : Output) :
    List Nat → Sweep → Session → List Turn
  | [], _, _ => []
  | size :: rest, p, session =>
    ⟨size, p, session⟩ ::
      match turn set fuel s o size p session with
      | .ok (session, .ok (p, true)) => turns set fuel s o rest p session
      | _ => []

def runTurns (set : Setting) (fuel : Nat) (s : SweepSettings) (o : Output) (session : Session) :
    List Turn :=
  match session.establish set fuel s.clients s.batchSize o with
  | .ok (session, .ok (clients, _)) =>
    match o.startThroughput session.store with
    | .ok store => turns set fuel s o s.sizes { clients } { session with store }
    | .error _ => []
  | _ => []

theorem turns_keep {P : World → Prop} (hP : Kept set P) (hw : P session.world) :
    ∀ x ∈ turns set fuel s o sizes p session, P x.session.world := by
  induction sizes generalizing p session with
  | nil => exact fun _ hmem => absurd hmem List.not_mem_nil
  | cons size sizes ih =>
    have hturn : Leaves P (fun x => P x.1.world) (turn set fuel s o size p session) :=
      turn_leaves hP.anyPlan trivial hw
    intro x hmem
    rcases List.mem_cons.1 hmem with rfl | hmem
    · exact hw
    · split at hmem
      · next session1 p1 he => exact ih (hturn.ok he) x hmem
      · exact absurd hmem List.not_mem_nil

theorem runTurns_keep {P : World → Prop} (hP : Kept set P) (hw : P session.world) :
    ∀ x ∈ runTurns set fuel s o session, P x.session.world := by
  intro x hmem
  unfold runTurns at hmem
  split at hmem
  · next session1 clients joins he =>
    have hestablished :=
      Session.establish_keeps (C := fun _ => True) hP.anyPlan (fun _ _ _ _ => trivial) hw he
    split at hmem
    · next store _ =>
      have hbegun : P ({ session1 with store } : Session).world := hestablished.1
      exact turns_keep hP hbegun x hmem
    · exact absurd hmem List.not_mem_nil
  · exact absurd hmem List.not_mem_nil

/-- **A turn that finds the latch set after its pause has no phase**, and is the last one. -/
theorem turn_stopped {size : Nat} {w : World} (hpause : pause set fuel s p session.world = .ok w)
    (hstopped : w.stopped = true) :
    turn set fuel s o size p session = .ok ({ session with world := w }, .ok (p, false)) := by
  unfold turn
  rw [hpause]
  show (if w.stopped = true then _ else _) = _
  rw [if_pos hstopped]
  rfl

/-- **A sweep whose pool was interrupted has no phase.** -/
theorem run_phases {r : SweepReport} {session₁ : Session} {pool : List Client × Nat}
    (h : run set fuel s o session = .ok (session', .ok r))
    (hestablish : session.establish set fuel s.clients s.batchSize o = .ok (session₁, .ok pool))
    (hstopped : session₁.world.stopped = true) : r.phases = [] := by
  obtain ⟨_, clients, joins, store, session2, p, w, n, hestablish', -, hadvance, -, -, rfl⟩ :=
    run_ok h
  cases hestablish.symm.trans hestablish'
  cases hsizes : s.sizes with
  | nil =>
    rw [hsizes] at hadvance
    cases hadvance
    rfl
  | cons size rest =>
    have hpause : pause set fuel s { clients } session₁.world = .ok session₁.world :=
      if_pos (.inl rfl)
    have hturn : turn set fuel s o size { clients } { session₁ with store } = _ :=
      turn_stopped hpause hstopped
    rw [hsizes, advance, hturn] at hadvance
    cases hadvance
    rfl

end Sweep

/-! ## All workloads -/

/-- Each client that connected and failed no round was closed once, unless the output failed. -/
def Closes {ρ : Type} (x : Finished ρ) : Prop :=
  (∀ e, x.2 ≠ .error (.output e)) → x.1.world.ClosesPool

theorem Closes.of_settled {ρ : Type} {x : Finished ρ} {options : ClientOptions} {a : Account}
    (h : Settled options a x.1.world) : Closes x :=
  fun _ _ hc hf => h.clean hc hf

theorem Closes.of_fails {ρ : Type} {e : RunError} {options : ClientOptions}
    (h : Fails options session.world e) : Closes (session, (.error e : Except RunError ρ)) := by
  intro houtput
  cases h with
  | closed hs => exact fun _ hc hf => hs.clean hc hf
  | abandoned => exact absurd rfl (houtput _)

/-- **An interrupt is never overridden.** A run expects an interrupt at `t`, among others perhaps.
Whether it returns or not, no attempt and no round of it begins after `t`, and once the interrupt was
heard no request either. A sweep goes through no phase then: a turn that has heard the interrupt when
its pause is over leaves the sweep as it is and ends it. A sweep that was interrupted while its pool
was established has no phase at all, and a mixed run interrupted so has done no round. A report tells
that it was interrupted, and unless the output failed every client that connected and failed no round
was closed. -/
theorem interrupt_heeded (set : Setting) (fuel : Nat) (o : Output) (hw : session.world.Fresh)
    (ht : session.world.InterruptAhead t) :
    (∀ s, Leaves (StoppedAt set session.world.activate t)
      (fun x => StoppedAt set session.world.activate t x.1.world ∧ Closes x)
      (Ramp.run set fuel s o session)) ∧
    (∀ s, (∀ x ∈ Sweep.runTurns set fuel s o session, ∀ w,
        Sweep.pause set fuel s x.sweep x.session.world = .ok w → w.InterruptReached t →
        Sweep.turn set fuel s o x.size x.sweep x.session =
          .ok ({ x.session with world := w }, .ok (x.sweep, false))) ∧
      Leaves (StoppedAt set session.world t)
        (fun x => StoppedAt set session.world t x.1.world ∧ Closes x ∧
          ∀ r, x.2 = .ok r → (x.1.world.InterruptReached t → r.interrupted = true) ∧
            ∀ session₁ pool,
              session.establish set fuel s.clients s.batchSize o = .ok (session₁, .ok pool) →
              session₁.world.InterruptReached t → r.phases = [])
        (Sweep.run set fuel s o session)) ∧
    (∀ s, Leaves (StoppedAt set session.world t)
      (fun x => StoppedAt set session.world t x.1.world ∧ Closes x ∧
        ∀ r, x.2 = .ok r → (x.1.world.InterruptReached t → r.interrupted = true) ∧
          ∀ session₁ pool,
            session.establish set fuel s.clients s.batchSize o = .ok (session₁, .ok pool) →
            session₁.world.InterruptReached t → r.rounds = 0 ∧ r.totalBytes = 0)
      (Mixed.run set fuel s o session)) := by
  have hstopped : ∀ w, RunSteps set session.world w → StoppedAt set session.world t w :=
    fun w h => h.stoppedAt hw.journal ht
  -- whoever has the pool in hand when the interrupt was heard finds the latch set
  have hlatched : ∀ {clients batch : Nat} {session₁ : Session} {pool : List Client × Nat},
      session.establish set fuel clients batch o = .ok (session₁, .ok pool) →
      session₁.world.InterruptReached t → session₁.world.stopped = true := by
    intro clients batch session₁ pool hestablish hheard
    have hkeeps :=
      Session.establish_keeps (C := fun _ => True) (RunSteps.kept set session.world).anyPlan
      (fun _ _ _ _ => trivial) .refl hestablish
    exact ((hstopped _ hkeeps.1).reached hheard).1
  refine ⟨fun s => ?_, fun s => ⟨?_, ?_⟩, fun s => ?_⟩
  · have hramp : ∀ w, RunSteps set session.world.activate w →
        StoppedAt set session.world.activate t w :=
      fun w h => h.stoppedAt hw.journal ⟨ht.mem, ht.sorted, ht.now_le⟩
    refine (Ramp.run_leaves (RunSteps.kept set _).anyPlan ⟨trivial, trivial⟩ .refl).mono hramp ?_
    rintro ⟨session', result⟩ hrun hruns
    obtain ⟨a, ending, hsettled, -⟩ := Ramp.run_ledger hw hrun
    exact ⟨hramp _ hruns, .of_settled hsettled⟩
  · intro x hmem w hpause hheard
    have hruns := Sweep.runTurns_keep (RunSteps.kept set session.world) .refl x hmem
    have hpaused := (Sweep.pause_leaves (RunSteps.kept set session.world).anyPlan hruns).ok hpause
    exact Sweep.turn_stopped hpause ((hstopped w hpaused).reached hheard).1
  · refine (Sweep.run_leaves (RunSteps.kept set _).anyPlan
      (fun _ _ => trivial) .refl).mono hstopped ?_
    rintro ⟨session', result⟩ hrun hruns
    obtain ⟨hreport, herror⟩ := Sweep.run_ledger hw hrun
    have hend := hstopped _ hruns
    cases result with
    | error e => exact ⟨hend, .of_fails (herror e rfl), nofun⟩
    | ok r =>
      obtain ⟨⟨a, hsettled⟩, -⟩ := hreport r rfl
      refine ⟨hend, .of_settled hsettled, fun r' hr => ?_⟩
      cases hr
      have hlatch : r.interrupted = session'.world.stopped := by
        obtain ⟨_, _, _, _, _, _, _, _, -, -, -, -, rfl, rfl⟩ := Sweep.run_ok hrun
        rfl
      refine ⟨fun hheard => hlatch.trans (hend.reached hheard).1, ?_⟩
      exact fun session₁ pool hestablish hheard =>
        Sweep.run_phases hrun hestablish (hlatched hestablish hheard)
  · refine (Mixed.run_leaves (RunSteps.kept set _).anyPlan (fun _ => trivial) .refl).mono hstopped ?_
    rintro ⟨session', result⟩ hrun hruns
    obtain ⟨hreport, herror⟩ := Mixed.run_ledger hw hrun
    have hend := hstopped _ hruns
    cases result with
    | error e => exact ⟨hend, .of_fails (herror e rfl), nofun⟩
    | ok r =>
      obtain ⟨⟨a, hsettled⟩, -⟩ := hreport r rfl
      refine ⟨hend, .of_settled hsettled, fun r' hr => ?_⟩
      cases hr
      have hlatch : r.interrupted = session'.world.stopped := by
        obtain ⟨_, _, _, _, _, _, _, -, -, -, -, -, hlatch⟩ := Mixed.run_ok hrun
        exact hlatch
      refine ⟨fun hheard => hlatch.trans (hend.reached hheard).1, ?_⟩
      exact fun session₁ pool hestablish hheard =>
        Mixed.run_unused hw hrun hestablish (hlatched hestablish hheard)

/-- A client is to do three rounds in each of two phases. The interrupt finds it in its second round,
which is echoed; no other begins, nor does the second phase. -/
theorem interrupt_heeded_mid_phase :
    ∃ session' r, Sweep.run { source := SplitMix.source #[] 0 } 40
        { clients := 1, batchSize := 1, sizes := [0, 0], phaseEnd := .rounds 3 } ⟨".", "r"⟩
        { world := { signals := [(1500000, .interrupt)] } } = .ok (session', .ok r) ∧
      r.phases.map (fun p => p.rounds) = [2] ∧ r.interrupted = true ∧
      (∀ x ∈ session'.world.journal, x.2.isStart = true → x.1 ≤ 1500000) ∧
      session'.world.ClosesPool := by
  have hrun : ((Sweep.run { source := SplitMix.source #[] 0 } 40
      { clients := 1, batchSize := 1, sizes := [0, 0], phaseEnd := .rounds 3 } ⟨".", "r"⟩
      { world := { signals := [(1500000, .interrupt)] } }).toOption.any fun x =>
        1500000 < x.1.world.now ∧ x.2.toOption.any fun r =>
          r.phases.map (fun p => p.rounds) = [2]) = true := by
    decide +kernel
  obtain ⟨⟨session', result⟩, h, hresult⟩ := toOption_any.1 hrun
  obtain ⟨hheard, hreport⟩ := of_decide_eq_true hresult
  obtain ⟨r, rfl, hphases⟩ := toOption_any.1 hreport
  let session : Session := { world := { signals := [(1500000, .interrupt)] } }
  have hfresh : session.world.Fresh := ⟨rfl, rfl, rfl, rfl, rfl, rfl, rfl, rfl⟩
  have hahead : session.world.InterruptAhead 1500000 :=
    ⟨List.mem_singleton_self _, List.pairwise_singleton .., by decide⟩
  obtain ⟨-, hsweep, -⟩ :=
    interrupt_heeded { source := SplitMix.source #[] 0 } 40 ⟨".", "r"⟩ hfresh hahead
  obtain ⟨hstopped, hcloses, hr⟩ := (hsweep _).2.ok h
  exact ⟨session', r, h, of_decide_eq_true hphases, (hr r rfl).1 (.inl hheard), hstopped.starts,
    hcloses nofun⟩

end EchoLoad
