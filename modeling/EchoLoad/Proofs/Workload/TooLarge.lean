import EchoLoad.Proofs.Checked
import EchoLoad.Proofs.Payload
import EchoLoad.Proofs.Workload.RunSteps
import EchoLoad.Run
/-!
Payloads that no frame can carry. A round fails as too large only if its payload is, and a loop sends
only payloads of its plan. An accepted configuration keeps such payloads out of sweeps, but not out
of the other two workloads. Main statement: `lengths_checked`.
-/

namespace EchoLoad

/-! ## One round -/

/-- What is read is never too large, only oversized. -/
theorem Frame.decode_ne_tooLarge {σ : Type} {read : σ → Nat → Read σ} {limit n : Nat} {s s' : σ} :
    decode read limit s ≠ some (.error (.tooLarge n), s') := by
  intro h
  unfold decode at h
  split at h <;> try cases h
  dsimp only at h
  split at h
  · cases h
  · split at h <;> cases h

/-- **An exchange fails as too large** if its payload has no frame, and for no other reason. -/
theorem Connection.exchange_tooLarge {c : Connection} {now t : Duration} {limit : Option Duration}
    {payload : Bytes} {n : Nat}
    (h : (c.exchange now limit payload).2 = some (t, .error (.protocol (.tooLarge n)))) :
    n = payload.length ∧ Frame.lengthBound ≤ n := by
  unfold exchange at h
  split at h
  · next e hencode =>
    cases h
    unfold Frame.encode at hencode
    split at hencode
    · cases hencode
    · next hbound =>
      cases hencode
      exact ⟨rfl, Nat.le_of_not_lt hbound⟩
  · dsimp only at h
    split at h
    · cases h
    · split at h
      · cases h
      · split at h
        · next r t' c' hdecode =>
          -- the verdict repeats what reading found, which is no such error
          have hverdict : ∀ {latency : Duration},
              verdict payload latency r ≠ .error (.protocol (.tooLarge n)) := by
            intro latency hv
            unfold verdict at hv
            split at hv
            · cases hv
            · cases hv
            · cases hv
              exact Frame.decode_ne_tooLarge hdecode
            · split at hv
              · cases hv
              · split at hv <;> cases hv
          exact (hverdict (Prod.mk.inj (Option.some.inj h)).2).elim
        · next hnone =>
          cases limit <;> cases h

namespace Client

variable {o : ClientOptions} {c : Client} {now t : Duration} {payload : Bytes} {net : Network}
  {n : Nat}

theorem exchange_tooLarge
    (h : (c.exchange o now payload net).ending = some (t, .error (.protocol (.tooLarge n)))) :
    n = payload.length ∧ Frame.lengthBound ≤ n := by
  obtain hcall | ⟨_, _, _, _, -, -, hcall⟩ := exchange_eq o c now payload net
  · rw [hcall] at h
    cases h
  · rw [hcall] at h
    exact Connection.exchange_tooLarge h

theorem echoRound_tooLarge
    (h : (c.echoRound o now payload net).ending = some (t, .error (.protocol (.tooLarge n)))) :
    n = payload.length ∧ Frame.lengthBound ≤ n := by
  unfold echoRound at h
  split at h
  · dsimp only at h
    split at h
    · exact exchange_tooLarge h
    · exact exchange_tooLarge h
  · cases h

end Client

/-! ## A whole run -/

/-- Loops send payloads of such lengths, and what has failed as too large was one of them. -/
structure World.Sends (lengths : Nat → Prop) (w : World) : Prop where
  plans : ∀ k ∈ w.workers, ∀ n, k.plan.payload.Allows n → lengths n
  busy : ∀ k ∈ w.workers, ∀ t n, k.stage = .busy (some (t, .error (.protocol (.tooLarge n)))) →
    Frame.lengthBound ≤ n ∧ lengths n
  failed : ∀ f ∈ w.failedRounds, ∀ n, f.error = .protocol (.tooLarge n) →
    Frame.lengthBound ≤ n ∧ lengths n

namespace World.Sends

variable {set : Setting} {lengths : Nat → Prop} {w w' : World}

theorem congr (h : w.Sends lengths) (hworkers : ∀ k ∈ w'.workers, k ∈ w.workers)
    (hfailed : w'.failedRounds = w.failedRounds) : w'.Sends lengths :=
  ⟨fun k hk => h.plans k (hworkers k hk), fun k hk => h.busy k (hworkers k hk),
    hfailed ▸ h.failed⟩

theorem note (h : w.Sends lengths) {e : Event} (hworkers : ∀ k ∈ w'.workers, k ∈ w.workers)
    (hevents : w'.events = e :: w.events) (he : e.failedRound? = none) : w'.Sends lengths :=
  h.congr hworkers (failedRounds_kept hevents he)

theorem set_worker (h : w.Sends lengths) {i : Nat} {k : Worker} (k' : Worker)
    (hk : w.workers[i]? = some k) (hplan : k'.plan = k.plan)
    (hworkers : w'.workers = w.workers.set i k')
    (hbusy : ∀ t n, k'.stage = .busy (some (t, .error (.protocol (.tooLarge n)))) →
      Frame.lengthBound ≤ n ∧ lengths n)
    (hfailed : ∀ f ∈ w'.failedRounds, f ∈ w.failedRounds ∨
      ∃ t, k.stage = .busy (some (t, .error f.error))) : w'.Sends lengths := by
  have hmem := List.mem_of_getElem? hk
  refine ⟨?_, ?_, fun f hf n hn => ?_⟩
  · rw [hworkers]
    exact forall_mem_set h.plans (hplan ▸ h.plans k hmem)
  · rw [hworkers]
    exact forall_mem_set h.busy hbusy
  · rcases hfailed f hf with hf | ⟨t, hstage⟩
    · exact h.failed f hf n hn
    · exact h.busy k hmem t n (hn ▸ hstage)

theorem internalStep (h : w.Sends lengths) (hs : InternalStep set w w') : w'.Sends lengths := by
  cases hs with
  | signal hsignal =>
    rw [interrupted_eq hsignal]
    exact h.congr (fun _ hk => hk) rfl
  | @arrived i c => exact h.note (e := .resolved c.id none) (fun _ hk => hk) rfl rfl
  | @declined i c t e => exact h.note (e := .resolved c.id (some e)) (fun _ hk => hk) rfl rfl
  | @echoed i k t latency hk =>
    have hfailed : (w.echoed i k latency).failedRounds = w.failedRounds :=
      failedRounds_kept (e := .roundEnded k.client.id none) rfl rfl
    exact h.set_worker k.advance hk rfl rfl nofun fun f hf => .inl (hfailed ▸ hf)
  | @broken i k t e hk hstage =>
    refine h.set_worker { k with stage := .done } hk rfl rfl nofun fun f hf => ?_
    rw [failedRounds_cons (e := .roundEnded k.client.id (some e)) rfl] at hf
    rcases List.mem_append.1 hf with hf | hf
    · exact .inl hf
    · cases List.mem_singleton.1 hf
      exact .inr ⟨t, hstage⟩
  | @start i length k source hk _ _ _ hsample =>
    have hfailed : (w.startRound set i k (Payload.fill length source).1
        (Payload.fill length source).2).failedRounds = w.failedRounds :=
      failedRounds_kept (e := .roundStarted k.client.id) rfl rfl
    refine h.set_worker { k with client := _, source := _, stage := .busy _ } hk rfl rfl
      (fun t n hn => ?_) fun f hf => .inl (hfailed ▸ hf)
    obtain ⟨rfl, hbound⟩ := Client.echoRound_tooLarge (Stage.busy.inj hn)
    refine ⟨hbound, ?_⟩
    rw [Payload.fill_length]
    exact h.plans k (List.mem_of_getElem? hk) _ (PayloadSize.sample_allows hsample)
  | @retire i k hk =>
    exact h.set_worker { k with stage := .done } hk rfl rfl nofun fun f hf => .inl hf

/-- **A loop sends what its plan allows**, and fails as too large with nothing else. -/
theorem kept (set : Setting) (lengths : Nat → Prop) :
    KeptWith set (fun plan => ∀ n, plan.payload.Allows n → lengths n) (Sends lengths) := by
  refine ⟨fun w w' h hmove hlen => ?_, fun w plan c hplan h => ?_⟩
  · cases hmove with
    | internalStep hs => exact h.internalStep hs
    | join i => exact h.congr (fun _ hk => List.eraseIdx_subset hk) rfl
    | dial id => exact h.note (e := .attempt id) (fun _ hk => hk) rfl rfl
    | spawn plan c =>
      rw [spawn, List.length_append] at hlen
      exact absurd hlen (Nat.not_succ_le_self _)
    | close c =>
      unfold World.close
      split
      · exact h.note (e := .closed c.id) (fun _ hk => hk) rfl rfl
      · exact h
    | pass | failures | cancel | restart | handOver | release | sink =>
      exact h.congr (fun _ hk => hk) rfl
  · have hcases : ∀ k ∈ (w.spawn set plan c).workers, k ∈ w.workers ∨
        k.plan = plan ∧ k.stage = .ready := by
      intro k hk
      rcases List.mem_append.1 hk with hk | hk
      · exact .inl hk
      · rw [List.mem_singleton.1 hk]
        exact .inr ⟨rfl, rfl⟩
    refine ⟨fun k hk => ?_, fun k hk t n hs => ?_, h.failed⟩
    · rcases hcases k hk with hk | ⟨rfl, -⟩
      · exact h.plans k hk
      · exact hplan
    · rcases hcases k hk with hk | ⟨-, hready⟩
      · exact h.busy k hk t n hs
      · rw [hready] at hs
        cases hs

end World.Sends

namespace Config

variable {a : Arguments} {f : FileConfig} {c : Config}

def Lengths (c : Config) (n : Nat) : Prop :=
  match c.mode with
  | .ramp => c.rampSettings.payload.Allows n
  | .throughput => n ∈ c.sweepSettings.sizes
  | .mixed => c.mixedSettings.payload.Allows n

/-- A run of a configuration sends payloads of its lengths, whether or not it comes to an end. -/
theorem workload_sends (env : Surroundings) (fuel : Nat) (c : Config) (o : Output) (s : RunSummary)
    {session : Session} (hw : session.world.Fresh) :
    Leaves (World.Sends c.Lengths) (fun x => x.1.world.Sends c.Lengths)
      (Run.workload env fuel c o s session) := by
  have hfresh : ∀ {w : World}, w.Fresh → w.Sends c.Lengths := by
    intro w h
    refine ⟨by simp [h.workers], by simp [h.workers], fun f hf => ?_⟩
    rw [World.failedRounds, World.events, h.journal] at hf
    cases hf
  have hkept := World.Sends.kept (Run.setting env c) c.Lengths
  unfold Run.workload
  dsimp only
  split
  · next hmode =>
    have hplans : ∀ n, c.rampSettings.payload.Allows n → c.Lengths n := fun n hn => by
      rwa [Lengths, hmode]
    have hloops : Ramp.Plans (fun plan => ∀ n, plan.payload.Allows n → c.Lengths n)
        c.rampSettings := ⟨hplans, hplans⟩
    exact (Ramp.run_leaves hkept hloops (hfresh hw.activate)).bind fun x hx => hx
  · next hmode =>
    refine (Sweep.run_leaves hkept (fun size hsize n hn => ?_) (hfresh hw)).bind fun x hx => hx
    rw [Lengths, hmode, show n = size from hn]
    exact hsize
  · next hmode =>
    have hplans : ∀ n, c.mixedSettings.payload.Allows n → c.Lengths n := fun n hn => by
      rwa [Lengths, hmode]
    exact (Mixed.run_leaves hkept (fun _ => hplans) (hfresh hw)).bind fun x hx => hx

theorem lengths_fit_iff {lo hi : Nat} (hle : lo ≤ hi) :
    (∀ s n s', (PayloadSize.uniform lo hi).sample s = some (n, s') → n < Frame.lengthBound) ↔
      hi < Frame.lengthBound := by
  constructor
  · intro h
    by_contra hreach
    obtain ⟨s, n, s', hsample, hn⟩ :=
      PayloadSize.exists_sample_ge hle (Nat.le_of_not_lt hreach) (by decide)
    exact absurd (h s n s' hsample) (Nat.not_lt.2 hn)
  · intro h s n s' hsample
    exact Nat.lt_of_le_of_lt (PayloadSize.sample_allows hsample).2 h

/-- **The lengths of an accepted configuration.** In a sweep every payload has a frame. The lengths
of the other two workloads are not checked: each of their payloads has a frame, whatever is drawn,
just if the greatest length that is configured has. A run fails a round as too large with a payload
of its mode that has no frame, and for no other reason; so no client of a sweep is ever reported
with such a failure. -/
theorem lengths_checked (h : merge a f = .ok c) :
    (∀ size ∈ c.sweepSettings.sizes, size < Frame.lengthBound) ∧
    ((∀ s n s', c.rampSettings.payload.sample s = some (n, s') → n < Frame.lengthBound) ↔
      c.ramp.maxLength < Frame.lengthBound) ∧
    ((∀ s n s', c.mixedSettings.payload.sample s = some (n, s') → n < Frame.lengthBound) ↔
      c.mixed.maxLength < Frame.lengthBound) ∧
    ∀ (env : Surroundings) (fuel : Nat) (o : Output) (s s' : RunSummary)
      (session session' : Session) (result : Except RunError Unit), session.world.Fresh →
      Run.workload env fuel c o s session = .ok (session', s', result) →
      ∀ failure ∈ session'.world.failedRounds, ∀ n,
        failure.error = .protocol (.tooLarge n) →
        Frame.lengthBound ≤ n ∧ c.mode ≠ .throughput ∧ c.Lengths n := by
  obtain ⟨-, hchecked⟩ := merge_ok h
  refine ⟨hchecked.fits, lengths_fit_iff hchecked.ramp, lengths_fit_iff hchecked.mixed, ?_⟩
  intro env fuel o s s' session session' result hw hrun failure hfailure n hn
  have hsends : session'.world.Sends c.Lengths := (workload_sends env fuel c o s hw).ok hrun
  obtain ⟨hbound, hlength⟩ := hsends.failed failure hfailure n hn
  refine ⟨hbound, fun hmode => ?_, hlength⟩
  rw [Lengths, hmode] at hlength
  exact absurd (hchecked.fits n hlength) (Nat.not_lt.2 hbound)

/-- A ramp whose payloads may have one byte too many is accepted. -/
theorem lengths_checked_ramp :
    merge {} { run := { mode := .ramp }, ramp := { maxLength := Frame.lengthBound } } =
        .ok (overlay {} { run := { mode := .ramp }, ramp := { maxLength := Frame.lengthBound } }) ∧
      ¬ ∀ s n s',
        (overlay {} { run := { mode := .ramp }, ramp := { maxLength := Frame.lengthBound } }
          ).rampSettings.payload.sample s = some (n, s') → n < Frame.lengthBound := by
  have h : merge {} { run := { mode := .ramp }, ramp := { maxLength := Frame.lengthBound } } =
      .ok (overlay {} { run := { mode := .ramp }, ramp := { maxLength := Frame.lengthBound } }) := by
    decide
  exact ⟨h, fun hfits => absurd ((lengths_checked h).2.1.1 hfits) (Nat.lt_irrefl _)⟩

end Config

end EchoLoad
