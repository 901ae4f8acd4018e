import EchoLoad.Proofs.Issue
import EchoLoad.Proofs.Workload.RunSteps
/-!
The first round of a new client. Whoever a batch of a ramp attempts either fails to connect or is
handed over, and whoever is admitted has ended a round when the admission is over, unless the run was
told to stop. Main statements: `connectBatch_members` and `admitBatch_rounds`.
-/

namespace EchoLoad

namespace World

variable {set : Setting} {w w' : World} {fuel n : Nat}

/-! ## The members of a batch -/

/-- The client `n` is in an attempt, or its attempt has ended and the batch is not yet handed over. -/
def Attempting (n : Nat) (w : World) : Prop :=
  (∃ d ∈ w.dials, d.id = n) ∨ (∃ c ∈ w.connected, c.id = n) ∨ ∃ e, .resolved n (some e) ∈ w.events

theorem attempting_lasting (set : Setting) (n : Nat) : Lasting set (Attempting n) := by
  intro w w' hw h
  have hevents : ∀ {e}, e ∈ w.events → e ∈ w'.events := by
    obtain ⟨es, hes, -⟩ := h.events
    exact fun he => hes ▸ List.mem_append_right _ he
  have hsame : w'.dials = w.dials → w'.connected = w.connected → Attempting n w' := by
    intro hdials hconnected
    unfold Attempting at hw ⊢
    rw [hdials, hconnected]
    exact hw.imp_right (.imp_right fun ⟨e, he⟩ => ⟨e, hevents he⟩)
  cases h with
  | internalStep hs =>
    cases hs with
    | signal hsignal => exact hsame (by rw [interrupted_eq hsignal]) (by rw [interrupted_eq hsignal])
    | @arrived i c t latency hd =>
      rcases hw with ⟨d, hmem, hid⟩ | ⟨x, hx, hid⟩ | ⟨e, he⟩
      · rcases mem_eraseIdx_or_eq hd hmem with hmem | rfl
        · exact .inl ⟨d, hmem, hid⟩
        · exact .inr (.inl ⟨c, List.mem_append_right _ (List.mem_singleton_self c), hid⟩)
      · exact .inr (.inl ⟨x, List.mem_append_left _ hx, hid⟩)
      · exact .inr (.inr ⟨e, hevents he⟩)
    | @declined i c t e hd =>
      rcases hw with ⟨d, hmem, hid⟩ | hconnected | ⟨e, he⟩
      · rcases mem_eraseIdx_or_eq hd hmem with hmem | rfl
        · exact .inl ⟨d, hmem, hid⟩
        · exact .inr (.inr ⟨e, hid ▸ List.mem_cons_self⟩)
      · exact .inr (.inl hconnected)
      · exact .inr (.inr ⟨e, hevents he⟩)
    | echoed | broken | start | retire => exact hsame rfl rfl
  | pass | failures | join | cancel | spawn => exact hsame rfl rfl

/-- **A batch hands over its members**, but for those whose attempts failed. -/
theorem connectBatch_members {first size : Nat} {watchful : Bool} {out : BatchOutcome}
    {seen : Option Failure}
    (h : w.connectBatch set fuel first size watchful = .ok (w', out, seen))
    (hn : n ∈ List.range' first size) :
    (∃ c ∈ out.connected, c.id = n) ∨ ∃ e, .resolved n (some e) ∈ w'.events := by
  have hdialed : Attempting n (w.dialBatch set first size) := by
    have hmem : n ∈ (w.dialBatch set first size).dials.map Dial.id := by
      rw [dialBatch_ids]
      exact List.mem_append_right _ hn
    exact .inl (List.mem_map.1 hmem)
  obtain ⟨⟨w1, seen1⟩, ha, he⟩ := map_eq_ok.1 h
  cases he
  obtain ⟨hattempting, hdials⟩ : Attempting n w1 ∧ w1.dials = [] := by
    refine attend_rule (I := fun _ => Attempting n) (Q := fun w1 _ => Attempting n w1 ∧ w1.dials = [])
      (fun _ w t h => h)
      (fun _ w w' h hs => attempting_lasting set n _ _ h (.internalStep hs)) ?_ hdialed ha
    intro s w w' b h hr
    cases hr with
    | alarm ha => cases ha
    | mail => exact h
    | joined _ _ hj => cases hj
    | ended he => exact ⟨h, List.isEmpty_iff.1 he⟩
  rcases hattempting with ⟨d, hd, -⟩ | ⟨c, hc, hid⟩ | hfailed
  · rw [hdials] at hd
    cases hd
  · exact .inl ⟨c, (List.mergeSort_perm ..).mem_iff.2 hc, hid⟩
  · exact .inr hfailed

/-! ## First rounds -/

def HasEndedRound (w : World) (n : Nat) : Prop := ∃ failure, .roundEnded n failure ∈ w.events

theorem HasEndedRound.mono (h : w.HasEndedRound n) (hevents : ∃ es, w'.events = es ++ w.events) :
    w'.HasEndedRound n := by
  obtain ⟨failure, he⟩ := h
  obtain ⟨es, hes⟩ := hevents
  exact ⟨failure, hes ▸ List.mem_append_right _ he⟩

theorem hasEndedRound_lasting (set : Setting) (n : Nat) : Lasting set (HasEndedRound · n) :=
  lasting_of_events (P := fun es => ∃ failure, .roundEnded n failure ∈ es)
    fun _ _ ⟨failure, he⟩ => ⟨failure, List.mem_cons_of_mem _ he⟩

theorem lived_suffix (n : Nat) {rounds rounds' : Nat} (h : rounds ≤ rounds') :
    lived n rounds <:+ lived n rounds' := by
  induction h with
  | refl => exact List.suffix_rfl
  | step _ ih => exact (ih.trans (List.suffix_cons ..)).trans (List.suffix_cons ..)

theorem lived_of_played {rounds : Nat} {failure : Option ClientError}
    (h : .roundEnded n failure ∈ lived n rounds) : lived n 1 <:+ lived n rounds := by
  cases rounds with
  | zero => simp [lived] at h
  | succ rounds => exact lived_suffix n (Nat.succ_le_succ (Nat.zero_le rounds))

/-- A client that ended a round while nothing has failed had its first round echoed. -/
theorem lived_of_hasEndedRound {o : ClientOptions} {held : List Client} (hc : Custody o held w)
    (hdials : w.dials = []) (hattempts : w.failedAttempts = []) (hrounds : w.failedRounds = [])
    (h : w.HasEndedRound n) : lived n 1 <:+ fiber Event.client n w.events := by
  obtain ⟨failure, he⟩ := h
  have hclean : ∀ e ∈ fiber Event.client n w.events, e.isFailure = false :=
    fun e he => isFailure_eq_false hattempts hrounds (mem_fiber.1 he).1
  have he : .roundEnded n failure ∈ fiber Event.client n w.events := mem_fiber.2 ⟨he, rfl⟩
  have hstanding := hc n
  rw [view, hdials] at hstanding
  generalize fiber Event.client n w.events = es at hclean he hstanding
  have hfailed : ∀ {e : ClientError} {past}, es ≠ .roundEnded n (some e) :: past := by
    rintro e past rfl
    exact absurd (hclean _ List.mem_cons_self) Bool.noConfusion
  have hrested : ∀ {c conn}, AtRest n c conn es → lived n 1 <:+ es := by
    intro c conn hr
    cases hr with
    | clean => exact lived_of_played he
    | failed => exact absurd rfl hfailed
  have hlast : ∀ {e : Event} {rounds}, e ≠ .roundEnded n failure → es = e :: lived n rounds →
      lived n 1 <:+ es := by
    rintro e rounds hne rfl
    exact (lived_of_played ((List.mem_cons.1 he).resolve_left hne.symm)).trans (List.suffix_cons ..)
  generalize fiber Client.id n (held ++ w.connected) = hands at hstanding
  generalize fiber Worker.id n w.workers = workers at hstanding
  generalize w.network.connections[n]? = conn at hstanding
  cases hstanding with
  | absent => cases he
  | declined => simp at he
  | working hw =>
    cases hw with
    | ready => exact lived_of_played he
    | busy => exact hlast Event.noConfusion rfl
    | done _ hr => exact hrested hr
  | held hr => exact hrested hr
  | past ho =>
    cases ho with
    | closed => exact hlast Event.noConfusion rfl
    | failed => exact absurd rfl hfailed

/-! ## Admission -/

/-- Unless the run was told to stop, the client `n` has ended a round or is in an admission loop that
will start one. -/
def Admitting (n : Nat) (w : World) : Prop :=
  w.active = true → w.HasEndedRound n ∨ ∃ k ∈ w.workers, k.id = n ∧ Ramp.isAdmission k = true ∧
    k.stage ≠ .done ∧ k.hasBudget = true

theorem InternalStep.admitting (hs : InternalStep set w w') (h : Admitting n w) : Admitting n w' := by
  intro hactive
  have hwait : WaitStep set w w' := .internalStep hs
  have hplayed : w.HasEndedRound n → w'.HasEndedRound n := by
    obtain ⟨es, hes, -⟩ := hwait.events
    exact fun h => h.mono ⟨es, hes⟩
  rcases h (hwait.active hactive) with h | ⟨k, hmem, hid, hadmission, hstage, hbudget⟩
  · exact .inl (hplayed h)
  · have hset : ∀ {i : Nat} {x : Worker} (y : Worker), w.workers[i]? = some x →
        (k = x → w'.HasEndedRound n ∨ y.id = n ∧ Ramp.isAdmission y = true ∧ y.stage ≠ .done ∧
          y.hasBudget = true) → w'.workers = w.workers.set i y →
        w'.HasEndedRound n ∨ ∃ k ∈ w'.workers, k.id = n ∧ Ramp.isAdmission k = true ∧
          k.stage ≠ .done ∧ k.hasBudget = true := by
      intro i x y hx hy hworkers
      rw [hworkers]
      rcases mem_set_or_eq y hx hmem with hmem | rfl
      · exact .inr ⟨k, hmem, hid, hadmission, hstage, hbudget⟩
      · obtain ⟨hi, -⟩ := List.getElem?_eq_some_iff.1 hx
        exact (hy rfl).imp_right fun hy => ⟨y, List.mem_set hi y, hy⟩
    cases hs with
    | signal hsignal =>
      rw [interrupted_eq hsignal]
      exact .inr ⟨k, hmem, hid, hadmission, hstage, hbudget⟩
    | arrived | declined => exact .inr ⟨k, hmem, hid, hadmission, hstage, hbudget⟩
    | @echoed i x t latency hx hb =>
      refine hset x.advance hx (fun he => .inl ⟨none, ?_⟩) rfl
      subst he
      exact hid ▸ List.mem_cons_self
    | @broken i x t e hx hb =>
      refine hset { x with stage := .done } hx (fun he => .inl ⟨some e, ?_⟩) rfl
      subst he
      exact hid ▸ List.mem_cons_self
    | @start i length x source hx hst =>
      refine hset _ hx (fun he => .inr ⟨?_, ?_, Stage.noConfusion, ?_⟩) rfl
      · exact (Client.echoRound_id ..).trans (he ▸ hid)
      · exact he ▸ hadmission
      · exact he ▸ hbudget
    | @retire i x hx hst hno =>
      refine hset { x with stage := .done } hx (fun he => ?_) rfl
      subst he
      have hactive : w.active = true := hactive
      rw [hactive, hbudget] at hno
      exact absurd hno Bool.noConfusion

end World

open World

namespace Ramp

variable {set : Setting} {fuel : Nat} {s : RampSettings} {w w' : World} {clients left : List Client}

theorem spawnAll_admitting {c : Client} (hc : c ∈ clients) :
    Admitting c.id (clients.foldl (spawn set (admissionPlan s)) w) := by
  intro _
  right
  refine ⟨w.newLoop set (admissionPlan s) c, ?_, rfl, rfl, Stage.noConfusion, rfl⟩
  rw [spawnAll_eq]
  exact List.mem_append_right _ (List.mem_map_of_mem hc)

/-- **Who is admitted has ended a round**, unless the run was told to stop. -/
theorem admitBatch_rounds (h : admitBatch set fuel s clients w = .ok (w', left)) {c : Client}
    (hc : c ∈ clients) (hactive : w'.active = true) : w'.HasEndedRound c.id := by
  have hend : w'.active = true → w'.HasEndedRound c.id := by
    refine attend_rule (I := fun _ => Admitting c.id)
      (Q := fun w _ => w.active = true → w.HasEndedRound c.id) (fun _ w t h => h)
      (fun _ w w' h hs => hs.admitting h) ?_ (spawnAll_admitting hc) h
    intro left w w' b h hr
    cases hr with
    | alarm ha => cases ha
    | mail hm => cases hm
    | @joined i k hk hs =>
      have hleft : Admitting c.id { w with workers := w.workers.eraseIdx i } := by
        intro hactive
        rcases h hactive with hplayed | ⟨x, hx, hid, hadmission, hstage, hbudget⟩
        · exact .inl hplayed
        · rcases mem_eraseIdx_or_eq hk hx with hx | rfl
          · exact .inr ⟨x, hx, hid, hadmission, hstage, hbudget⟩
          · exact absurd hs hstage
      simp only [admitting]
      by_cases hopen : k.client.isOpen = true
      · rw [if_pos hopen]
        intro hactive
        rcases hleft hactive with hplayed | ⟨x, hx, hloop⟩
        · exact .inl hplayed
        · exact .inr ⟨x, List.mem_append_left _ hx, hloop⟩
      · rw [if_neg hopen]
        exact hleft
    | ended he =>
      intro hactive
      rcases h hactive with hplayed | ⟨x, hx, -, hadmission, -⟩
      · exact hplayed
      have hnone : w.workers.any isAdmission = false := by simpa [admitting] using he
      exact absurd hadmission (by simpa using List.any_eq_false.1 hnone x hx)
  exact hend hactive

end Ramp

end EchoLoad
