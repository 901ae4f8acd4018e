import EchoLoad.Proofs.RunStep
import EchoLoad.Proofs.Settled
import EchoLoad.Proofs.Quiescent
/-!
What an interrupt does to a run. Until its time has come it is among the signals; then it sets the
stop latch and clears the run flag, and from there on nothing begins. Main statement:
`RunSteps.stoppedAt`, for whatever happens to a world.
-/

namespace EchoLoad

def Event.isStart : Event → Bool
  | attempt _ | roundStarted _ => true
  | _ => false

namespace World

/-- An interrupt is to come at `t`, not earlier than now, and interrupts come in order of time. -/
structure InterruptAhead (t : Duration) (w : World) : Prop where
  mem : (t, .interrupt) ∈ w.signals
  sorted : w.signals.Pairwise fun x y => x.1 ≤ y.1
  now_le : w.now ≤ t

/-- The interrupt at `t` has arrived, or its time has passed. -/
def InterruptReached (t : Duration) (w : World) : Prop := t < w.now ∨ (t, .interrupt) ∉ w.signals

/-- From `w` to `w'` nothing began: no attempt, no round, and no request on a connection. The
handshake of an attempt is counted among the requests from the beginning of the attempt on. -/
structure NothingBegins (w w' : World) : Prop where
  journal : ∃ es, w'.journal = es ++ w.journal ∧ ∀ x ∈ es, x.2.isStart = false
  requests : w'.network.connections.map Connection.requests =
    w.network.connections.map Connection.requests

/-- A world of a run from `w₀` with an interrupt at `t`. Nothing has begun after `t`; and once the
interrupt was heard the stop latch is set, and nothing has begun since some world of the time `t`. -/
structure StoppedAt (set : Setting) (w₀ : World) (t : Duration) (w : World) : Prop where
  starts : ∀ x ∈ w.journal, x.2.isStart = true → x.1 ≤ t
  reached : w.InterruptReached t → w.stopped = true ∧
    ∃ w₁, RunSteps set w₀ w₁ ∧ RunSteps set w₁ w ∧ w₁.now = t ∧ w₁.NothingBegins w

variable {set : Setting} {t : Duration} {w₀ w w' w'' : World}

namespace NothingBegins

theorem of_eq (hjournal : w'.journal = w.journal) (hnetwork : w'.network = w.network) :
    w.NothingBegins w' :=
  ⟨⟨[], hjournal, by simp⟩, by rw [hnetwork]⟩

theorem note {x : Duration × Event} (hx : x.2.isStart = false) (hjournal : w'.journal = x :: w.journal)
    (hnetwork : w'.network = w.network) : w.NothingBegins w' :=
  ⟨⟨[x], hjournal, by simpa using hx⟩, by rw [hnetwork]⟩

theorem trans (h : w.NothingBegins w') (h' : w'.NothingBegins w'') : w.NothingBegins w'' := by
  obtain ⟨es, hes, hstart⟩ := h.journal
  obtain ⟨es', hes', hstart'⟩ := h'.journal
  refine ⟨⟨es' ++ es, ?_, fun x hx => ?_⟩, h'.requests.trans h.requests⟩
  · rw [hes', hes, List.append_assoc]
  · rcases List.mem_append.1 hx with hx | hx
    · exact hstart' x hx
    · exact hstart x hx

end NothingBegins

/-! ## One thing that happens -/

theorem RunStep.journal (h : RunStep set w w') :
    w.now ≤ w'.now ∧ ∃ es, w'.journal = es ++ w.journal ∧ ∀ x ∈ es, x.1 = w'.now := by
  have hnothing : ∀ {w' : World}, w'.now = w.now → w'.journal = w.journal →
      w.now ≤ w'.now ∧ ∃ es, w'.journal = es ++ w.journal ∧ ∀ x ∈ es, x.1 = w'.now :=
    fun hnow hjournal => ⟨hnow ▸ Nat.le_refl _, [], hjournal, by simp⟩
  have hnote : ∀ {w' : World} {e : Event}, w'.now = w.now → w'.journal = (w.now, e) :: w.journal →
      w.now ≤ w'.now ∧ ∃ es, w'.journal = es ++ w.journal ∧ ∀ x ∈ es, x.1 = w'.now :=
    fun hnow hjournal => ⟨hnow ▸ Nat.le_refl _, [_], hjournal, by simp [hnow]⟩
  cases h with
  | pass hle => exact ⟨hle, [], rfl, by simp⟩
  | internalStep hs =>
    cases hs with
    | signal hsignal =>
      rw [interrupted_eq hsignal]
      exact hnothing rfl rfl
    | arrived | declined | echoed | broken | start => exact hnote rfl rfl
    | retire => exact hnothing rfl rfl
  | dial => exact hnote rfl rfl
  | close c =>
    unfold World.close
    split
    · exact hnote rfl rfl
    · exact hnothing rfl rfl
  | failures | join | cancel | restart | handOver | spawn | release | sink => exact hnothing rfl rfl

theorem RunStep.signals (h : RunStep set w w') :
    (w'.signals = w.signals ∧ (w.InterruptAhead t → w'.now ≤ t)) ∨
      ∃ x rest, w.signals = x :: rest ∧ x.1 ≤ w.now ∧ w' = w.interrupted := by
  have hsame : ∀ {w' : World}, w'.signals = w.signals → w'.now = w.now →
      w'.signals = w.signals ∧ (w.InterruptAhead t → w'.now ≤ t) :=
    fun hsignals hnow => ⟨hsignals, fun ht => hnow ▸ ht.now_le⟩
  cases h with
  | pass hle hhead =>
    left
    refine ⟨rfl, fun ht => ?_⟩
    obtain ⟨x, rest, hsignals⟩ := List.exists_cons_of_ne_nil (List.ne_nil_of_mem ht.mem)
    have hsorted := ht.sorted
    have hmem := ht.mem
    rw [hsignals] at hsorted hmem
    have hx : x.1 ≤ t := by
      rcases List.mem_cons.1 hmem with rfl | hrest
      · exact Nat.le_refl _
      · exact (List.pairwise_cons.1 hsorted).1 _ hrest
    have hnow := hhead x (by rw [hsignals]; rfl)
    exact hnow.trans (Nat.max_le.2 ⟨ht.now_le, hx⟩)
  | internalStep hs =>
    cases hs with
    | signal hsignal hle => exact .inr ⟨_, _, hsignal, hle, rfl⟩
    | arrived | declined | echoed | broken | start | retire => exact .inl (hsame rfl rfl)
  | close c =>
    unfold World.close
    split <;> exact .inl (hsame rfl rfl)
  | failures | join | cancel | restart | dial | handOver | spawn | release | sink =>
    exact .inl (hsame rfl rfl)

theorem release_requests (clients : List Client) (w : World) :
    (w.release clients).network.connections.map Connection.requests =
      w.network.connections.map Connection.requests := by
  refine List.ext_getElem? fun n => ?_
  rw [List.getElem?_map, List.getElem?_map, release_getElem?, Option.map_map]
  refine congrArg (Option.map · _) (funext fun conn => ?_)
  simp only [Function.comp_apply, Connection.drop]
  split
  · split <;> rfl
  · rfl

/-- **Once the latch is set and the flag clear, nothing begins**, and they stay so. -/
theorem RunStep.nothingBegins (h : RunStep set w w') (hstopped : w.stopped = true)
    (hactive : w.active = false) :
    w'.stopped = true ∧ w'.active = false ∧ w.NothingBegins w' := by
  have hsame : ∀ {w' : World}, w'.stopped = w.stopped → w'.active = w.active → w.NothingBegins w' →
      w'.stopped = true ∧ w'.active = false ∧ w.NothingBegins w' :=
    fun hs ha h => ⟨hs.trans hstopped, ha.trans hactive, h⟩
  cases h with
  | internalStep hs =>
    cases hs with
    | signal hsignal =>
      rw [interrupted_eq hsignal]
      exact ⟨by simp [hstopped], by simp [hactive], .of_eq rfl rfl⟩
    | arrived | declined | echoed | broken => exact hsame rfl rfl (.note rfl rfl rfl)
    | start _ _ ha => exact absurd (ha.symm.trans hactive) Bool.noConfusion
    | retire => exact hsame rfl rfl (.of_eq rfl rfl)
  | dial _ hs => exact absurd (hstopped.symm.trans hs) Bool.noConfusion
  | restart => exact ⟨hstopped, by simp [hstopped], .of_eq rfl rfl⟩
  | cancel => exact ⟨hstopped, rfl, .of_eq rfl rfl⟩
  | close c =>
    have hrequests := (close_onlyCloses w c).requests
    unfold World.close at hrequests ⊢
    split at hrequests <;> split
    · exact hsame rfl rfl ⟨⟨[_], rfl, by simp [Event.isStart]⟩, hrequests⟩
    · contradiction
    · contradiction
    · exact hsame rfl rfl (.of_eq rfl rfl)
  | release clients => exact hsame rfl rfl ⟨⟨[], rfl, by simp⟩, release_requests clients w⟩
  | pass | failures | join | handOver | spawn | sink => exact hsame rfl rfl (.of_eq rfl rfl)

/-! ## All that happens -/

/-- The interrupt at `t` is to come, or it came in some world and nothing has begun since. -/
inductive AheadOrStopped (set : Setting) (w₀ : World) (t : Duration) (w : World) : Prop
  | coming : w.InterruptAhead t → (∀ x ∈ w.journal, x.1 ≤ w.now) → AheadOrStopped set w₀ t w
  | passed {w₁ : World} : w.stopped = true → w.active = false → RunSteps set w₀ w₁ →
      RunSteps set w₁ w →
      w₁.now = t → w₁.NothingBegins w → (∀ x ∈ w₁.journal, x.1 ≤ t) → AheadOrStopped set w₀ t w

theorem AheadOrStopped.runStep (h : AheadOrStopped set w₀ t w) (hw : RunSteps set w₀ w)
    (hmove : RunStep set w w') :
    AheadOrStopped set w₀ t w' := by
  cases h with
  | passed hstopped hactive hbefore hsince hnow hdown hearly =>
    obtain ⟨hs, ha, hdown'⟩ := hmove.nothingBegins hstopped hactive
    exact .passed hs ha hbefore (hsince.tail hmove) hnow (hdown.trans hdown') hearly
  | coming ht hearly =>
    obtain ⟨hle, es, hjournal, hes⟩ := hmove.journal
    have hearly' : ∀ x ∈ w'.journal, x.1 ≤ w'.now := by
      intro x hx
      rw [hjournal] at hx
      rcases List.mem_append.1 hx with hx | hx
      · exact Nat.le_of_eq (hes x hx)
      · exact (hearly x hx).trans hle
    rcases hmove.signals (t := t) with ⟨hsignals, hnow⟩ | ⟨x, rest, hsignals, hx, rfl⟩
    · exact .coming ⟨hsignals ▸ ht.mem, hsignals ▸ ht.sorted, hnow ht⟩ hearly'
    · have heq := interrupted_eq hsignals
      by_cases harrives : x = (t, .interrupt)
      · subst harrives
        rw [heq] at hmove hearly' ⊢
        have hnow : w.now = t := Nat.le_antisymm ht.now_le hx
        refine .passed (by simp) (by simp) (hw.tail hmove) .refl hnow (.of_eq rfl rfl) fun y hy => ?_
        exact (hearly' y hy).trans (Nat.le_of_eq hnow)
      · have hsorted := ht.sorted
        have hmem := ht.mem
        rw [hsignals] at hsorted hmem
        rw [heq] at hearly' ⊢
        refine .coming ⟨?_, (List.pairwise_cons.1 hsorted).2, ht.now_le⟩ hearly'
        exact (List.mem_cons.1 hmem).resolve_left fun h => harrives h.symm

theorem AheadOrStopped.stoppedAt (h : AheadOrStopped set w₀ t w) : StoppedAt set w₀ t w := by
  cases h with
  | coming ht hearly =>
    constructor
    · exact fun x hx _ => (hearly x hx).trans ht.now_le
    · rintro (htime | harrived)
      · exact absurd ht.now_le (Nat.not_le.2 htime)
      · exact absurd ht.mem harrived
  | @passed w₁ hstopped hactive hbefore hsince hnow hdown hearly =>
    constructor
    · intro x hx hstart
      obtain ⟨es, hjournal, hes⟩ := hdown.journal
      rw [hjournal] at hx
      rcases List.mem_append.1 hx with hx | hx
      · exact absurd (hstart.symm.trans (hes x hx)) Bool.noConfusion
      · exact hearly x hx
    · exact fun _ => ⟨hstopped, w₁, hbefore, hsince, hnow, hdown⟩

/-- **Whatever happens to a world, an interrupt is heeded.** -/
theorem RunSteps.stoppedAt (hjournal : w₀.journal = []) (ht : w₀.InterruptAhead t)
    (h : RunSteps set w₀ w) :
    StoppedAt set w₀ t w := by
  have hahead : AheadOrStopped set w₀ t w := by
    induction h with
    | refl => exact .coming ht (by simp [hjournal])
    | tail hw hmove ih => exact ih.runStep hw hmove
  exact hahead.stoppedAt

end World

end EchoLoad
