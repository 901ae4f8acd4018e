import EchoLoad.Proofs.Quota
import EchoLoad.Proofs.Returns
import EchoLoad.Random.SplitMix
/-!
A crew that is waited for, whatever its loops, the deadline and the order of what falls on one
instant. Its clients come back, each once and in the order of their ids, with the first failure that
was sent; once told to stop no loop starts a round, and no round is cut off. Main statement:
`joinAll_contract`.
-/

namespace EchoLoad

/-! ## Rounds under way -/

namespace Event

def ends (n : Nat) (es : List Event) : Nat :=
  es.countP fun
    | roundEnded m _ => m = n
    | _ => false

def failures (es : List Event) : List Failure := es.reverse.filterMap failedRound?

theorem failures_append (new es : List Event) :
    failures (new ++ es) = failures es ++ failures new := by
  simp [failures]

end Event

def Worker.isInRound (n : Nat) (k : Worker) : Bool :=
  match k.stage with
  | .busy _ => k.id = n
  | _ => false

/-- The rounds of the client `n` that are under way. -/
def World.underWay (n : Nat) (w : World) : Nat := w.workers.countP (Worker.isInRound n)

namespace World

variable {set : Setting} {w₀ w w' : World} {es : List Event} {c : Crew} {i : Nat} {k : Worker}

/-- What has become of the crew of `w₀` since then: who is still in a loop and who is back, which
failures were sent and received, and which rounds began and ended. -/
structure Crew.Tracks (w₀ : World) (es : List Event) (c : Crew) (w : World) : Prop where
  events : w.events = es ++ w₀.events
  members : (w.workers.map Worker.id ++ c.clients.map Client.id).Perm (w₀.workers.map Worker.id)
  failures : w₀.failures ++ Event.failures es = c.first.toList ++ w.failures
  rounds : ∀ n, Event.starts n es + w₀.underWay n = Event.ends n es + w.underWay n

namespace Crew.Tracks

theorem refl (w : World) {limit : Option Duration} : Tracks w [] { deadline := limit } w := by
  constructor <;> simp [Event.failures, Event.starts, Event.ends]

theorem add (h : Tracks w₀ es c w) (new : List Event) (hevents : w'.events = new ++ w.events)
    (hids : w'.workers.map Worker.id = w.workers.map Worker.id)
    (hfailures : w'.failures = w.failures ++ Event.failures new)
    (hrounds : ∀ n, Event.starts n new + w.underWay n = Event.ends n new + w'.underWay n) :
    Tracks w₀ (new ++ es) c w' := by
  constructor
  · rw [hevents, h.events, List.append_assoc]
  · rw [hids]
    exact h.members
  · rw [Event.failures_append, ← List.append_assoc, h.failures, hfailures, List.append_assoc]
  · intro n
    have hstarts : Event.starts n (new ++ es) = Event.starts n new + Event.starts n es :=
      List.count_append ..
    have hends : Event.ends n (new ++ es) = Event.ends n new + Event.ends n es :=
      List.countP_append ..
    have := hrounds n
    have := h.rounds n
    omega

theorem aside (h : Tracks w₀ es c w) (new : List Event) (hevents : w'.events = new ++ w.events)
    (hnew : ∀ e ∈ new, e.isRound = false) (hworkers : w'.workers = w.workers)
    (hfailures : w'.failures = w.failures) : Tracks w₀ (new ++ es) c w' := by
  have hfailed : Event.failures new = [] := by
    rw [Event.failures, List.filterMap_eq_nil_iff]
    intro e he
    have := hnew e (List.mem_reverse.1 he)
    cases e <;> simp_all [Event.failedRound?, Event.isRound]
  refine h.add new hevents (by rw [hworkers]) (by simp [hfailures, hfailed]) fun n => ?_
  have hstarts : Event.starts n new = 0 := by
    rw [Event.starts, List.count_eq_zero]
    intro he
    exact absurd (hnew _ he) Bool.noConfusion
  have hends : Event.ends n new = 0 := by
    rw [Event.ends, List.countP_eq_zero]
    intro e he
    have := hnew e he
    cases e <;> simp_all [Event.isRound]
  rw [hstarts, hends, underWay, underWay, hworkers]

theorem set_worker (h : Tracks w₀ es c w) (new : List Event) (k' : Worker)
    (hk : w.workers[i]? = some k) (hid : k'.id = k.id) (hworkers : w'.workers = w.workers.set i k')
    (hevents : w'.events = new ++ w.events)
    (hfailures : w'.failures = w.failures ++ Event.failures new)
    (hrounds : ∀ n, Event.starts n new + (k.isInRound n).toNat =
      Event.ends n new + (k'.isInRound n).toNat) : Tracks w₀ (new ++ es) c w' := by
  refine h.add new hevents ?_ hfailures fun n => ?_
  · rw [hworkers]
    exact map_set_same hk hid
  · have hcount := countP_set_add (p := Worker.isInRound n) hk k'
    have := hrounds n
    rw [underWay, underWay, hworkers]
    omega

/-- **Whatever happens while a crew is waited for, it is kept track of.** -/
theorem internalStep (h : Tracks w₀ es c w) (hs : InternalStep set w w') :
    ∃ es', Tracks w₀ es' c w' := by
  cases hs with
  | signal hsignal =>
    rw [interrupted_eq hsignal]
    exact ⟨_, h.aside [] rfl (by simp) rfl rfl⟩
  | @arrived i d => exact ⟨_, h.aside [.resolved d.id none] rfl (by simp [Event.isRound]) rfl rfl⟩
  | @declined i d t e =>
    exact ⟨_, h.aside [.resolved d.id (some e)] rfl (by simp [Event.isRound]) rfl rfl⟩
  | @echoed i k t latency hk hs =>
    refine ⟨_, h.set_worker [.roundEnded k.id none] k.advance hk rfl rfl rfl
      (List.append_nil _).symm fun n => ?_⟩
    by_cases hn : k.id = n <;>
      simp [Event.starts, Event.ends, Worker.isInRound, Worker.advance, hs, hn]
  | @broken i k t e hk hs =>
    refine ⟨_, h.set_worker [.roundEnded k.id (some e)] { k with stage := .done } hk rfl rfl rfl rfl
      fun n => ?_⟩
    by_cases hn : k.id = n <;> simp [Event.starts, Event.ends, Worker.isInRound, hs, hn]
  | @start i length k source hk hs =>
    let call := k.client.echoRound set.options w.now (Payload.fill length source).1 w.network
    let k' : Worker := { k with
      client := call.client, source := (Payload.fill length source).2, stage := .busy call.ending }
    have hid : k'.id = k.id := Client.echoRound_id ..
    refine ⟨_, h.set_worker [.roundStarted k.id] k' hk hid rfl rfl (List.append_nil _).symm
      fun n => ?_⟩
    have hround : k'.isInRound n = decide (k.id = n) := congrArg (fun m => decide (m = n)) hid
    have hready : k.isInRound n = false := by simp [Worker.isInRound, hs]
    by_cases hn : k.id = n <;> simp [Event.starts, Event.ends, hround, hready, hn]
  | @retire i k hk hs =>
    refine ⟨_, h.set_worker [] { k with stage := .done } hk rfl rfl rfl (List.append_nil _).symm
      fun n => ?_⟩
    simp [Event.starts, Event.ends, Worker.isInRound, hs]

theorem mail (h : Tracks w₀ es c w) {f : Failure} {rest : List Failure} (hfirst : c.first = none)
    (hf : w.failures = f :: rest) :
    Tracks w₀ es { c with first := some f } ({ w with failures := rest } : World).cancel := by
  constructor
  · exact h.events
  · exact h.members
  · rw [h.failures, hfirst, hf]
    rfl
  · exact h.rounds

theorem join (h : Tracks w₀ es c w) (hk : w.workers[i]? = some k) (hdone : k.stage = .done) :
    Tracks w₀ es { c with clients := c.clients ++ [k.client] }
      { w with workers := w.workers.eraseIdx i } := by
  constructor
  · exact h.events
  · obtain ⟨hi, rfl⟩ := List.getElem?_eq_some_iff.1 hk
    have hperm := ((List.getElem_cons_eraseIdx_perm hi).map Worker.id).append_right
      (c.clients.map Client.id)
    refine .trans ?_ (hperm.trans h.members)
    rw [List.map_append, List.map_singleton, ← List.append_assoc]
    exact List.perm_append_singleton _ _
  · exact h.failures
  · intro n
    have hout : k.isInRound n = false := by simp [Worker.isInRound, hdone]
    have herase := countP_eraseIdx_add (p := Worker.isInRound n) hk
    rw [hout, Bool.toNat_false, Nat.add_zero] at herase
    exact (h.rounds n).trans (congrArg (Event.ends n es + ·) herase.symm)

end Crew.Tracks

/-! ## A wait on its way -/

/-- A wait goes on, behind an internal step or when woken. -/
inductive AttendStep {σ ρ : Type} (set : Setting) (watch : Watch σ ρ) : σ × World → σ × World → Prop
  | moves {s : σ} {w w' : World} : w.step set (watch.waiting s) = .ok (w', none) →
      AttendStep set watch (s, w) (s, w')
  | reacts {s s' : σ} {w w' w'' : World} {wakeup : Wakeup} :
      w.step set (watch.waiting s) = .ok (w', some wakeup) →
        watch.react s wakeup w' = (w'', .inl s') → AttendStep set watch (s, w) (s', w'')

abbrev AttendSteps {σ ρ : Type} (set : Setting) (watch : Watch σ ρ) : σ × World → σ × World → Prop :=
  Relation.ReflTransGen (AttendStep set watch)

section

variable {σ ρ : Type} {watch : Watch σ ρ} {x y : σ × World}

theorem AttendSteps.keeps {I : σ → World → Prop} (htick : ∀ s, Timeless (I s))
    (hinternal : ∀ s w w', I s w → InternalStep set w w' → I s w')
    (hwakeup : ∀ s w w' b, I s w → Wakes (watch.waiting s) w w' b →
      match watch.react s b w' with
      | (w'', .inl s') => I s' w''
      | _ => True)
    (h : AttendSteps set watch x y) (hx : I x.1 x.2) : I y.1 y.2 := by
  induction h with
  | refl => exact hx
  | tail _ hattend ih =>
    cases hattend with
    | @moves s w w' hstep =>
      obtain ⟨t, -, ⟨-, hsteps⟩ | ⟨wakeup, hb, -⟩⟩ := step_ok hstep
      · exact InternalSteps.preserve (hinternal s) (htick s w t ih) hsteps
      · cases hb
    | @reacts s s' w w' w'' wakeup hstep hreact =>
      obtain ⟨t, -, ⟨hb, -⟩ | ⟨wakeup', hb, hwakes⟩⟩ := step_ok hstep
      · cases hb
      · cases hb
        have hnext := hwakeup s _ _ _ (htick s w t ih) hwakes
        rwa [hreact] at hnext

theorem AttendSteps.attend (h : AttendSteps set watch x y) {fuel : Nat} {r : World × ρ}
    (ha : x.2.attend set watch fuel x.1 = .ok r) :
    ∃ fuel', y.2.attend set watch fuel' y.1 = .ok r := by
  induction h using Relation.ReflTransGen.head_induction_on generalizing fuel with
  | refl => exact ⟨fuel, ha⟩
  | head hattend _ ih =>
    cases fuel with
    | zero => cases ha
    | succ fuel =>
      cases hattend with
      | moves hstep =>
        simp only [World.attend, hstep] at ha
        exact ih ha
      | reacts hstep hreact =>
        simp only [World.attend, hstep, hreact] at ha
        exact ih ha

end

/-! ## The crew -/

variable {fuel : Nat} {limit : Option Duration} {clients : List Client} {failure : Option Failure}

def Crew.start (limit : Option Duration) (w : World) : Crew :=
  { deadline := limit.map (w.now + ·) }

def Crew.Warned (limit : Option Duration) (c : Crew) : Prop :=
  limit ≠ none ∧ c.deadline = none ∨ c.first ≠ none

theorem attend_tracks {w' : World} (h : w.attend set joining fuel (Crew.start limit w) = .ok (w', c)) :
    ∃ es, Crew.Tracks w es c w' ∧ w'.workers = [] := by
  refine attend_rule (I := fun c w₁ => ∃ es, Crew.Tracks w es c w₁)
    (Q := fun w₁ c => ∃ es, Crew.Tracks w es c w₁ ∧ w₁.workers = []) ?_ ?_ ?_ ⟨[], .refl w⟩ h
  · exact fun c w₁ t ⟨es, h⟩ => ⟨es, h.events, h.members, h.failures, h.rounds⟩
  · exact fun c w₁ w₂ ⟨es, h⟩ hs => h.internalStep hs
  · rintro c w₁ w₂ b ⟨es, h⟩ hr
    cases hr with
    | alarm => exact ⟨es, h.events, h.members, h.failures, h.rounds⟩
    | mail hm hf => exact ⟨es, h.mail (by simpa [joining] using hm) hf⟩
    | joined hk hdone => exact ⟨es, h.join hk hdone⟩
    | ended he => exact ⟨es, h, List.isEmpty_iff.1 he⟩

/-- A crew that has been warned finds the flag clear. -/
theorem AttendSteps.warned (h : AttendSteps set joining (Crew.start limit w₀, w₀) (c, w))
    (hwarned : c.Warned limit) : w.active = false := by
  refine h.keeps (I := fun c w => c.Warned limit → w.active = false) ?_ ?_ ?_ ?_ hwarned
  · exact fun _ _ _ h => h
  · exact fun _ _ _ h hs hwarned => hs.inactive (h hwarned)
  · intro c w w' b h hr
    cases hr with
    | alarm | mail => exact fun _ => rfl
    | joined => exact h
    | ended => trivial
  · rintro (⟨hlimit, hnone⟩ | hfirst)
    · exact absurd (Option.map_eq_none_iff.1 hnone) hlimit
    · exact absurd rfl hfirst

theorem AttendSteps.inactive {c' : Crew} {w' : World} (h : AttendSteps set joining (c, w) (c', w'))
    (hactive : w.active = false) : w'.active = false := by
  refine h.keeps (I := fun _ w => w.active = false) (fun _ _ _ h => h)
    (fun _ _ _ h hs => hs.inactive h) ?_ hactive
  intro c w w' b h hr
  cases hr with
  | alarm | mail => rfl
  | joined => exact h
  | ended => trivial

/-- No loop starts a round any more. -/
structure NoMoreRounds (w w' : World) : Prop where
  inactive : w'.active = false
  starts : ∃ es, w'.events = es ++ w.events ∧ ∀ n, Event.starts n es = 0

theorem NoMoreRounds.internalStep (h : w₀.NoMoreRounds w) (hs : InternalStep set w w') :
    w₀.NoMoreRounds w' := by
  obtain ⟨es, hes, hstarts⟩ := h.starts
  have hmore : ∀ e, w'.events = e :: w.events → (∀ n, e ≠ .roundStarted n) →
      ∃ es, w'.events = es ++ w₀.events ∧ ∀ n, Event.starts n es = 0 := by
    intro e hw' he
    refine ⟨e :: es, by rw [hw', hes]; rfl, fun n => ?_⟩
    rw [Event.starts, List.count_cons_of_ne (he n)]
    exact hstarts n
  refine ⟨hs.inactive h.inactive, ?_⟩
  cases hs with
  | signal hsignal =>
    rw [interrupted_eq hsignal]
    exact ⟨es, hes, hstarts⟩
  | arrived | declined | echoed | broken => exact hmore _ rfl fun n => Event.noConfusion
  | start _ _ hactive => exact absurd (h.inactive.symm.trans hactive) Bool.noConfusion
  | retire => exact ⟨es, hes, hstarts⟩

/-- Once the flag is clear the crew only ends the rounds that are under way. -/
theorem attend_noMoreRounds {c' : Crew} (h : w.attend set joining fuel c = .ok (w', c'))
    (hactive : w.active = false) : w.NoMoreRounds w' := by
  refine attend_rule (I := fun _ => w.NoMoreRounds) (Q := fun w₁ _ => w.NoMoreRounds w₁) ?_ ?_ ?_
    ⟨hactive, [], rfl, fun n => rfl⟩ h
  · exact fun c w₁ t h => ⟨h.inactive, h.starts⟩
  · exact fun c w₁ w₂ h hs => h.internalStep hs
  · intro c w₁ w₂ b h hr
    cases hr with
    | alarm | mail => exact ⟨rfl, h.starts⟩
    | joined | ended => exact ⟨h.inactive, h.starts⟩

theorem joinAll_accounts (h : w.joinAll set fuel limit = .ok (w', clients, failure)) :
    (clients.map Client.id).Perm (w.workers.map Worker.id) ∧ w'.workers = [] ∧
      ∃ es, w'.events = es ++ w.events ∧
        failure = (w.failures ++ Event.failures es).head? ∧
        failure.toList ++ w'.failures = w.failures ++ Event.failures es ∧
        ∀ n, w.underWay n + Event.starts n es = Event.ends n es := by
  obtain ⟨w₁, c, failures, ha, rfl, rfl, hfailure⟩ := joinAll_ok h
  obtain ⟨es, htracks, hworkers⟩ := attend_tracks ha
  have hback := htracks.members
  rw [hworkers, List.map_nil, List.nil_append] at hback
  refine ⟨((Client.sortById_perm _).map _).trans hback, hworkers, es, htracks.events, ?_, ?_, ?_⟩
  · rw [htracks.failures]
    obtain ⟨rfl, rfl, hnone⟩ | ⟨f, hfirst, rfl, hf⟩ := hfailure
    · cases hfirst : c.first with
      | none => simp [hnone hfirst]
      | some f => rfl
    · rw [hfirst, hf]
      rfl
  · rw [htracks.failures]
    obtain ⟨rfl, rfl, -⟩ | ⟨f, hfirst, rfl, hf⟩ := hfailure
    · rfl
    · rw [hfirst, hf]
      rfl
  · intro n
    have hnone : w₁.underWay n = 0 := by rw [underWay, hworkers, List.countP_nil]
    have := htracks.rounds n
    omega

theorem joinAll_noMoreRounds (h : w₀.joinAll set fuel limit = .ok (w', clients, failure))
    (hon : AttendSteps set joining (Crew.start limit w₀, w₀) (c, w)) (hactive : w.active = false) :
    w.NoMoreRounds w' := by
  obtain ⟨w₁, c₁, failures, ha, -, rfl, -⟩ := joinAll_ok h
  obtain ⟨fuel', hrest⟩ := hon.attend ha
  have hends := attend_noMoreRounds hrest hactive
  exact ⟨hends.inactive, hends.starts⟩

/-- **What comes of waiting for a crew.** Whatever its loops are in the middle of, and in whichever
order joins, failures and the deadline are handled, the clients handed over are those of the crew, each
once, by id. With them comes the first of the failures sent, and none only if none was sent; the others
stay on the channel. Every round that was under way or began in the meantime has ended. While this goes
on a flag that is clear stays so, and once the deadline has been handled or a failure has been received
it is clear and no loop starts a round. Where nothing takes for ever all of this comes to pass. -/
theorem joinAll_contract (set : Setting) (limit : Option Duration) (w : World) :
    (∀ fuel w' clients failure, w.joinAll set fuel limit = .ok (w', clients, failure) →
      ((clients.map Client.id).Pairwise (· ≤ ·) ∧
        (clients.map Client.id).Perm (w.workers.map Worker.id) ∧ w'.workers = []) ∧
      (∃ es, w'.events = es ++ w.events ∧
        failure = (w.failures ++ Event.failures es).head? ∧
        failure.toList ++ w'.failures = w.failures ++ Event.failures es ∧
        ∀ n, w.underWay n + Event.starts n es = Event.ends n es) ∧
      ∀ c w₁, AttendSteps set joining (Crew.start limit w, w) (c, w₁) →
        (w₁.active = false → w'.active = false ∧
          ∀ c₂ w₂, AttendSteps set joining (c, w₁) (c₂, w₂) → w₂.active = false) ∧
        (c.Warned limit → w₁.active = false ∧
          ∃ es, w'.events = es ++ w₁.events ∧ ∀ n, Event.starts n es = 0)) ∧
    ∀ plans, set.options.Timed → (∀ plan, plans plan → ∃ n, plan.payload.Allows n) →
      w.WaitsEnd plans → (limit ≠ none ∨ ∀ plan, plans plan → plan.rounds ≠ none) →
      Returns fun fuel => w.joinAll set fuel limit := by
  constructor
  · intro fuel w' clients failure h
    obtain ⟨hback, hworkers, haccounts⟩ := joinAll_accounts h
    obtain ⟨w₁, c, failures, -, rfl, -⟩ := joinAll_ok h
    refine ⟨⟨Client.sortById_sorted _, hback, hworkers⟩, haccounts, fun c w₁ hon => ⟨?_, ?_⟩⟩
    · intro hactive
      exact ⟨(joinAll_noMoreRounds h hon hactive).inactive, fun _ _ hlater => hlater.inactive hactive⟩
    · intro hwarned
      have hactive := hon.warned hwarned
      exact ⟨hactive, (joinAll_noMoreRounds h hon hactive).starts⟩
  · exact fun plans ho hplans hw hlimit => joinAll_returns ho hplans hw hlimit

/-- The peer of one client hangs up in its second round, well before the deadline. The other client
is in a round then, which ends before the wait does. -/
theorem joinAll_contract_failure :
    let set : Setting :=
      { options := { connectTimeout := some 1000000, ioTimeout := some 9000000 }
        source := SplitMix.source #[] 0 }
    let slow : Connection := { peer := { latency := 3000000 }, fate := .open }
    let brief : Connection := { peer := { replies := [.echo, .hangup] }, fate := .open }
    let clients : List Client :=
      [{ id := 8, state := .connected, stream := some 0 },
        { id := 5, state := .connected, stream := some 1 }]
    let w : World := clients.foldl (spawn set { payload := .fixed 0 })
      { active := true, network := { connections := [slow, brief] } }
    Returns (fun fuel => w.joinAll set fuel (some 20000000)) ∧
      ∃ w' clients, w.joinAll set 20 (some 20000000) =
          .ok (w', clients, some ⟨5, .protocol (.truncated 4 0)⟩) ∧
        clients.map Client.id = [5, 8] ∧ w'.workers = [] ∧
        ∃ es, w'.events = es ++ w.events ∧ Event.starts 8 es = Event.ends 8 es := by
  intro set slow brief clients w
  obtain ⟨hjoined, hreturns⟩ := joinAll_contract set (some 20000000) w
  constructor
  · apply hreturns fun plan => plan = { payload := .fixed 0 }
    · constructor <;> decide
    · rintro plan rfl
      exact ⟨0, rfl⟩
    · constructor
      · constructor
        · intro n
          have hrest : w.network.peer n = {} := rfl
          rw [hrest]
          decide
        · decide
      · simp [w, clients, spawn]
      · simp [w, clients, spawn]
      · simp [w, clients, spawn]
    · exact .inl (by decide)
  · have hrun : ((w.joinAll set 20 (some 20000000)).toOption.any fun x =>
        x.2.2 = some ⟨5, .protocol (.truncated 4 0)⟩) = true := by decide +kernel
    obtain ⟨⟨w', clients', failure⟩, h, hfailure⟩ := toOption_any.1 hrun
    cases of_decide_eq_true hfailure
    obtain ⟨⟨hsorted, hperm, hworkers⟩, ⟨es, hevents, -, -, hrounds⟩, -⟩ := hjoined _ _ _ _ h
    refine ⟨w', clients', h, ?_, hworkers, es, hevents, ?_⟩
    · have hids : ([5, 8] : List Nat).Perm (w.workers.map Worker.id) := by decide
      exact List.Perm.eq_of_pairwise (fun _ _ _ _ => Nat.le_antisymm) hsorted (by decide)
        (hperm.trans hids.symm)
    · have hidle : w.underWay 8 = 0 := by decide
      rw [← hrounds 8, hidle, Nat.zero_add]

end World

end EchoLoad
