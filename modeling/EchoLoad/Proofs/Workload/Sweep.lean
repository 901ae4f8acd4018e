import EchoLoad.Proofs.Workload.FixedPool
import EchoLoad.Workload.Sweep
/-!
A sweep in the books, phase by phase and through its end. Main statements: `phase_ledger` for one
phase and `run_ledger` for a whole sweep.
-/

namespace EchoLoad

/-! ## What ends a phase -/

namespace PhaseEnd

variable {e : PhaseEnd}

theorem rounds?_of_limit (h : e.limit? ≠ none) : e.rounds? = none := by
  cases e with
  | duration d => rfl
  | rounds n => exact (h rfl).elim

theorem bounded (e : PhaseEnd) : e.rounds? ≠ none ∨ e.limit? ≠ none := by
  cases e with
  | duration d => exact .inr nofun
  | rounds n => exact .inl nofun

theorem limit_pos (h : e ≠ .duration 0) {d : Duration} (hd : e.limit? = some d) : 0 < d := by
  cases e with
  | duration d' =>
    cases hd
    exact Nat.pos_of_ne_zero fun hzero => h (congrArg _ hzero)
  | rounds n => cases hd

theorem rounds?_eq_some {n : Nat} : e.rounds? = some n ↔ e = .rounds n := by
  cases e with
  | duration d => exact iff_of_false nofun nofun
  | rounds m => simp [rounds?]

end PhaseEnd

namespace Sweep

variable {set : Setting} {fuel : Nat} {s : SweepSettings} {output : Output} {a : Account}

/-! ## One phase -/

def phasePlan (s : SweepSettings) (size : Nat) : EchoPlan :=
  { payload := .fixed size, rounds := s.phaseEnd.rounds? }

theorem phasePlan_rounds (size : Nat) {n : Nat} (hend : s.phaseEnd = .rounds n) :
    (phasePlan s size).rounds = some n :=
  PhaseEnd.rounds?_eq_some.2 hend

/-- The world in which the loops of a phase have just been started. -/
def phaseStart (set : Setting) (s : SweepSettings) (size : Nat) (clients : List Client) (w : World) :
    World :=
  (clients.map Client.resetCounters).foldl (World.spawn set (phasePlan s size))
    { w.takeMessages.2 with active := !w.takeMessages.2.stopped }

theorem phaseStart_crew {size : Nat} {clients : List Client} {w : World}
    (h : Pooled set.options { a with held := clients } w) (hr : a.received = []) :
    Pooled.Crew set.options a (phaseStart set s size clients w) := by
  have hopen : ∀ c ∈ clients.map Client.resetCounters, c.isOpen = true := by
    intro c hc
    obtain ⟨c', hc', rfl⟩ := List.mem_map.1 hc
    exact h.isOpen hr c' hc'
  let start : World := { w.takeMessages.2 with active := !w.takeMessages.2.stopped }
  have hstart :
      Ledger set.options { a with held := clients.map Client.resetCounters ++ [] } start := by
    rw [List.append_nil]
    exact (h.takeMessages.ledger.resetCounters).congr h.takeMessages.ledger.resetCounters.custody
      rfl rfl rfl rfl rfl
  obtain ⟨hl, hq⟩ := World.spawn_ledger (a := { a with held := [] }) set (phasePlan s size) hstart
    ⟨h.noBatch.dials, h.noBatch.connected, h.noBatch.refusals⟩ hopen
  exact ⟨hl, hq, hr, h.refused, h.closed⟩

/-- **One phase.** The pool is in hand again with the first failure, if there was one. -/
theorem phase_ledger {size : Nat} {clients clients' : List Client} {w w' : World}
    {summary : PhaseSummary} {failure : Option Failure}
    (h : Pooled set.options { a with held := clients } w) (hr : a.received = [])
    (hp : phase set fuel s size clients w = .ok (w', clients', summary, failure)) :
    Pooled set.options { a with held := clients', received := failure.toList } w' := by
  obtain ⟨⟨w1, clients1, failure1⟩, hj, he⟩ := bind_eq_ok.1 hp
  cases he
  have hback := crew_ledger (phaseStart_crew h hr) hj
  exact ⟨hback.ledger.congr hback.ledger.custody rfl rfl rfl (List.append_nil _) rfl,
    ⟨hback.noBatch.dials, hback.noBatch.connected, hback.noBatch.refusals⟩, hback.workers,
    hback.failures, h.refused, h.closed⟩

/-! ## All phases -/

theorem record_world (output : Output) (p : PhaseSummary) (session : Session) :
    (record output p session).1.world = session.world.takeMessages.2 := by
  unfold record
  dsimp only
  split
  · rfl
  · next session1 he =>
    have hw : session1.world = _ := Session.writeSeries_world he
    split <;> exact hw

theorem record_error {p : PhaseSummary} {session : Session} {e : RunError}
    (h : (record output p session).2 = .error e) : ∃ x, e = .output x := by
  unfold record at h
  dsimp only at h
  split at h
  · cases h; exact ⟨_, rfl⟩
  · split at h <;> cases h
    exact ⟨_, rfl⟩

theorem pause_pooled {p : Sweep} {w w' : World} (h : Pooled set.options a w)
    (hs : pause set fuel s p w = .ok w') : Pooled set.options a w' := by
  unfold pause at hs
  split at hs
  · cases hs; exact h
  · exact h.sleep hs

/-- A sweep between two phases knows the first failure received. -/
def RecordsFailure (a : Account) (p : Sweep) : Prop :=
  a.held = p.clients ∧ p.failure = a.received.head?.map (·.error)

theorem turn_ledger {size : Nat} {p : Sweep} {session session' : Session}
    {result : Except RunError (Sweep × Bool)} (h : Pooled set.options a session.world)
    (hk : RecordsFailure a p) (hr : a.received = [])
    (hp : turn set fuel s output size p session = .ok (session', result)) :
    (∀ p' more, result = .ok (p', more) → ∃ a, Pooled set.options a session'.world ∧
      RecordsFailure a p' ∧
      (more = true → a.received = [])) ∧
      ∀ e, result = .error e → Fails set.options session'.world e := by
  obtain ⟨w, hs, hp⟩ := bind_eq_ok.1 hp
  have h := pause_pooled h hs
  dsimp only at hp
  split at hp
  · cases hp
    exact ⟨fun p' more h' => by cases h'; exact ⟨a, h, hk, nofun⟩, nofun⟩
  · obtain ⟨⟨w1, clients, summary, failure⟩, hphase, hp⟩ := bind_eq_ok.1 hp
    have h1 := (phase_ledger (a := a) (hk.1 ▸ h) hr hphase).takeMessages
    have hworld := record_world output summary { session with world := w1 }
    dsimp only at hp
    split at hp
    · next session1 e he =>
      cases hp
      obtain ⟨x, rfl⟩ := record_error (congrArg Prod.snd he)
      rw [he] at hworld
      dsimp only at hworld ⊢
      rw [hworld]
      exact ⟨nofun, fun e h' => by cases h'; exact h1.abandon x⟩
    · next session1 he =>
      cases hp
      rw [he] at hworld
      refine ⟨fun p' more h' => ?_, nofun⟩
      cases h'
      refine ⟨_, hworld ▸ h1, ⟨rfl, ?_⟩, fun hmore => ?_⟩
      · cases failure <;> rfl
      · simpa using hmore

theorem advance_ledger {sizes : List Nat} {p : Sweep} {session session' : Session}
    {result : Except RunError Sweep} (h : Pooled set.options a session.world) (hk : RecordsFailure a p)
    (hr : a.received = [])
    (hp : advance set fuel s output sizes p session = .ok (session', result)) :
    (∀ p', result = .ok p' → ∃ a, Pooled set.options a session'.world ∧ RecordsFailure a p') ∧
      ∀ e, result = .error e → Fails set.options session'.world e := by
  induction sizes generalizing a p session with
  | nil =>
    cases hp
    exact ⟨fun p' h' => by cases h'; exact ⟨a, h, hk⟩, nofun⟩
  | cons size rest ih =>
    unfold advance at hp
    split at hp
    · cases hp
    · next session1 e ht =>
      cases hp
      exact ⟨nofun, fun e' h' => by cases h'; exact (turn_ledger h hk hr ht).2 e rfl⟩
    · next session1 p1 ht =>
      cases hp
      obtain ⟨a', h1, hk1, -⟩ := (turn_ledger h hk hr ht).1 _ _ rfl
      exact ⟨fun p' h' => by cases h'; exact ⟨a', h1, hk1⟩, nofun⟩
    · next session1 p1 ht =>
      obtain ⟨a', h1, hk1, hr1⟩ := (turn_ledger h hk hr ht).1 _ _ rfl
      exact ih h1 hk1 (hr1 rfl) hp

/-- **A whole sweep.** A report comes with a closed pool and tells the first failure of all. -/
theorem run_ledger {session session' : Session} {result : Except RunError SweepReport}
    (hw : session.world.Fresh) (h : run set fuel s output session = .ok (session', result)) :
    (∀ r, result = .ok r → (∃ a, Settled set.options a session'.world) ∧
      r.failure = session'.world.failedRounds.head?.map (·.error)) ∧
      ∀ e, result = .error e → Fails set.options session'.world e := by
  obtain ⟨⟨session1, established⟩, he, h⟩ := bind_eq_ok.1 h
  obtain ⟨hok, herror⟩ := Session.establish_ledger hw he
  cases established with
  | error e =>
    cases h
    exact ⟨(fun r h' => by cases h'), fun e' h' => by cases h'; exact herror e rfl⟩
  | ok pool =>
    obtain ⟨clients, joins⟩ := pool
    have hpool := hok clients joins rfl
    dsimp only at h
    split at h
    · cases h
      exact ⟨(fun r h' => by cases h'), fun e h' => by cases h'; exact hpool.abandon _⟩
    · next store _ =>
      obtain ⟨⟨session2, advanced⟩, ha, h⟩ := bind_eq_ok.1 h
      have hpool : Pooled set.options { held := clients, joins }
          ({ session1 with store } : Session).world := hpool
      obtain ⟨hok, herror⟩ := advance_ledger hpool ⟨rfl, rfl⟩ rfl ha
      cases advanced with
      | error e =>
        cases h
        exact ⟨(fun r h' => by cases h'), fun e' h' => by cases h'; exact herror e rfl⟩
      | ok p =>
        obtain ⟨a, hp, hheld, hfailure⟩ := hok p rfl
        obtain ⟨⟨w, n⟩, hc, h⟩ := bind_eq_ok.1 h
        cases h
        rw [← hheld] at hc
        obtain ⟨hsettled, hrounds⟩ := hp.settle hc
        refine ⟨fun r h' => ?_, fun e h' => by cases h'⟩
        cases h'
        exact ⟨hsettled, by dsimp only; rw [hfailure, hrounds, hp.first]⟩

end Sweep

end EchoLoad
