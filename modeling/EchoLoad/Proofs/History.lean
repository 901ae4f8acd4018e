import EchoLoad.Proofs.Fiber
import EchoLoad.World.State
/-!
What the journal of a run tells: which attempts and rounds failed and in which order, who has
connected, who has failed, and how often a client was closed.
-/

namespace EchoLoad

namespace Event

def client : Event → Nat
  | attempt n | resolved n _ | roundStarted n | roundEnded n _ | closed n => n

def failedAttempt? : Event → Option ClientError
  | resolved _ failure => failure
  | _ => none

def failedRound? : Event → Option Failure
  | roundEnded n failure => failure.map (⟨n, ·⟩)
  | _ => none

def isJoin : Event → Bool
  | resolved _ none => true
  | _ => false

def isAttempt : Event → Bool
  | attempt _ => true
  | _ => false

def isClosing : Event → Bool
  | closed _ => true
  | _ => false

def isEcho : Event → Bool
  | roundEnded _ none => true
  | _ => false

def isRound : Event → Bool
  | roundStarted _ | roundEnded _ _ => true
  | _ => false

end Event

namespace World

/-- What has happened, the latest first. -/
def events (w : World) : List Event := w.journal.map Prod.snd

def failedAttempts (w : World) : List ClientError := w.events.reverse.filterMap Event.failedAttempt?

/-- The failures of rounds, in the order in which they were sent. -/
def failedRounds (w : World) : List Failure := w.events.reverse.filterMap Event.failedRound?

/-- The client `n` has connected, its handshake included. -/
def HasConnected (w : World) (n : Nat) : Prop := .resolved n none ∈ w.events

def HasFailed (w : World) (n : Nat) : Prop := ∃ f ∈ w.failedRounds, f.client = n

instance (w : World) (n : Nat) : Decidable (w.HasFailed n) :=
  inferInstanceAs (Decidable (∃ f ∈ w.failedRounds, f.client = n))

def closings (w : World) (n : Nat) : Nat := w.events.count (.closed n)

/-- Nothing has happened yet: there are scripts and interrupts to come, and no more. -/
structure Fresh (w : World) : Prop where
  connections : w.network.connections = []
  dials : w.dials = []
  connected : w.connected = []
  refusals : w.refusals = []
  workers : w.workers = []
  failures : w.failures = []
  sink : w.sink = {}
  journal : w.journal = []

theorem Fresh.activate {w : World} (h : w.Fresh) : w.activate.Fresh :=
  ⟨h.connections, h.dials, h.connected, h.refusals, h.workers, h.failures, h.sink, h.journal⟩

/-! ## The events of one client -/

theorem mem_events_iff_fiber {w : World} {e : Event} :
    e ∈ w.events ↔ e ∈ fiber Event.client e.client w.events :=
  ⟨mem_fiber_self Event.client, fun h => (mem_fiber.1 h).1⟩

theorem hasConnected_iff {w : World} {n : Nat} :
    w.HasConnected n ↔ .resolved n none ∈ fiber Event.client n w.events := mem_events_iff_fiber

theorem mem_failedAttempts {w : World} {e : ClientError} :
    e ∈ w.failedAttempts ↔ ∃ n, .resolved n (some e) ∈ w.events := by
  have hfailed : ∀ x : Event, x.failedAttempt? = some e ↔ ∃ n, x = .resolved n (some e) := by
    intro x
    cases x <;> simp [Event.failedAttempt?]
  simp only [failedAttempts, List.mem_filterMap, List.mem_reverse, hfailed]
  exact ⟨fun ⟨_, h, n, he⟩ => ⟨n, he ▸ h⟩, fun ⟨n, h⟩ => ⟨_, h, n, rfl⟩⟩

theorem failedRound?_eq_some {e : Event} {f : Failure} :
    e.failedRound? = some f ↔ e = .roundEnded f.client (some f.error) := by
  cases e with
  | roundEnded n failure =>
    cases failure with
    | none => simp [Event.failedRound?]
    | some x =>
      obtain ⟨m, y⟩ := f
      simp [Event.failedRound?]
  | _ => simp [Event.failedRound?]

theorem mem_failedRounds {w : World} {f : Failure} :
    f ∈ w.failedRounds ↔ .roundEnded f.client (some f.error) ∈ w.events := by
  simp only [failedRounds, List.mem_filterMap, List.mem_reverse, failedRound?_eq_some]
  exact ⟨fun ⟨_, h, e⟩ => e ▸ h, fun h => ⟨_, h, rfl⟩⟩

theorem hasFailed_iff {w : World} {n : Nat} :
    w.HasFailed n ↔ ∃ e, .roundEnded n (some e) ∈ fiber Event.client n w.events := by
  constructor
  · rintro ⟨f, hf, rfl⟩
    exact ⟨f.error, mem_events_iff_fiber.1 (mem_failedRounds.1 hf)⟩
  · rintro ⟨e, he⟩
    exact ⟨⟨n, e⟩, mem_failedRounds.2 (mem_fiber.1 he).1, rfl⟩

theorem closings_eq {w : World} {n : Nat} :
    w.closings n = (fiber Event.client n w.events).count (.closed n) := by
  rw [closings, fiber, List.count_filter (by simp [Event.client])]

end World

end EchoLoad
