import EchoLoad.Proofs.Payload
import EchoLoad.Proofs.Shift
/-!
Connections on which every round is echoed. The condition is about what a client sees, so it does
not matter how a peer comes to meet it. Main statements: `Faithful.round` and `Faithful.later`.
-/

namespace EchoLoad

namespace Connection

/-- Connections, each with the instant since which it is idle, on which a round with a payload of
an allowed length is echoed within the deadline, and not at once, and leaves such a connection. -/
def Echoing (o : ClientOptions) (size : PayloadSize) (S : Duration → Connection → Prop) : Prop :=
  ∀ since c now payload, S since c → since ≤ now → size.Allows payload.length →
    ∃ c' t latency, c.exchange now o.ioTimeout payload = (c', some (t, .ok latency)) ∧
      0 < latency ∧ S t c'

/-- From the instant `since` on, round after round is echoed, however many there are and whenever
each begins after the one before. -/
def Faithful (o : ClientOptions) (size : PayloadSize) (since : Duration) (c : Connection) : Prop :=
  ∃ S, S since c ∧ Echoing o size S

/-- An echo is read as much later as its latency says. -/
theorem exchange_ends {c : Connection} {now t latency : Duration} {limit : Option Duration}
    {payload : Bytes} (h : (c.exchange now limit payload).2 = some (t, .ok latency)) :
    latency = t - now := by
  have hverdict : ∀ (lag : Duration) (r : Except FrameError (Option Bytes)),
      verdict payload lag r = .ok latency → latency = lag := by
    intro lag r hr
    unfold verdict at hr
    split at hr <;> try cases hr
    split at hr
    · cases hr
    · split at hr <;> cases hr
      rfl
  unfold exchange at h
  split at h
  · cases h
  · dsimp only at h
    split at h
    · cases h
    · split at h
      · cases h
      · split at h
        · simp only [Option.some.injEq, Prod.mk.injEq] at h
          obtain ⟨rfl, hr⟩ := h
          exact hverdict _ _ hr
        · cases limit <;> cases h

namespace Faithful

variable {o : ClientOptions} {size : PayloadSize} {since now δ : Duration} {c : Connection}
  {payload : Bytes}

/-- **The next round is echoed**, some time after it began, and the connection stays faithful. -/
theorem round (h : c.Faithful o size since) (hn : since ≤ now)
    (hp : size.Allows payload.length) :
    ∃ c' t latency, c.exchange now o.ioTimeout payload = (c', some (t, .ok latency)) ∧ now < t ∧
      c'.Faithful o size t := by
  obtain ⟨S, hc, hS⟩ := h
  obtain ⟨c', t, latency, hex, hpos, hc'⟩ := hS since c now payload hc hn hp
  have hlag : latency = t - now := exchange_ends (by rw [hex])
  exact ⟨c', t, latency, hex, by grind, S, hc', hS⟩

/-- **A faithful connection at a later time.** -/
theorem later (h : c.Faithful o size since) : (c.later δ).Faithful o size (since + δ) := by
  obtain ⟨S, hc, hS⟩ := h
  refine ⟨fun t c => ∃ t₀ c₀, S t₀ c₀ ∧ t = t₀ + δ ∧ c = c₀.later δ, ⟨since, c, hc, rfl, rfl⟩, ?_⟩
  rintro _ _ now payload ⟨t₀, c₀, hc₀, rfl, rfl⟩ hn hp
  obtain ⟨c', t, latency, hex, hpos, hc'⟩ := hS t₀ c₀ (now - δ) payload hc₀ (by grind) hp
  have hlater := exchange_later (δ := δ) c₀ (now - δ) o.ioTimeout payload
  rw [show now - δ + δ = now by grind, hex] at hlater
  exact ⟨c'.later δ, t + δ, latency, hlater, hpos, t, c', hc', rfl, rfl⟩

end Faithful

end Connection

/-! ## Whole networks -/

def Peer.accepts (o : ClientOptions) (p : Peer) : Bool :=
  match (p.attempt o).ending with
  | some (_, .ok _) => true
  | _ => false

/-- Every attempt ends, and whoever connects is echoed from then on. -/
structure Dependable (o : ClientOptions) (size : PayloadSize) (peer : Nat → Peer) : Prop where
  ends : ∀ n, ((peer n).attempt o).ending ≠ none
  faithful : ∀ n t latency, ((peer n).attempt o).ending = some (t, .ok latency) →
    ∀ conn ∈ ((peer n).attempt o).network.connections, conn.Faithful o size t

end EchoLoad
