import EchoLoad.Proofs.Fiber
import EchoLoad.Proofs.Fidelity
/-!
What a client counts: the rounds that were echoed since its counters were reset, and the bytes of
their frames. Nothing else that is done with it counts, whether it succeeds or not. Main statement:
`counters_since_reset`.
-/

namespace EchoLoad.Client

variable {o : ClientOptions} {id : Nat} {turns : List Turn} {payloads : List Bytes} {c : Client}
  {now : Duration} {net : Network} {a : Action} {call : Call}

/-- The calls since the last reset of the counters, or all if there was none. -/
def sinceReset (turns : List Turn) : List Turn := turns.takeWhile fun t => t.action ≠ .reset

theorem sinceReset_cons (t : Turn) (turns : List Turn) :
    sinceReset (t :: turns) = if t.action = .reset then [] else t :: sinceReset turns := by
  by_cases h : t.action = .reset <;> simp [sinceReset, h]

/-- The counters are those of rounds with these payloads. -/
structure Counted (payloads : List Bytes) (c : Client) : Prop where
  rounds : c.rounds = payloads.length
  bytesSent : c.bytesSent = (payloads.map fun p => 4 + p.length).sum

theorem Does.counters (h : Does o c now net a call) :
    call.client.rounds =
        (if a = .reset then 0 else c.rounds) + (echoed? a call.ending).toList.length ∧
      call.client.bytesSent = (if a = .reset then 0 else c.bytesSent) +
        ((echoed? a call.ending).toList.map fun p => 4 + p.length).sum := by
  cases h with
  | misplaced hwrong =>
    obtain ⟨rfl, -⟩ | ⟨⟨payload, rfl⟩, -⟩ := hwrong <;> simp [echoed?]
  | pending | declined | unanswered | connected => simp [echoed?, Client.failed]
  | echoed => simp [echoed?, Frame.size, Frame.headerLength]
  | broken | hung => simp [echoed?, Client.failed]
  | shut | idle => simp [echoed?]
  | reset => simp [echoed?, resetCounters]

theorem Does.counted (h : Does o c now net a call) (hc : c.Counted payloads) :
    call.client.Counted
      ((if a = .reset then [] else payloads) ++ (echoed? a call.ending).toList) := by
  obtain ⟨hrounds, hbytes⟩ := h.counters
  constructor
  · rw [hrounds, hc.rounds]
    by_cases ha : a = .reset <;> simp [ha]
  · rw [hbytes, hc.bytesSent]
    by_cases ha : a = .reset <;> simp [ha]

theorem History.counted (h : History o id turns c net) :
    c.Counted (echoes o (sinceReset turns)) := by
  induction h with
  | new net => exact ⟨rfl, rfl⟩
  | @call turns t h _ ih =>
    have hcounted := (perform_does o t.now t.action h.sound).counted ih
    rw [sinceReset_cons]
    by_cases ha : t.action = .reset
    · have hnone : echoed? .reset (t.call o).ending = none := rfl
      rw [show t.client.perform o t.now t.network t.action = t.call o from rfl, ha, hnone] at hcounted
      simpa [ha, echoes] using hcounted
    · rw [if_neg ha, echoes_cons]
      rwa [if_neg ha] at hcounted
  | meanwhile _ _ ih => exact ih

/-- **The counters are those of the rounds echoed since the last reset.** After any calls on a client,
whatever its peer does and in whatever state it is now, it has counted the rounds since its counters
were reset, or since it was new, that were echoed, and the bytes of their frames. The next call
changes the counters only if it is such a round or a reset: a handshake, a round that fails or never
ends, an action out of place and a shutdown do not. -/
theorem counters_since_reset (h : History o id turns c net) :
    c.rounds = (echoes o (sinceReset turns)).length ∧
      c.bytesSent = ((echoes o (sinceReset turns)).map fun p => 4 + p.length).sum ∧
      ∀ now a, a ≠ .reset → echoed? a (c.perform o now net a).ending = none →
        (c.perform o now net a).client.rounds = c.rounds ∧
          (c.perform o now net a).client.bytesSent = c.bytesSent := by
  refine ⟨h.counted.rounds, h.counted.bytesSent, ?_⟩
  intro now a hreset hnone
  obtain ⟨hrounds, hbytes⟩ := (perform_does o now a h.sound).counters
  rw [hnone, if_neg hreset] at hrounds hbytes
  simpa using ⟨hrounds, hbytes⟩

/-- A round before a reset, an echoed one behind it, one whose echo comes back wrong, and a last one
that the client rejects since it has failed: of the five calls after the handshake one counts. -/
theorem counters_since_reset_broken :
    let o : ClientOptions := { handshake := some [1] }
    let net : Network := { rest := { replies := [.echo, .echo, .echo, .flip 0 1] } }
    let after (t : Turn) (now : Duration) (a : Action) : Turn :=
      ⟨(t.call o).client, (t.call o).network, now, a⟩
    let joined : Turn := ⟨{ id := 4 }, net, 0, .connect⟩
    let early := after joined 5000000 (.echo [7])
    let reset := after early 9000000 .reset
    let late := after reset 9000000 (.echo [8, 9])
    let wrong := after late 20000000 (.echo [10])
    let rejected := after wrong 30000000 (.echo [11])
    (rejected.call o).client.state = .failed ∧ (early.call o).client.rounds = 1 ∧
      (rejected.call o).client.rounds = 1 ∧ (rejected.call o).client.bytesSent = 6 := by
  intro o net after joined early reset late wrong rejected
  have h : History o 4 [rejected, wrong, late, reset, early, joined] (rejected.call o).client
      (rejected.call o).network := by
    repeat
      apply History.call
      rotate_left
      · decide +kernel
    exact .new net
  obtain ⟨hrounds, hbytes, -⟩ := counters_since_reset h
  have hechoes : echoes o (sinceReset [rejected, wrong, late, reset, early, joined]) = [[8, 9]] := by
    decide +kernel
  rw [hechoes] at hrounds hbytes
  exact ⟨by decide +kernel, by decide +kernel, hrounds, hbytes⟩

end EchoLoad.Client
