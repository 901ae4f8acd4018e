import EchoLoad.Proofs.Calls
import EchoLoad.Proofs.Fiber
/-!
The life of a client over any calls in any order. It connects once and for at most one connection,
shuts that down at most once and never after a failure, and says which action is out of place. Main
statement: `lifecycle`.
-/

namespace EchoLoad

/-! ## What a state tells of the calls behind it -/

namespace ClientState

/-- The states that can follow; a closed or failed client stays so. -/
def next : ClientState → List ClientState
  | .unconnected => [.connected, .failed]
  | .connected | .active => [.active, .closed, .failed]
  | .closed | .failed => []

def attempts : ClientState → Nat
  | .unconnected => 0
  | _ => 1

def shutdowns : ClientState → Nat
  | .closed => 1
  | _ => 0

theorem attempts_le (s : ClientState) : s.attempts ≤ 1 := by
  cases s <;> decide

theorem shutdowns_le (s : ClientState) : s.shutdowns ≤ 1 := by
  cases s <;> decide

end ClientState

namespace Network

def shutdowns (net : Network) : Nat := net.connections.countP fun conn => conn.fate = .shutdown

variable {net : Network} {n : Nat} {conn : Connection}

theorem shutdowns_attempt (h : conn.fate ≠ .shutdown) :
    (net.attempt conn).shutdowns = net.shutdowns := by
  simp [shutdowns, attempt, h]

theorem shutdowns_modify (hn : net.connections[n]? = some conn) (hopen : conn.fate = .open)
    (f : Connection → Connection) :
    (net.modify n f).shutdowns =
      net.shutdowns + if (f conn).fate = .shutdown then 1 else 0 := by
  obtain ⟨hlt, hget⟩ := List.getElem?_eq_some_iff.1 hn
  simp only [shutdowns, modify]
  rw [List.modify_eq_take_cons_drop hlt, hget]
  conv_rhs => rw [split_at hn]
  simp only [List.countP_append, List.countP_cons, hopen, reduceCtorEq, decide_false,
    Bool.false_eq_true, if_false, decide_eq_true_eq]
  omega

end Network

namespace Client

def Turn.attempts (o : ClientOptions) (t : Turn) : Nat :=
  (t.call o).network.connections.length - t.network.connections.length

def Turn.shutdowns (o : ClientOptions) (t : Turn) : Nat :=
  (t.call o).network.shutdowns - t.network.shutdowns

/-- What is to hold of a client before and after a call, of that call, and of all calls up to it. A
call that never ends is one of them. -/
structure Lawful (o : ClientOptions) (turns : List Turn) (t : Turn) : Prop where
  holds_before : t.client.stream ≠ none ↔ t.client.state = .connected ∨ t.client.state = .active
  holds_after : (t.call o).client.stream ≠ none ↔
    (t.call o).client.state = .connected ∨ (t.call o).client.state = .active
  moves : (t.call o).client.state = t.client.state ∨
    (t.call o).client.state ∈ t.client.state.next
  connects : t.action = .connect → ∀ time r, (t.call o).ending = some (time, r) →
    ((∃ latency, r = .ok latency) ↔
      t.client.state ≠ .connected ∧ (t.call o).client.state = .connected)
  echoes : ∀ payload, t.action = .echo payload → ∀ time r, (t.call o).ending = some (time, r) →
    ((∃ latency, r = .ok latency) ↔ (t.call o).client.state = .active)
  /-- An action out of place does nothing, and its error has the name of the state. -/
  misplaced : t.action = .connect ∧ t.client.state ≠ .unconnected ∨
      (∃ payload, t.action = .echo payload) ∧ t.client.isOpen = false →
    t.call o = ⟨t.client, t.network, some (t.now, .error (.invalidState t.client.state))⟩ ∧
      (ClientError.invalidState t.client.state).message =
        "operation not allowed in state " ++ t.client.state.name
  /-- Only an open connection is shut down, so none is shut down again; without one nothing is done. -/
  closes : t.action = .close →
    (∃ n conn, t.client.HoldsAt t.network n conn ∧ (t.call o).client.state = .closed ∧
      (t.call o).network = t.network.modify n fun conn => conn.shutdown.1) ∨
    t.client.isOpen = false ∧ t.call o = ⟨t.client, t.network, some (t.now, .ok 0)⟩
  attempts_le : ((t :: turns).map (Turn.attempts o)).sum ≤ 1
  shutdowns_le : ((t :: turns).map (Turn.shutdowns o)).sum ≤ 1
  /-- Nothing is shut down before a failure, by it or after it. -/
  failed : (t.call o).client.state = .failed → ((t :: turns).map (Turn.shutdowns o)).sum = 0

/-! ## One call -/

variable {o : ClientOptions} {id : Nat} {turns : List Turn} {c : Client} {now : Duration}
  {net : Network} {a : Action} {call : Call}

theorem isOpen_iff : c.isOpen = true ↔ c.state = .connected ∨ c.state = .active := by
  simp [isOpen]

theorem Sound.stream_iff (h : c.Sound net) :
    c.stream ≠ none ↔ c.state = .connected ∨ c.state = .active := by
  rw [← isOpen_iff]
  cases h with
  | held h => simp [h.stream, h.isOpen]
  | free hopen hstream => simp [hopen, hstream]

theorem HoldsAt.next {n : Nat} {conn : Connection} (h : c.HoldsAt net n conn) :
    c.state.next = [.active, .closed, .failed] := by
  rcases isOpen_iff.1 h.isOpen with hstate | hstate <;> rw [hstate] <;> rfl

theorem HoldsAt.counts {n : Nat} {conn : Connection} (h : c.HoldsAt net n conn) :
    c.state.attempts = 1 ∧ c.state.shutdowns = 0 := by
  rcases isOpen_iff.1 h.isOpen with hstate | hstate <;> rw [hstate] <;> exact ⟨rfl, rfl⟩

theorem Does.moves (h : Does o c now net a call) :
    call.client.state = c.state ∨ call.client.state ∈ c.state.next := by
  cases h with
  | misplaced | pending | idle | reset => exact .inl rfl
  | declined hstate | unanswered hstate | connected hstate =>
    right
    rw [hstate]
    simp [ClientState.next, Client.failed]
  | echoed h | broken h | hung h | shut h =>
    right
    rw [h.next]
    simp [Client.failed]

/-- Whatever a call does, the connections that it adds are those that the state of its client tells
of, unless the attempt never ends. -/
theorem Does.attempts (h : Does o c now net a call) :
    call.network.connections.length - net.connections.length + c.state.attempts ≤ 1 ∧
      (call.ending ≠ none →
        call.network.connections.length - net.connections.length + c.state.attempts =
          call.client.state.attempts) := by
  have hle := c.state.attempts_le
  cases h with
  | misplaced | idle | reset => exact ⟨by simpa using hle, fun _ => by simp [resetCounters]⟩
  | pending hstate | unanswered hstate =>
    refine ⟨?_, fun hended => absurd rfl hended⟩
    simp [Network.attempt, hstate, ClientState.attempts]
  | declined hstate | connected hstate =>
    simp [Network.attempt, hstate, ClientState.attempts, Client.failed]
  | echoed h | broken h | hung h | shut h =>
    rw [h.counts.1]
    simp [Network.modify, ClientState.attempts, Client.failed]

/-- The connections that a call shuts down are those that the state of its client tells of. -/
theorem Does.shutdowns (h : Does o c now net a call) :
    call.network.shutdowns - net.shutdowns + c.state.shutdowns =
      call.client.state.shutdowns := by
  cases h with
  | misplaced | idle | reset => simp [resetCounters]
  | pending hstate hfate | unanswered hstate hfate | connected hstate hfate =>
    rw [Network.shutdowns_attempt (by simp [hfate]), hstate]
    simp [ClientState.shutdowns]
  | declined hstate _ hfate =>
    rw [Network.shutdowns_attempt hfate, hstate]
    simp [Client.failed, ClientState.shutdowns]
  | echoed h hfate | broken h hfate | hung h hfate =>
    rw [h.counts.2, Network.shutdowns_modify h.connection h.fate]
    simp [hfate, Client.failed, ClientState.shutdowns]
  | shut h =>
    rw [h.counts.2, Network.shutdowns_modify h.connection h.fate]
    simp [Connection.shutdown, ClientState.shutdowns]

theorem Does.connect_ok (h : Does o c now net .connect call) {t : Duration}
    {r : Except ClientError Duration} (hended : call.ending = some (t, r)) :
    (∃ latency, r = .ok latency) ↔ c.state ≠ .connected ∧ call.client.state = .connected := by
  cases h with
  | misplaced =>
    cases hended
    simp
  | pending | unanswered => cases hended
  | declined =>
    cases hended
    simp [Client.failed]
  | connected hstate =>
    cases hended
    simp [hstate]

theorem Does.echo_ok {payload : Bytes} (h : Does o c now net (.echo payload) call) {t : Duration}
    {r : Except ClientError Duration} (hended : call.ending = some (t, r)) :
    (∃ latency, r = .ok latency) ↔ call.client.state = .active := by
  cases h with
  | misplaced hwrong =>
    cases hended
    have hopen : c.isOpen = false := by simpa using hwrong
    have hstate : c.state ≠ .active := by
      intro hstate
      simp [isOpen, hstate] at hopen
    simp [hstate]
  | echoed =>
    cases hended
    simp
  | broken =>
    cases hended
    simp [Client.failed]
  | hung => cases hended

theorem Does.closes (h : Does o c now net .close call) :
    (∃ n conn, c.HoldsAt net n conn ∧ call.client.state = .closed ∧
      call.network = net.modify n fun conn => conn.shutdown.1) ∨
    c.isOpen = false ∧ call = ⟨c, net, some (now, .ok 0)⟩ := by
  cases h with
  | misplaced hwrong => simp at hwrong
  | @shut n conn hheld => exact .inl ⟨n, conn, hheld, rfl, rfl⟩
  | idle hopen => exact .inr ⟨hopen, rfl⟩

/-- An action out of place changes nothing. -/
theorem perform_misplaced (hwrong : a = .connect ∧ c.state ≠ .unconnected ∨
      (∃ payload, a = .echo payload) ∧ c.isOpen = false) :
    c.perform o now net a = ⟨c, net, some (now, .error (.invalidState c.state))⟩ := by
  obtain ⟨rfl, hstate⟩ | ⟨⟨payload, rfl⟩, hopen⟩ := hwrong
  · rw [perform, connect, if_pos hstate]
  · rw [perform, echoRound, if_neg (by simp [hopen])]

/-! ## All calls -/

theorem History.attempts (h : History o id turns c net) :
    (turns.map (Turn.attempts o)).sum = c.state.attempts := by
  induction h with
  | new net => rfl
  | @call turns t h hended ih =>
    rw [List.map_cons, List.sum_cons, ih]
    exact ((perform_does o t.now t.action h.sound).attempts).2 hended
  | meanwhile _ _ ih => exact ih

theorem History.shutdowns (h : History o id turns c net) :
    (turns.map (Turn.shutdowns o)).sum = c.state.shutdowns := by
  induction h with
  | new net => rfl
  | @call turns t h hended ih =>
    rw [List.map_cons, List.sum_cons, ih]
    exact (perform_does o t.now t.action h.sound).shutdowns
  | meanwhile _ _ ih => exact ih

/-- **The life of a client.** After any calls on a client, whatever the network does, the next call
finds and leaves a client that holds a connection exactly while it is connected or active. Its state
moves only forward; connecting succeeds exactly when the client becomes connected and a round exactly
when it leaves the client active; an action out of place changes nothing and says in which state it
was tried; only an open connection is shut down. Over all these calls there is one attempt to connect
at most and one shutdown at most, and no shutdown if the client fails. -/
theorem lifecycle (h : History o id turns c net) (now : Duration) (a : Action) :
    Lawful o turns ⟨c, net, now, a⟩ := by
  have hdoes := perform_does o now a h.sound
  have hafter := hdoes.sound h.sound
  constructor
  · exact h.sound.stream_iff
  · exact hafter.stream_iff
  · exact hdoes.moves
  · rintro rfl time r hended
    exact hdoes.connect_ok hended
  · rintro payload rfl time r hended
    exact hdoes.echo_ok hended
  · intro hwrong
    exact ⟨perform_misplaced hwrong, rfl⟩
  · rintro rfl
    exact hdoes.closes
  · rw [List.map_cons, List.sum_cons, h.attempts]
    exact hdoes.attempts.1
  · rw [List.map_cons, List.sum_cons, h.shutdowns]
    exact hdoes.shutdowns.trans_le (ClientState.shutdowns_le _)
  · intro hfailed
    rw [List.map_cons, List.sum_cons, h.shutdowns]
    refine hdoes.shutdowns.trans ?_
    rw [show (c.perform o now net a).client.state = .failed from hfailed]
    rfl

/-- A client that is hung up on in its second round, and is then to be closed. -/
theorem lifecycle_hangup :
    let o : ClientOptions := { handshake := some [1] }
    let net : Network := { rest := { replies := [.echo, .echo], thereafter := .hangup } }
    let first : Turn := ⟨{ id := 3 }, net, 0, .connect⟩
    let second : Turn := ⟨(first.call o).client, (first.call o).network, 1000000, .echo [7]⟩
    let third : Turn := ⟨(second.call o).client, (second.call o).network, 2000000, .echo [8]⟩
    let fourth : Turn := ⟨(third.call o).client, (third.call o).network, 3000000, .close⟩
    Lawful o [third, second, first] fourth ∧ third.client.state = .active ∧
      fourth.client.state = .failed ∧ (fourth.call o).network.connections.length = 1 := by
  intro o net first second third fourth
  have h : History o 3 [third, second, first] fourth.client fourth.network := by
    apply History.call
    · apply History.call
      · apply History.call
        · exact .new _
        · decide +kernel
      · decide +kernel
    · decide +kernel
  exact ⟨lifecycle h 3000000 .close, by decide +kernel, by decide +kernel, by decide +kernel⟩

end Client

end EchoLoad
