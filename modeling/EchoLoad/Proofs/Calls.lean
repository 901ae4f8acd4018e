import EchoLoad.Proofs.Exchange
/-!
Calls on one client, one after the other. A call is all that happens to the client and to the
connection it holds; the rest of the network is not its own. Main statements: `perform_does`, with
one case for each way a call can go, and `History.sound`.
-/

namespace EchoLoad

namespace Client

/-! ## Clients between calls -/

/-- A call, with what it finds. -/
structure Turn where
  client : Client
  network : Network
  now : Duration
  action : Action

def Turn.call (o : ClientOptions) (t : Turn) : Call :=
  t.client.perform o t.now t.network t.action

/-- The network between two calls. The connection that the client holds stands as it did and has
moved no bytes; all else may change, also what waits to be read and what the peer will do. -/
def LeftAlone (c : Client) (net net' : Network) : Prop :=
  ∀ n conn, c.stream = some n → net.connections[n]? = some conn →
    ∃ conn', net'.connections[n]? = some conn' ∧ conn'.fate = conn.fate ∧
      conn'.written = conn.written ∧ conn'.taken = conn.taken

/-- A client as some calls have left it, the latest first, each begun when the one before it had
ended. -/
inductive History (o : ClientOptions) (id : Nat) : List Turn → Client → Network → Prop
  | new (net : Network) : History o id [] { id } net
  | call {turns : List Turn} {t : Turn} : History o id turns t.client t.network →
      (t.call o).ending ≠ none → History o id (t :: turns) (t.call o).client (t.call o).network
  | meanwhile {turns : List Turn} {c : Client} {net net' : Network} :
      History o id turns c net → c.LeftAlone net net' → History o id turns c net'

structure HoldsAt (c : Client) (net : Network) (n : Nat) (conn : Connection) : Prop where
  isOpen : c.isOpen = true
  stream : c.stream = some n
  connection : net.connections[n]? = some conn
  fate : conn.fate = .open

/-- A client holds a connection exactly while it is open. -/
inductive Sound (c : Client) (net : Network) : Prop
  | held {n : Nat} {conn : Connection} : c.HoldsAt net n conn → Sound c net
  | free : c.isOpen = false → c.stream = none → Sound c net

/-! ## How a call can go -/

variable {o : ClientOptions} {c : Client} {now : Duration} {net net' : Network} {n : Nat}
  {conn : Connection} {payload : Bytes}

/-- A connection as a successful attempt leaves it. -/
inductive JustConnected (o : ClientOptions) : Connection → Prop
  | plain {peer : Peer} : o.handshake = none → JustConnected o { peer, fate := .open }
  | handshake {peer : Peer} {hello : Bytes} {conn : Connection} {since t latency : Duration} :
      o.handshake = some hello →
        ({ peer, fate := .open } : Connection).exchange since o.ioTimeout hello =
          (conn, some (t, .ok latency)) → JustConnected o conn

/-- What a call does to its client and to the network, and how it ends. -/
inductive Does (o : ClientOptions) (c : Client) (now : Duration) (net : Network) :
    Action → Call → Prop
  /-- The action is not allowed in this state. -/
  | misplaced {a : Action} :
      a = .connect ∧ c.state ≠ .unconnected ∨ (∃ payload, a = .echo payload) ∧ c.isOpen = false →
        Does o c now net a ⟨c, net, some (now, .error (.invalidState c.state))⟩
  /-- The attempt to connect never ends. -/
  | pending {conn : Connection} : c.state = .unconnected → conn.fate = .pending →
      Does o c now net .connect ⟨c, net.attempt conn, none⟩
  | declined {conn : Connection} {t : Duration} {e : ClientError} :
      c.state = .unconnected → conn.fate ≠ .open → conn.fate ≠ .shutdown →
        Does o c now net .connect ⟨c.failed, net.attempt conn, some (t, .error e)⟩
  /-- The handshake never ends. -/
  | unanswered {conn : Connection} : c.state = .unconnected → conn.fate = .open →
      Does o c now net .connect
        ⟨{ c with state := .connected, stream := some net.connections.length },
          net.attempt conn, none⟩
  | connected {conn : Connection} {t latency : Duration} :
      c.state = .unconnected → conn.fate = .open → JustConnected o conn →
        Does o c now net .connect
          ⟨{ c with state := .connected, stream := some net.connections.length },
            net.attempt conn, some (t, .ok latency)⟩
  | echoed {n : Nat} {conn conn' : Connection} {payload : Bytes} {t latency : Duration} :
      c.HoldsAt net n conn → conn'.fate = .open →
        conn.exchange now o.ioTimeout payload = (conn', some (t, .ok latency)) →
        Does o c now net (.echo payload)
          ⟨{ c with
              state := .active
              bytesSent := c.bytesSent + Frame.size payload.length
              rounds := c.rounds + 1 },
            net.modify n fun _ => conn', some (t, .ok latency)⟩
  | broken {n : Nat} {conn conn' : Connection} {payload : Bytes} {t : Duration} {e : ClientError} :
      c.HoldsAt net n conn → conn'.fate = .dropped →
        Does o c now net (.echo payload)
          ⟨c.failed, net.modify n fun _ => conn', some (t, .error e)⟩
  /-- The round never ends. -/
  | hung {n : Nat} {conn conn' : Connection} {payload : Bytes} :
      c.HoldsAt net n conn → conn'.fate = .open →
        Does o c now net (.echo payload)
          ⟨{ c with state := .active }, net.modify n fun _ => conn', none⟩
  | shut {n : Nat} {conn : Connection} : c.HoldsAt net n conn →
      Does o c now net .close
        ⟨{ c with state := .closed, stream := none }, net.modify n fun conn => conn.shutdown.1,
          some (now, .ok 0)⟩
  /-- There is nothing to be closed. -/
  | idle : c.isOpen = false → Does o c now net .close ⟨c, net, some (now, .ok 0)⟩
  | reset : Does o c now net .reset ⟨c.resetCounters, net, some (now, .ok 0)⟩

theorem echoRound_does (o : ClientOptions) (now : Duration) (payload : Bytes)
    (h : c.Sound net) : Does o c now net (.echo payload) (c.echoRound o now payload net) := by
  cases h with
  | free hopen =>
    rw [echoRound, if_neg (by simp [hopen])]
    exact .misplaced (.inr ⟨⟨payload, rfl⟩, hopen⟩)
  | @held n conn h =>
    rw [echoRound, if_pos h.isOpen]
    obtain ⟨conn', t, latency, he, -, hf, hc⟩ | ⟨conn', t, e, -, hf, hc⟩ | ⟨conn', -, hf, hc⟩ :=
      exchange_cases o (c := { c with state := .active }) now payload h.stream h.connection h.fate
    · rw [hc]
      exact .echoed h hf he
    · rw [hc]
      exact .broken h hf
    · rw [hc]
      exact .hung h hf

theorem connect_does (o : ClientOptions) (c : Client) (now : Duration) (net : Network) :
    Does o c now net .connect (c.connect o now net) := by
  by_cases hstate : c.state = .unconnected
  · rw [connect, if_neg (by simp [hstate])]
    dsimp only
    split
    · exact .pending hstate rfl
    · exact .declined hstate (by simp) (by simp)
    · exact .declined hstate (by simp) (by simp)
    · split
      · exact .declined hstate (by simp) (by simp)
      · split
        · next hplain => exact .connected hstate rfl (.plain hplain)
        · next hello hhello =>
          let c' : Client := { c with state := .connected, stream := some net.connections.length }
          let conn : Connection := { peer := net.peer net.connections.length, fate := .open }
          obtain ⟨conn', t, latency, he, -, hf, hc⟩ | ⟨conn', t, e, -, hf, hc⟩ |
            ⟨conn', -, hf, hc⟩ :=
            exchange_cases o (c := c') _ hello rfl (attempt_getElem? net conn) rfl
          · rw [hc, attempt_modify]
            exact .connected hstate hf (.handshake hhello he)
          · rw [hc, attempt_modify]
            exact .declined hstate (by simp [hf]) (by simp [hf])
          · rw [hc, attempt_modify]
            exact .unanswered hstate hf
  · rw [connect, if_pos hstate]
    exact .misplaced (.inl ⟨rfl, hstate⟩)

theorem close_does (o : ClientOptions) (now : Duration) (h : c.Sound net) :
    Does o c now net .close (c.perform o now net .close) := by
  cases h with
  | free hopen =>
    rw [perform, close, if_neg (by simp [hopen])]
    exact .idle hopen
  | held h =>
    rw [perform, close, if_pos h.isOpen, h.stream]
    exact .shut h

/-- **A call goes one of these ways**, if its client holds what it should. -/
theorem perform_does (o : ClientOptions) (now : Duration) (a : Action) (h : c.Sound net) :
    Does o c now net a (c.perform o now net a) := by
  cases a with
  | connect => exact connect_does o c now net
  | echo payload => exact echoRound_does o now payload h
  | close => exact close_does o now h
  | reset => exact .reset

/-! ## What calls keep -/

theorem modify_getElem? (h : net.connections[n]? = some conn) (f : Connection → Connection) :
    (net.modify n f).connections[n]? = some (f conn) := by
  rw [Network.modify, List.getElem?_modify_eq, h]
  rfl

theorem Does.sound {a : Action} {call : Call} (h : Does o c now net a call) (hc : c.Sound net) :
    call.client.Sound call.network := by
  have hnew : c.state = .unconnected → c.isOpen = false := by
    intro hstate
    simp [isOpen, hstate]
  cases h with
  | misplaced | idle => exact hc
  | pending hstate =>
    cases hc with
    | held h => exact absurd (h.isOpen.symm.trans (hnew hstate)) Bool.noConfusion
    | free hopen hstream => exact .free hopen hstream
  | declined => exact .free rfl rfl
  | unanswered _ hf => exact .held ⟨rfl, rfl, attempt_getElem? net _, hf⟩
  | connected _ hf => exact .held ⟨rfl, rfl, attempt_getElem? net _, hf⟩
  | echoed h hf => exact .held ⟨rfl, h.stream, modify_getElem? h.connection _, hf⟩
  | broken => exact .free rfl rfl
  | hung h hf => exact .held ⟨rfl, h.stream, modify_getElem? h.connection _, hf⟩
  | shut => exact .free rfl rfl
  | reset =>
    cases hc with
    | held h => exact .held ⟨h.isOpen, h.stream, h.connection, h.fate⟩
    | free hopen hstream => exact .free hopen hstream

theorem Sound.meanwhile (hc : c.Sound net) (h : c.LeftAlone net net') : c.Sound net' := by
  cases hc with
  | held hc =>
    obtain ⟨conn', hconn', hfate, -⟩ := h _ _ hc.stream hc.connection
    exact .held ⟨hc.isOpen, hc.stream, hconn', hfate.trans hc.fate⟩
  | free hopen hstream => exact .free hopen hstream

/-- **Between calls a client holds what it should.** -/
theorem History.sound {id : Nat} {turns : List Turn} (h : History o id turns c net) :
    c.Sound net := by
  induction h with
  | new net => exact .free rfl rfl
  | @call _ t _ _ ih => exact (perform_does o t.now t.action ih).sound ih
  | meanwhile _ halone ih => exact ih.meanwhile halone

end Client

end EchoLoad
