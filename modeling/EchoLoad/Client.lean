import EchoLoad.Network
/-!
One client. It is created unconnected, holds at most one connection in its life, and gives it up
on the first failure. A call changes client and network at once and tells when it ends. What a
client counts is a natural number; that a counter of 64 bits could overflow is left out.
-/

namespace EchoLoad

structure ClientOptions where
  /-- A payload to be echoed before the connection counts as usable. -/
  handshake : Option Bytes := none
  connectTimeout : Option Duration := none
  /-- The time one exchange may take. -/
  ioTimeout : Option Duration := none
  deriving DecidableEq, Repr

structure Client where
  id : Nat
  state : ClientState := .unconnected
  /-- The connection held, by the number of its attempt. -/
  stream : Option Nat := none
  /-- Bytes of the frames echoed since the counters were reset. -/
  bytesSent : Nat := 0
  /-- Rounds completed since the counters were reset. -/
  rounds : Nat := 0
  deriving DecidableEq, Repr

/-- What a call on a client leaves behind. -/
structure Call where
  client : Client
  network : Network
  ending : Ending
  deriving Repr

namespace Client

def isOpen (c : Client) : Bool := c.state = .connected || c.state = .active

def resetCounters (c : Client) : Client := { c with bytesSent := 0, rounds := 0 }

/-- Bytes echoed to several clients together. -/
def totalBytes (clients : List Client) : Nat := clients.foldl (fun n c => n + c.bytesSent) 0

def totalRounds (clients : List Client) : Nat := clients.foldl (fun n c => n + c.rounds) 0

/-- The client after a failure; it holds no connection. -/
def failed (c : Client) : Client := { c with state := .failed, stream := none }

/-- How an attempt to connect ends on the side of the transport. -/
inductive Established where
  | never
  | timedOut (limit : Duration)
  | refused (error : IoError)
  | connected

/-- How and after what time the attempt ends. -/
def establish (limit : Option Duration) (p : Peer) : Duration × Established :=
  match limit with
  | some l =>
    if p.never || l < p.connectDelay then (l, .timedOut l)
    else (p.connectDelay, p.refuse.elim .connected .refused)
  | none =>
    if p.never then (0, .never)
    else (p.connectDelay, p.refuse.elim .connected .refused)

/-- Exchange one payload over the connection held, and give it up if that fails. -/
def exchange (o : ClientOptions) (c : Client) (now : Duration) (payload : Bytes)
    (net : Network) : Call :=
  match c.stream.bind fun n => net.connections[n]?.map (n, ·) with
  | none => ⟨c.failed, net, some (now, .error (.invalidState .unconnected))⟩
  | some (n, conn) =>
    match conn.exchange now o.ioTimeout payload with
    | (conn, some (t, .error e)) =>
      ⟨c.failed, net.modify n fun _ => conn.drop, some (t, .error e)⟩
    | (conn, ending) => ⟨c, net.modify n fun _ => conn, ending⟩

/-- Connect, and verify the peer with a handshake if one is asked for. The latency is that of
the transport alone, and the handshake is not counted. -/
def connect (o : ClientOptions) (c : Client) (now : Duration) (net : Network) : Call :=
  if c.state ≠ .unconnected then ⟨c, net, some (now, .error (.invalidState c.state))⟩
  else
    let n := net.connections.length
    let peer := net.peer n
    let (delay, established) := establish o.connectTimeout peer
    let t := now + delay
    match established with
    | .never => ⟨c, net.attempt { peer }, none⟩
    | .timedOut l =>
      let e : IoError := ⟨.timedOut, "no connection after " ++ l.label⟩
      ⟨c.failed, net.attempt { peer }, some (t, .error (.connect e))⟩
    | .refused e =>
      ⟨c.failed, net.attempt { peer, fate := .refused }, some (t, .error (.connect e))⟩
    | .connected =>
      match peer.optionError with
      | some e =>
        ⟨c.failed, net.attempt { peer, fate := .dropped }, some (t, .error (.connect e))⟩
      | none =>
        let net := net.attempt { peer, fate := .open }
        let c := { c with state := .connected, stream := some n }
        match o.handshake with
        | none => ⟨c, net, some (t, .ok delay)⟩
        | some hello =>
          let call := c.exchange o t hello net
          { call with ending := call.ending.map fun (t, r) => (t, r.map fun _ => delay) }

def echoRound (o : ClientOptions) (c : Client) (now : Duration) (payload : Bytes)
    (net : Network) : Call :=
  if c.isOpen then
    let call := { c with state := .active }.exchange o now payload net
    match call.ending with
    | some (_, .ok _) =>
      { call with client := { call.client with
          bytesSent := call.client.bytesSent + Frame.size payload.length
          rounds := call.client.rounds + 1 } }
    | _ => call
  else ⟨c, net, some (now, .error (.invalidState c.state))⟩

/-- Shut the connection down, if one is held. An error of the shutdown is not a failure. -/
def close (c : Client) (net : Network) : Client × Network :=
  if c.isOpen then
    let net := match c.stream with
      | some n => net.modify n fun conn => conn.shutdown.1
      | none => net
    ({ c with state := .closed, stream := none }, net)
  else (c, net)

end Client

inductive Action where
  | connect
  | echo (payload : Bytes)
  | close
  | reset
  deriving DecidableEq, Repr

namespace Client

/-- One action. Those that measure no latency give 0. -/
def perform (o : ClientOptions) (c : Client) (now : Duration) (net : Network) : Action → Call
  | .connect => c.connect o now net
  | .echo payload => c.echoRound o now payload net
  | .close =>
    let (c, net) := c.close net
    ⟨c, net, some (now, .ok 0)⟩
  | .reset => ⟨c.resetCounters, net, some (now, .ok 0)⟩

end Client

end EchoLoad
