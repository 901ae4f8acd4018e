import EchoLoad.Failure
import EchoLoad.Frame.Decoder
import EchoLoad.Network.Peer
/-!
One connection to a scripted peer, seen from both ends: what the peer has accepted, what waits
to be read, and what has been read. Only waiting for something to read takes time.
-/

namespace EchoLoad

inductive Fate where
  /-- The attempt to connect has not ended. -/
  | pending
  | refused
  | open
  | shutdown
  /-- Given up without a shutdown. -/
  | dropped
  deriving DecidableEq, Repr

structure Connection where
  peer : Peer
  fate : Fate := .pending
  /-- Whole requests that have arrived. -/
  requests : Nat := 0
  /-- What the peer accepted, one piece a write, the latest first. -/
  written : List Bytes := []
  /-- What the client read, one piece a read, the latest first. -/
  taken : List Bytes := []
  /-- What can be read and from when on, in order. -/
  inbox : List (Duration × Item) := []
  deriving DecidableEq, Repr

namespace Connection

/-- The bytes that the peer has accepted, in order. -/
def accepted (c : Connection) : Bytes := c.written.reverse.flatten

/-- The bytes that the client has read, in order. -/
def consumed (c : Connection) : Bytes := c.taken.reverse.flatten

def bytesIn (c : Connection) : Nat := c.written.foldl (fun n piece => n + piece.length) 0

def late (deadline : Option Duration) (t : Duration) : Bool :=
  match deadline with
  | some d => d < t
  | none => false

/-- The bytes that pass at once if no more than a chunk can. -/
def cut (chunk : Option Nat) (bytes : Bytes) : Bytes :=
  match chunk with
  | some n => bytes.take n
  | none => bytes

/-- One read of at most `n` bytes from the front item, which is waited for. An end of stream
stays in front for good. -/
def read (deadline : Option Duration) :
    Duration × Connection → Nat → Read (Duration × Connection)
  | (now, c), n =>
    match c.inbox with
    | [] => .stalled
    | (ready, item) :: rest =>
      if late deadline ready then .stalled
      else
        let now := max now ready
        match item with
        | .ended => .data [] (now, c)
        | .fault e => .failed e (now, { c with inbox := rest })
        | .bytes b =>
          let piece := (cut c.peer.readChunk b).take n
          let left := b.drop piece.length
          let inbox := if left = [] then rest else (ready, .bytes left) :: rest
          .data piece (now, { c with inbox, taken := piece :: c.taken })

/-- Write until all bytes are accepted or a write fails. A write that accepts nothing fails. -/
def writeAll (allowance : Option (Nat × IoError)) (c : Connection) (bytes : Bytes) :
    Connection × Option IoError :=
  if bytes = [] then (c, none)
  else
    match allowance with
    | some (0, e) => (c, some e)
    | _ =>
      let piece := cut (allowance.map (·.1)) (cut c.peer.writeChunk bytes)
      if piece = [] then (c, some .writeZero)
      else
        writeAll (allowance.map fun (n, e) => (n - piece.length, e))
          { c with written := piece :: c.written } (bytes.drop piece.length)
termination_by bytes.length
decreasing_by
  rw [List.length_drop]
  have h : bytes.length ≠ 0 := by simpa using ‹¬bytes = []›
  have hp := List.length_pos_iff.2 ‹¬piece = []›
  exact Nat.sub_lt (Nat.pos_of_ne_zero h) hp

/-- A whole request has arrived; its reply can be read after the peer's latency. -/
def deliver (c : Connection) (now : Duration) (reply : Reply) (payload : Bytes) : Connection :=
  { c with
    requests := c.requests + 1
    inbox := c.inbox ++ (reply.items payload).map (now + c.peer.latency, ·) }

/-- Shut the connection down. It counts as shut down even if that reports an error. -/
def shutdown (c : Connection) : Connection × Option IoError :=
  ({ c with fate := .shutdown }, c.peer.shutdownError)

/-- Give up the connection, unless it is gone already. -/
def drop (c : Connection) : Connection :=
  if c.fate = .open then { c with fate := .dropped } else c

end Connection

/-- What a call gives: when it ends and how, or nothing if it never ends. A call that succeeds
gives the latency it measured. -/
abbrev Ending := Option (Duration × Except ClientError Duration)

namespace Connection

def firstDifference : Bytes → Bytes → Option Nat
  | a :: as, b :: bs => if a = b then (firstDifference as bs).map (· + 1) else some 0
  | _, _ => none

/-- What a decoded reply says about the request. -/
def verdict (payload : Bytes) (latency : Duration) :
    Except FrameError (Option Bytes) → Except ClientError Duration
  | .ok none => .error (.protocol (.truncated Frame.headerLength 0))
  | .error (.oversized declared _) => .error (.echoMismatch payload.length declared none)
  | .error e => .error (.protocol e)
  | .ok (some echo) =>
    if echo.length ≠ payload.length then
      .error (.echoMismatch payload.length echo.length none)
    else
      match firstDifference payload echo with
      | some o => .error (.echoMismatch payload.length echo.length (some o))
      | none => .ok latency

/-- Send a request and read its echo, within `limit` if there is one. -/
def exchange (c : Connection) (now : Duration) (limit : Option Duration) (payload : Bytes) :
    Connection × Ending :=
  match Frame.encode payload with
  | .error e => (c, some (now, .error (.protocol e)))
  | .ok request =>
    let reply := c.peer.reply c.requests
    match c.writeAll reply.allowance request with
    | (c, some e) => (c, some (now, .error (.write e)))
    | (c, none) =>
      let c := c.deliver now reply payload
      match reply.flushFault with
      | some e => (c, some (now, .error (.write e)))
      | none =>
        match Frame.decode (read (limit.map (now + ·))) payload.length (now, c) with
        | some (reply, (t, c)) => (c, some (t, verdict payload (t - now) reply))
        | none => (c, limit.map fun d => (now + d, .error (.timeout d)))

end Connection

end EchoLoad
