import EchoLoad.Frame
import EchoLoad.Time
/-!
Peers that follow a script: what becomes of an attempt to connect, and what is answered to each
request. Everything a client can meet on a connection is one of these.
-/

namespace EchoLoad

inductive Reply where
  | echo
  /-- The echo with one payload byte changed, if there is such a byte. -/
  | flip (offset : Nat) (mask : UInt8)
  /-- The echo of the payload without its last bytes. -/
  | cut (count : Nat)
  /-- The echo of the payload with zero bytes behind it. -/
  | grow (count : Nat)
  | raw (bytes : Bytes) (close : Bool)
  | silent
  | hangup
  | readError (error : IoError)
  /-- Only so many bytes of the request are accepted, then a write fails. -/
  | writeError (accepts : Nat) (error : IoError)
  /-- Only so many bytes of the request are accepted, then a write accepts none. -/
  | writeZero (accepts : Nat)
  /-- The request arrives and the flush behind it fails. -/
  | flushError (error : IoError)
  deriving DecidableEq, Repr

inductive Item where
  | bytes (content : Bytes)
  | fault (error : IoError)
  | ended
  deriving DecidableEq, Repr

namespace Reply

/-- The bytes of a request that are accepted before the given error. -/
def allowance : Reply → Option (Nat × IoError)
  | .writeError n e => some (n, e)
  | .writeZero n => some (n, .writeZero)
  | _ => none

def flushFault : Reply → Option IoError
  | .flushError e => some e
  | _ => none

/-- What becomes readable after a request with this payload. -/
def items (payload : Bytes) : Reply → List Item
  | .echo | .writeError _ _ | .writeZero _ => [.bytes (Frame.wire payload)]
  | .flip o m => [.bytes (Frame.wire (payload.modify o (· ^^^ m)))]
  | .cut n => [.bytes (Frame.wire (payload.take (payload.length - n)))]
  | .grow n => [.bytes (Frame.wire (payload ++ List.replicate n 0))]
  | .raw b close => (if b = [] then [] else [.bytes b]) ++ if close then [.ended] else []
  | .hangup => [.ended]
  | .readError e => [.fault e]
  | .silent | .flushError _ => []

end Reply

/-- The script of one connection. -/
structure Peer where
  /-- The attempt to connect ends after this time, unless it never does. -/
  connectDelay : Duration := 0
  never : Bool := false
  refuse : Option IoError := none
  /-- The connection stands, but its transport option cannot be set. -/
  optionError : Option IoError := none
  shutdownError : Option IoError := none
  /-- From a request until its reply can be read. -/
  latency : Duration := Duration.ofMillis 1
  replies : List Reply := []
  /-- What is done with requests beyond `replies`. -/
  thereafter : Reply := .echo
  /-- One read gives at most this many bytes. -/
  readChunk : Option Nat := none
  /-- One write accepts at most this many bytes. -/
  writeChunk : Option Nat := none
  deriving DecidableEq, Repr

namespace Peer

/-- What is done with request `k`, counted from 0. -/
def reply (p : Peer) (k : Nat) : Reply := p.replies[k]?.getD p.thereafter

end Peer

end EchoLoad
