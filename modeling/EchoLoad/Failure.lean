import EchoLoad.Frame
import EchoLoad.Time
import EchoLoad.Decimal.Fixed
/-!
Failures of a client and of a whole run, and their texts.
-/

namespace EchoLoad

inductive ClientState where
  | unconnected | connected | active | closed | failed
  deriving DecidableEq, Repr

def ClientState.name : ClientState → String
  | .unconnected => "Unconnected"
  | .connected => "Connected"
  | .active => "Active"
  | .closed => "Closed"
  | .failed => "Failed"

inductive ClientError where
  /-- The transport connection could not be established. -/
  | connect (error : IoError)
  /-- The reply was cut short, or reading it failed. -/
  | protocol (error : FrameError)
  /-- The echo differs: in length, or first at `offset`. -/
  | echoMismatch (expected actual : Nat) (offset : Option Nat)
  /-- The request could not be written and flushed. -/
  | write (error : IoError)
  | timeout (after : Duration)
  | invalidState (state : ClientState)
  deriving DecidableEq, Repr

/-- A span in seconds with three places and its unit. -/
def Duration.label (d : Duration) : String := Decimal.fixed 3 d.seconds ++ "s"

def ClientError.message : ClientError → String
  | .connect e => "connect failed: " ++ e.text
  | .protocol e => "protocol error: " ++ e.message
  | .echoMismatch e a (some o) =>
    s!"echo mismatch: {a}/{e} bytes, first difference at offset {o}"
  | .echoMismatch e a none => s!"echo mismatch: expected length {e}, got length {a}"
  | .write e => "write failed: " ++ e.text
  | .timeout d => "echo round timed out after " ++ d.label
  | .invalidState s => "operation not allowed in state " ++ s.name

/-- A client that stopped its echo loop on an error. -/
structure Failure where
  client : Nat
  error : ClientError
  deriving DecidableEq, Repr

inductive RunError where
  /-- The pool could not be established; `connected` clients had connected. -/
  | pool (connected : Nat) (error : ClientError)
  /-- A client of a pool of `clients` failed an echo round. -/
  | echo (clients : Nat) (error : ClientError)
  | output (error : IoError)
  deriving DecidableEq, Repr

def RunError.message : RunError → String
  | .pool n e => s!"client pool failed after {n} connections: " ++ e.message
  | .echo n e => s!"echo failed with {n} clients: " ++ e.message
  | .output e => "failed to write results: " ++ e.text

end EchoLoad
