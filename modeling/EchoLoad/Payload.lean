import EchoLoad.Frame
import EchoLoad.Random
/-!
Random payloads: how long each one is, and the symbols it is made of.
-/

namespace EchoLoad

inductive PayloadSize where
  | fixed (length : Nat)
  /-- Drawn for each payload, both ends included. -/
  | uniform (min max : Nat)
  deriving DecidableEq, Repr

namespace PayloadSize

/-- The length of the next payload; nothing if no length is allowed. -/
def sample (s : Source) : PayloadSize → Option (Nat × Source)
  | .fixed n => some (n, s)
  | .uniform min max => s.uniform min max

def maxLength : PayloadSize → Nat
  | .fixed n => n
  | .uniform _ max => max

end PayloadSize

namespace Payload

def symbolCount : Nat := 63

/-- The digits, then the code points from `@` to `Z`, then the lower-case letters. -/
def symbol (i : Nat) : UInt8 :=
  (if i < 10 then 48 + i else if i < 37 then 54 + i else 60 + i).toUInt8

def symbols : Bytes := (List.range symbolCount).map symbol

/-- Put `n` random symbols in front of the symbols drawn so far. -/
def draw : Nat → Source → Bytes → Bytes × Source
  | 0, s, drawn => (drawn, s)
  | n + 1, s, drawn =>
    let (i, s) := s.below symbolCount
    draw n s (symbol i :: drawn)

def fill (n : Nat) (s : Source) : Bytes × Source :=
  let (drawn, s) := draw n s []
  (drawn.reverse, s)

/-- A buffer that is emptied before a payload of `n` random symbols goes into it. -/
def refill (buffer : Bytes) (n : Nat) (s : Source) : Bytes × Source :=
  let (symbols, s) := fill n s
  (buffer.take 0 ++ symbols, s)

end Payload

end EchoLoad
