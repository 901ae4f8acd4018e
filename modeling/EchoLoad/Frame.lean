import EchoLoad.IoError
/-!
Frames of the echo protocol: a length in four bytes, most significant first, and exactly that
many payload bytes. The same frame is a request and its echo.
-/

namespace EchoLoad

abbrev Bytes := List UInt8

inductive FrameError where
  /-- The payload does not fit the 32-bit length field. -/
  | tooLarge (length : Nat)
  /-- The length field declares more than the reader accepts. -/
  | oversized (declared limit : Nat)
  /-- The stream ended inside a frame, with `received` of the `expected` bytes. -/
  | truncated (expected received : Nat)
  | io (error : IoError)
  deriving DecidableEq, Repr

def FrameError.message : FrameError → String
  | .tooLarge n => s!"payload of {n} bytes exceeds the 32-bit length field"
  | .oversized d l => s!"frame declares {d} bytes, limit is {l}"
  | .truncated e r => s!"stream closed after {r} of {e} expected bytes"
  | .io e => e.text

namespace Frame

def headerLength : Nat := 4

/-- Lengths from here on have no header. -/
def lengthBound : Nat := 4294967296

/-- Bytes on the wire for a payload of `n` bytes. -/
def size (n : Nat) : Nat := headerLength + n

def header (n : Nat) : Bytes :=
  [(n / 16777216).toUInt8, (n / 65536).toUInt8, (n / 256).toUInt8, n.toUInt8]

/-- The number that big-endian bytes stand for. -/
def declared (bytes : Bytes) : Nat :=
  bytes.foldl (fun n b => n * 256 + b.toNat) 0

/-- The frame of a payload that fits the length field. -/
def wire (payload : Bytes) : Bytes := header payload.length ++ payload

def encode (payload : Bytes) : Except FrameError Bytes :=
  if payload.length < lengthBound then .ok (wire payload)
  else .error (.tooLarge payload.length)

end Frame

end EchoLoad
