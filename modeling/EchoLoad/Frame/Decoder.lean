import EchoLoad.Frame
/-!
Reading frames from a stream. A stream is any state with a read of at most so many bytes; the
reader below never sees how the bytes were cut, only their order, where they end, and errors.
-/

namespace EchoLoad

/-- What one read gives. -/
inductive Read (σ : Type) where
  /-- Some bytes; no bytes mean that the stream has ended here. -/
  | data (bytes : Bytes) (rest : σ)
  | failed (error : IoError) (rest : σ)
  /-- Nothing arrives as long as the reader waits. -/
  | stalled

namespace Frame

/-- How reading a fixed number of bytes ends. -/
inductive Filled where
  | full (bytes : Bytes)
  | short (received : Nat)
  | failed (error : IoError)

namespace Filled

/-- The same end, counted from `bytes` earlier. -/
def after (bytes : Bytes) : Filled → Filled
  | .full rest => .full (bytes ++ rest)
  | .short n => .short (bytes.length + n)
  | .failed e => .failed e

end Filled

variable {σ : Type} (read : σ → Nat → Read σ)

/-- Read until `need` bytes are there; `none` if that would wait for ever. -/
def fill (need : Nat) (s : σ) : Option (Filled × σ) :=
  if need = 0 then some (.full [], s)
  else
    match read s need with
    | .stalled => none
    | .failed e rest => some (.failed e, rest)
    | .data [] rest => some (.short 0, rest)
    | .data (b :: bs) rest =>
      (fill (need - (b :: bs).length) rest).map fun (f, s') => (f.after (b :: bs), s')
termination_by need
decreasing_by simp only [List.length_cons]; omega

/-- Read one frame and give its payload, or nothing if the stream ends before the frame.
A frame that declares more than `limit` fails as soon as its header is read. -/
def decode (limit : Nat) (s : σ) : Option (Except FrameError (Option Bytes) × σ) :=
  match fill read headerLength s with
  | none => none
  | some (.failed e, s) => some (.error (.io e), s)
  | some (.short 0, s) => some (.ok none, s)
  | some (.short n, s) => some (.error (.truncated headerLength n), s)
  | some (.full head, s) =>
    let length := declared head
    if limit < length then some (.error (.oversized length limit), s)
    else
      match fill read length s with
      | none => none
      | some (.failed e, s) => some (.error (.io e), s)
      | some (.short n, s) => some (.error (.truncated length n), s)
      | some (.full payload, s) => some (.ok (some payload), s)

end Frame

/-- A piece of a stream as it is delivered. -/
inductive Piece where
  /-- No bytes are an end of stream, after which more may follow. -/
  | bytes (content : Bytes)
  | wait
  | fault (error : IoError)

/-- One read from pieces in order; behind the last piece the stream has ended. -/
def Piece.read : List Piece → Nat → Read (List Piece)
  | [], _ => .data [] []
  | .wait :: rest, n => Piece.read rest n
  | .fault e :: rest, _ => .failed e rest
  | .bytes b :: rest, n =>
    if n < b.length then .data (b.take n) (.bytes (b.drop n) :: rest)
    else .data b rest

end EchoLoad
