import EchoLoad.Decimal.Shortest
/-!
How strings and numbers are written in TOML. A string takes the plainest of five forms that can
hold it: quoted on one line, literal on one line, the same two over several lines, and last a
quoted form with escapes.
-/

namespace EchoLoad.Toml

/-- A control character other than a tab or a line break. -/
def isRawControl (c : Char) : Bool :=
  (c.toNat < 32 && c ≠ '\t' && c ≠ '\n') || c.toNat = 127

def longestRun (q : Char) : List Char → Nat → Nat → Nat
  | [], current, best => max current best
  | c :: rest, current, best =>
    if c = q then longestRun q rest (current + 1) best else longestRun q rest 0 (max current best)

def hexDigit (n : Nat) : Char := Char.ofNat (if n < 10 then 48 + n else 55 + n)

/-- The escape of a character that a quoted string cannot hold as it is. -/
def escape (c : Char) : List Char :=
  if c = '\x08' then ['\\', 'b']
  else if c = '\t' then ['\\', 't']
  else if c = '\n' then ['\\', 'n']
  else if c = '\x0c' then ['\\', 'f']
  else if c = '\r' then ['\\', 'r']
  else if c = '\\' then ['\\', '\\']
  else if c.toNat < 32 ∨ c.toNat = 127 then
    ['\\', 'u', '0', '0', hexDigit (c.toNat / 16), hexDigit (c.toNat % 16)]
  else [c]

def quoted (cs : List Char) : List Char :=
  '"' :: cs.flatMap (fun c => if c = '"' then ['\\', '"'] else escape c) ++ ['"']

/-- Over several lines a quote is escaped only as the third of a run. -/
def escapeLines : Nat → List Char → List Char
  | _, [] => []
  | run, c :: rest =>
    if c = '"' then
      if run = 2 then '\\' :: '"' :: escapeLines 0 rest else '"' :: escapeLines (run + 1) rest
    else if c = '\n' then '\n' :: escapeLines 0 rest
    else escape c ++ escapeLines 0 rest

def opening (cs : List Char) : List Char := if cs.contains '\n' then ['\n'] else []

def quotedLines (cs : List Char) : List Char :=
  ['"', '"', '"'] ++ opening cs ++ escapeLines 0 cs ++ ['"', '"', '"']

def literal (cs : List Char) : List Char := '\'' :: cs ++ ['\'']

def literalLines (cs : List Char) : List Char :=
  ['\'', '\'', '\''] ++ opening cs ++ cs ++ ['\'', '\'', '\'']

/-- The first form that fits. -/
def chooseForm (cs : List Char) : List Char :=
  let raw := cs.any isRawControl
  let slash := cs.contains '\\'
  let lines := cs.contains '\n'
  let doubles := longestRun '"' cs 0 0
  let singles := longestRun '\'' cs 0 0
  if !raw && !slash && doubles = 0 && !lines then quoted cs
  else if !raw && singles = 0 && !lines then literal cs
  else if !raw && !slash && doubles ≤ 2 then quotedLines cs
  else if !raw && singles ≤ 2 then literalLines cs
  else if lines then quotedLines cs
  else quoted cs

def string (s : String) : String := String.ofList (chooseForm s.toList)

/-- A float always shows a point. -/
def float (x : Float) : String :=
  match Decimal.Binary64.ofBits x.toBits with
  | .nan => "nan"
  | .infinite negative => Decimal.signed negative "inf"
  | .finite _ _ _ =>
    let text := Decimal.shortest x
    if text.toList.contains '.' then text else text ++ ".0"

end EchoLoad.Toml
