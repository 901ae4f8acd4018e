import EchoLoad.Numeral
/-!
Socket addresses: a host as a number, and a port. Each has one written form, with the longest run
of zero groups in an IPv6 host left out; the reader knows others too.
-/

namespace EchoLoad

inductive Host where
  /-- Four bytes. -/
  | v4 (octets : List Nat)
  /-- Eight groups of 16 bits, and the scope that they are valid in. -/
  | v6 (groups : List Nat) (scope : Nat)
  deriving DecidableEq, Repr

structure Address where
  host : Host
  port : Nat
  deriving DecidableEq, Repr

/-! ## Reading -/

namespace Address

def expect (c : Char) : List Char → Option (List Char)
  | [] => none
  | c' :: r => if c' = c then some r else none

def digits (base : Nat) (cs : List Char) : List Char := cs.takeWhile (Numeral.isDigit base)

/-- A number below `limit` of at most so many digits. -/
def number? (base limit maxDigits : Nat) (cs : List Char) : Option (Nat × List Char) :=
  let ds := digits base cs
  let n := Numeral.value base ds
  if ds ≠ [] ∧ ds.length ≤ maxDigits ∧ n < limit then some (n, cs.drop ds.length) else none

/-- A byte in decimal digits, of which the first is no 0 unless it is the only one. -/
def octet? (cs : List Char) : Option (Nat × List Char) :=
  if cs.head? = some '0' ∧ 1 < (digits 10 cs).length then none else number? 10 256 3 cs

def octets? : Nat → List Char → Option (List Nat × List Char)
  | 0, cs => some ([], cs)
  | n + 1, cs => do
    let (b, r) ← octet? (← expect '.' cs)
    let (bs, r) ← octets? n r
    some (b :: bs, r)

/-- Four bytes with dots between them. -/
def quad? (cs : List Char) : Option (List Nat × List Char) := do
  let (b, r) ← octet? cs
  let (bs, r) ← octets? 3 r
  some (b :: bs, r)

/-- Four bytes as two groups. -/
def pairUp : List Nat → List Nat
  | [a, b, c, d] => [256 * a + b, 256 * c + d]
  | _ => []

/-- As many groups as there are, up to a number, with colons between them, and whether four bytes
with dots end them. -/
def groups (first : Bool) : Nat → List Char → List Nat × Bool × List Char
  | 0, cs => ([], false, cs)
  | left + 1, cs =>
    match if first then some cs else expect ':' cs with
    | none => ([], false, cs)
    | some body =>
      match if left = 0 then none else quad? body with
      | some (bytes, r) => (pairUp bytes, true, r)
      | none =>
        match number? 16 65536 4 body with
        | none => ([], false, cs)
        | some (g, r) =>
          let (gs, quad, r) := groups false left r
          (g :: gs, quad, r)

/-- Eight groups. Two colons stand for one zero group or more. -/
def v6? (cs : List Char) : Option (List Nat × List Char) :=
  match groups true 8 cs with
  | (front, quad, r) =>
    if front.length = 8 then some (front, r)
    else if quad then none
    else do
      let r ← expect ':' (← expect ':' r)
      let (back, _, r) := groups true (7 - front.length) r
      some (front ++ List.replicate (8 - front.length - back.length) 0 ++ back, r)

def scope? (cs : List Char) : Option (Nat × List Char) := do
  let r ← expect '%' cs
  number? 10 4294967296 r.length r

def port? (cs : List Char) : Option Nat := do
  let r ← expect ':' cs
  match ← number? 10 65536 r.length r with
  | (port, []) => some port
  | _ => none

def parse? (text : String) : Option Address :=
  let cs := text.toList
  match quad? cs with
  | some (octets, r) => (port? r).map (⟨.v4 octets, ·⟩)
  | none => do
    let (gs, r) ← v6? (← expect '[' cs)
    let (scope, r) := (scope? r).getD (0, r)
    let port ← port? (← expect ']' r)
    some ⟨.v6 gs scope, port⟩

/-! ## Writing -/

def hexDigits (n : Nat) : String := String.ofList (Nat.toDigits 16 n)

def groupsText (gs : List Nat) : String := ":".intercalate (gs.map hexDigits)

def quadText (octets : List Nat) : String := ".".intercalate (octets.map toString)

def leadingZeros (gs : List Nat) : Nat := (gs.takeWhile (· = 0)).length

/-- Where the longest run of zero groups starts, and its length; of equal ones the first. -/
def longestZeros (gs : List Nat) : Nat × Nat :=
  (List.range gs.length).foldl (fun (best : Nat × Nat) i =>
    let n := leadingZeros (gs.drop i)
    if best.2 < n then (i, n) else best) (0, 0)

/-- A run of two zero groups or more is left out. An IPv4 host within IPv6 keeps its dots. -/
def v6Text (gs : List Nat) : String :=
  match gs with
  | [0, 0, 0, 0, 0, 0xFFFF, a, b] => "::ffff:" ++ quadText [a / 256, a % 256, b / 256, b % 256]
  | _ =>
    let (start, length) := longestZeros gs
    if 1 < length then groupsText (gs.take start) ++ "::" ++ groupsText (gs.drop (start + length))
    else groupsText gs

def text (a : Address) : String :=
  match a.host with
  | .v4 octets => s!"{quadText octets}:{a.port}"
  | .v6 gs scope =>
    let scopeText := if scope = 0 then "" else s!"%{scope}"
    s!"[{v6Text gs}{scopeText}]:{a.port}"

end Address

end EchoLoad
