/-!
Numerals: digits in a base of up to sixteen, and the number that they stand for.
-/

namespace EchoLoad.Numeral

/-- The value of a digit, if the base has it. Letters of both cases go on from ten. -/
def digit? (base : Nat) (c : Char) : Option Nat :=
  let n :=
    if '0' ≤ c ∧ c ≤ '9' then c.toNat - 48
    else if 'a' ≤ c ∧ c ≤ 'f' then c.toNat - 87
    else if 'A' ≤ c ∧ c ≤ 'F' then c.toNat - 55
    else base
  if n < base then some n else none

def isDigit (base : Nat) (c : Char) : Bool := (digit? base c).isSome

def value (base : Nat) (digits : List Char) : Nat :=
  digits.foldl (fun n c => n * base + (digit? base c).getD 0) 0

/-- A number below `limit` in decimal digits, with at most one plus sign in front. -/
def natural? (limit : Nat) (text : String) : Option Nat :=
  let digits := match text.toList with
    | '+' :: r => r
    | r => r
  let n := value 10 digits
  if digits ≠ [] ∧ digits.all (isDigit 10) ∧ n < limit then some n else none

end EchoLoad.Numeral
