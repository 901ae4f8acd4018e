/-!
The exact value of a binary64 number: a sign and a natural number times a power of two.
-/

namespace EchoLoad.Decimal

inductive Binary64 where
  | nan
  | infinite (negative : Bool)
  /-- The number of this sign with magnitude `mantissa * 2 ^ exponent`. -/
  | finite (negative : Bool) (mantissa : Nat) (exponent : Int)
  deriving DecidableEq, Repr

namespace Binary64

/-- The lowest mantissa of a normal number. -/
def hidden : Nat := Nat.pow 2 52

def ofBits (bits : UInt64) : Binary64 :=
  let n := bits.toNat
  let negative := decide (Nat.pow 2 63 ≤ n)
  let field : Nat := n / Nat.pow 2 52 % Nat.pow 2 11
  let fraction : Nat := n % Nat.pow 2 52
  if field = 2047 then if fraction = 0 then .infinite negative else .nan
  else if field = 0 then .finite negative fraction (-1074)
  else .finite negative (hidden + fraction) ((field : Int) - 1075)

/-- Whether the gap to the next number below is half the gap above. -/
def tightBelow (mantissa : Nat) (exponent : Int) : Bool :=
  mantissa = hidden && -1074 < exponent

end Binary64

end EchoLoad.Decimal
