import EchoLoad.Decimal.Shortest
/-!
Decimals with a fixed number of places, rounded once from the exact binary value.
-/

namespace EchoLoad.Decimal

/-- The whole number nearest to a quotient; of two equally near the even one. -/
def roundDiv (num den : Nat) : Nat :=
  let q := num / den
  let r := num % den
  if 2 * r < den then q
  else if den < 2 * r then q + 1
  else if q % 2 = 0 then q else q + 1

/-- A magnitude with `places` digits behind the point. -/
def fixedDigits (places mantissa : Nat) (exponent : Int) : Digits :=
  let x := Ratio.scaled (mantissa * Nat.pow 10 places) 2 exponent
  ⟨roundDiv x.num x.den, -places⟩

def fixed (places : Nat) (x : Float) : String :=
  match Binary64.ofBits x.toBits with
  | .nan => "NaN"
  | .infinite negative => signed negative "inf"
  | .finite negative m e => signed negative (positional (fixedDigits places m e))

end EchoLoad.Decimal
