import EchoLoad.Decimal.Binary64
/-!
The shortest decimal that reads back as a given binary64 number. The reals that round to the
number form an interval around it; grids of one, two, three, … significant digits are tried
until one has a point in the interval, and of two such points the nearer is taken.
-/

namespace EchoLoad.Decimal

/-- A quotient of naturals, compared by cross multiplication. -/
structure Ratio where
  num : Nat
  den : Nat

namespace Ratio

def le (a b : Ratio) : Bool := a.num * b.den ≤ b.num * a.den

def lt (a b : Ratio) : Bool := a.num * b.den < b.num * a.den

def scaled (n base : Nat) (e : Int) : Ratio :=
  if 0 ≤ e then ⟨n * base.pow e.toNat, 1⟩ else ⟨n, base.pow (-e).toNat⟩

def div (a b : Ratio) : Ratio := ⟨a.num * b.den, a.den * b.num⟩

def floor (a : Ratio) : Nat := a.num / a.den

end Ratio

/-- Significant decimal digits and the power of ten of the last one. -/
structure Digits where
  digits : Nat
  exponent : Int
  deriving DecidableEq, Repr

namespace Digits

def value (d : Digits) : Ratio := .scaled d.digits 10 d.exponent

/-- The same number without zeros at its end; `fuel` bounds how many are taken. -/
def trim : Nat → Digits → Digits
  | 0, d => d
  | fuel + 1, d =>
    if d.digits ≠ 0 ∧ d.digits % 10 = 0 then trim fuel ⟨d.digits / 10, d.exponent + 1⟩ else d

end Digits

/-- The reals that round to one binary64 number. -/
structure Interval where
  low : Ratio
  high : Ratio
  /-- Whether the ends belong to it. -/
  closed : Bool

namespace Interval

def around (mantissa : Nat) (exponent : Int) : Interval where
  low := .scaled (4 * mantissa - if Binary64.tightBelow mantissa exponent then 1 else 2) 2
    (exponent - 2)
  high := .scaled (4 * mantissa + 2) 2 (exponent - 2)
  closed := mantissa % 2 = 0

def contains (i : Interval) (x : Ratio) : Bool :=
  if i.closed then i.low.le x && x.le i.high else i.low.lt x && x.lt i.high

end Interval

/-- A power of ten not above the least one over `mantissa * 2 ^ exponent`, and at most two below
it: 1233 / 4096 is a little less than the decimal logarithm of 2. -/
def estimate (mantissa : Nat) (exponent : Int) : Int :=
  Int.fdiv ((mantissa.log2 + exponent) * 1233) 4096

/-- The least power of ten above `x`, looked for upwards from `e`. -/
def magnitude (x : Ratio) : Nat → Int → Int
  | 0, e => e
  | fuel + 1, e => if x.lt (.scaled 1 10 e) then e else magnitude x fuel (e + 1)

/-- Of the two grid points next to `x` the one in the interval; the nearer one if both are, the
upper one if they are equally near. -/
def gridPoint (x : Ratio) (i : Interval) (e : Int) : Option Digits :=
  let below := (x.div (.scaled 1 10 e)).floor
  let lower : Digits := ⟨below, e⟩
  let upper : Digits := ⟨below + 1, e⟩
  match i.contains lower.value, i.contains upper.value with
  | false, false => none
  | true, false => some lower
  | false, true => some upper
  | true, true =>
    let middle : Digits := ⟨10 * below + 5, e - 1⟩
    if x.lt middle.value then some lower else some upper

/-- Try grids of more and more digits. -/
def search (x : Ratio) (i : Interval) (top : Int) : Nat → Nat → Digits
  | 0, n => ⟨(x.div (.scaled 1 10 (top - n))).floor, top - n⟩
  | fuel + 1, n =>
    match gridPoint x i (top - n) with
    | some d => d
    | none => search x i top fuel (n + 1)

/-- The shortest digits of a number other than 0. Seventeen always suffice. -/
def shortestDigits (mantissa : Nat) (exponent : Int) : Digits :=
  let x := Ratio.scaled mantissa 2 exponent
  let top := magnitude x 4 (estimate mantissa exponent)
  (search x (.around mantissa exponent) top 17 1).trim 18

/-- Digits with a point where it belongs, and no exponent. -/
def positional (d : Digits) : String :=
  let text := (toString d.digits).toList
  if 0 ≤ d.exponent then String.ofList (text ++ List.replicate d.exponent.toNat '0')
  else
    let places := (-d.exponent).toNat
    let text := List.replicate (places + 1 - text.length) '0' ++ text
    let whole := text.length - places
    String.ofList (text.take whole ++ '.' :: text.drop whole)

def signed (negative : Bool) (text : String) : String := if negative then "-" ++ text else text

/-- The shortest text that reads back; whole numbers have no point. -/
def shortest (x : Float) : String :=
  match Binary64.ofBits x.toBits with
  | .nan => "NaN"
  | .infinite negative => signed negative "inf"
  | .finite negative m e =>
    signed negative (if m = 0 then "0" else positional (shortestDigits m e))

end EchoLoad.Decimal
