import EchoLoad.Numeral
/-!
Numbers, truth values and dates of TOML. They are words of letters, digits and a few signs, and
a word is read as a whole or not at all.
-/

namespace EchoLoad.Toml

def isWordChar (c : Char) : Bool :=
  c.isAlphanum || c = '_' || c = '+' || c = '-' || c = '.' || c = ':'

/-- The digits of a number, in which single underscores may stand between two digits. -/
def digits? (base : Nat) : List Char → Option (List Char)
  | [] => none
  | [c] => if Numeral.isDigit base c then some [c] else none
  | c :: '_' :: r => if Numeral.isDigit base c then (digits? base r).map (c :: ·) else none
  | c :: r => if Numeral.isDigit base c then (digits? base r).map (c :: ·) else none

/-- Digits of which the first is no 0 unless it is the only one. -/
def plainDigits? (cs : List Char) : Option (List Char) :=
  (digits? 10 cs).filter fun ds => ds.length = 1 || ds.head? ≠ some '0'

def signOf : List Char → Bool × List Char
  | '-' :: r => (true, r)
  | '+' :: r => (false, r)
  | r => (false, r)

/-- Integers are signed words of 64 bits. -/
def integer? (word : List Char) : Option Int :=
  let based (base : Nat) (r : List Char) : Option Int := do
    let n := Numeral.value base (← digits? base r)
    if n < Nat.pow 2 63 then some n else none
  match word with
  | '0' :: 'x' :: r => based 16 r
  | '0' :: 'o' :: r => based 8 r
  | '0' :: 'b' :: r => based 2 r
  | _ => do
    let (negative, body) := signOf word
    let n := Numeral.value 10 (← plainDigits? body)
    if negative then if n ≤ Nat.pow 2 63 then some (-n) else none
    else if n < Nat.pow 2 63 then some n else none

/-- Whether `ds * 10 ^ e` is too large for binary64. -/
def overflows (ds : List Char) (e : Int) : Bool :=
  let n := Numeral.value 10 ds
  let size : Int := (toString n).length + e
  if n = 0 || size < 309 then false
  else if 309 < size then true
  else
    let scaled := if 0 ≤ e then n * Nat.pow 10 e.toNat else n / Nat.pow 10 (-e).toNat
    Nat.pow 2 1024 - Nat.pow 2 970 ≤ scaled

/-- The exponent of a float: nothing, or a marked number. -/
def exponent? : List Char → Option Int
  | [] => some 0
  | c :: r =>
    if c = 'e' || c = 'E' then do
      let (negative, body) := signOf r
      let n := Numeral.value 10 (← digits? 10 body)
      some (if negative then -n else n)
    else none

/-- Whether a word is a float. Its value is used nowhere, but a positive one must be finite. -/
def isFloat (word : List Char) : Bool :=
  let (negative, body) := signOf word
  if body = ['i', 'n', 'f'] || body = ['n', 'a', 'n'] then true
  else
    let inNumber (c : Char) : Bool := c.isDigit || c = '_'
    let whole := body.takeWhile inNumber
    let parts : Option (List Char × List Char × Int) :=
      match body.dropWhile inNumber with
      | '.' :: r => do
        let places ← digits? 10 (r.takeWhile inNumber)
        some (← plainDigits? whole, places, ← exponent? (r.dropWhile inNumber))
      | [] => none
      | r => do some (← plainDigits? whole, [], ← exponent? r)
    match parts with
    | some (ds, places, e) => negative || !overflows (ds ++ places) (e - places.length)
    | none => false

def twoDigits? (a b : Char) (low high : Nat) : Option Nat :=
  if a.isDigit && b.isDigit then
    let n := Numeral.value 10 [a, b]
    if low ≤ n && n ≤ high then some n else none
  else none

def daysIn (year month : Nat) : Nat :=
  if month = 2 then
    if year % 4 = 0 && (year % 100 ≠ 0 || year % 400 = 0) then 29 else 28
  else if month = 4 || month = 6 || month = 9 || month = 11 then 30
  else 31

def afterDate : List Char → Option (List Char)
  | y1 :: y2 :: y3 :: y4 :: '-' :: m1 :: m2 :: '-' :: d1 :: d2 :: r => do
    if [y1, y2, y3, y4].all Char.isDigit then
      let month ← twoDigits? m1 m2 1 12
      let _ ← twoDigits? d1 d2 1 (daysIn (Numeral.value 10 [y1, y2, y3, y4]) month)
      some r
    else none
  | _ => none

/-- The characters behind a time of day. A minute may have 61 seconds. -/
def afterTime : List Char → Option (List Char)
  | h1 :: h2 :: ':' :: m1 :: m2 :: ':' :: s1 :: s2 :: r => do
    let _ ← twoDigits? h1 h2 0 23
    let _ ← twoDigits? m1 m2 0 59
    let _ ← twoDigits? s1 s2 0 60
    match r with
    | '.' :: r => if r.takeWhile Char.isDigit = [] then none else some (r.dropWhile Char.isDigit)
    | r => some r
  | _ => none

/-- Whether characters are the end of a date, or an offset from universal time. -/
def isOffset : List Char → Bool
  | [] => true
  | [c] => c = 'Z' || c = 'z'
  | [s, h1, h2, ':', m1, m2] =>
    (s = '+' || s = '-') && (twoDigits? h1 h2 0 23).isSome && (twoDigits? m1 m2 0 59).isSome
  | _ => false

def isTimeWithOffset (cs : List Char) : Bool :=
  match afterTime cs with
  | some r => isOffset r
  | none => false

/-- Whether a word is a date, a time, or both with a `T` between them. -/
def isDateTime (word : List Char) : Bool :=
  match afterDate word with
  | some [] => true
  | some (c :: r) => (c = 'T' || c = 't') && isTimeWithOffset r
  | none => afterTime word = some []

def isDate (word : List Char) : Bool := afterDate word = some []

end EchoLoad.Toml
