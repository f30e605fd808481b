import Placement.Text.Words

/-!
# Decimal numerals

A numeral is a sign, a whole mantissa and a power of ten. `Numeral.toFloat` is the double nearest to
it, and `readFloat` accepts the free spelling of numbers in records: an optional sign, digits with
at most one point, and an optional exponent. `scaledFloat` is a quick way to read a decimal number:
as many leading digits as fit in 64 bits make a whole number, which one multiplication or division
by a power of ten brings to size. Each of these steps rounds, so for long numerals the result may be
a neighbour of the nearest double.

Doubles are added and multiplied from left to right. A sum starts from minus zero, which is neutral
for every double, and a product from one. Extremes start from the infinities and pass over NaN.
-/

namespace Placement

namespace Decimal

def infinity : Float := 1.0 / 0.0

def notANumber : Float := 0.0 / 0.0

/-- The number `± mantissa · 10 ^ exponent`. -/
structure Numeral where
  negative : Bool
  mantissa : Nat
  exponent : Int
  deriving DecidableEq, Repr

/-- The double nearest to `m · 10 ^ e`; exponents far out of the range of doubles are decided
without the power. -/
def nearest (m : Nat) (e : Int) : Float :=
  if m = 0 then 0.0
  else if 400 < e then infinity
  else if e < -(400 + (Nat.log2 m : Int)) then 0.0
  else Float.ofScientific m (decide (e < 0)) e.natAbs

def Numeral.toFloat (n : Numeral) : Float :=
  if n.negative then -(nearest n.mantissa n.exponent) else nearest n.mantissa n.exponent

/-! ### Digits -/

def digitValue (c : Char) : Nat := c.toNat - '0'.toNat

/-- The value of a hexadecimal digit, in either case. -/
def hexValue? (c : Char) : Option Nat :=
  if c.isDigit then some (digitValue c)
  else if 'a' ≤ c ∧ c ≤ 'f' then some (c.toNat - 'a'.toNat + 10)
  else if 'A' ≤ c ∧ c ≤ 'F' then some (c.toNat - 'A'.toNat + 10)
  else none

/-- The number that a word of digits denotes, continuing from `start`. -/
def digitsValue (start : Nat) (ds : List Char) : Nat :=
  ds.foldl (fun n c => 10 * n + digitValue c) start

/-- The leading digits and what follows them. -/
def spanDigits (cs : List Char) : List Char × List Char :=
  (cs.takeWhile Char.isDigit, cs.dropWhile Char.isDigit)

/-! ### The free spelling -/

/-- An optional sign; `true` is minus. -/
def readSign : List Char → Bool × List Char
  | '-' :: cs => (true, cs)
  | '+' :: cs => (false, cs)
  | cs => (false, cs)

/-- The exponent behind an `e`, which is the rest of the text; nothing at all is the exponent
zero. -/
def readExponent : List Char → Option Int
  | [] => some 0
  | c :: cs =>
    if c = 'e' ∨ c = 'E' then
      match readSign cs with
      | (minus, ds) =>
        if ds ≠ [] ∧ ds.all Char.isDigit then
          some (if minus then -(digitsValue 0 ds : Int) else digitsValue 0 ds)
        else none
    else none

/-- A numeral without sign: digits before or behind the point, at least one in all. -/
def readUnsigned (cs : List Char) : Option (Nat × Int) :=
  match spanDigits cs with
  | (whole, rest) =>
    match (match rest with
      | '.' :: behind => spanDigits behind
      | _ => ([], rest)) with
    | (fraction, tail) =>
      if whole = [] ∧ fraction = [] then none
      else (readExponent tail).map fun e =>
        (digitsValue (digitsValue 0 whole) fraction, e - fraction.length)

/-- The double that a text spells: a numeral, `inf`, `infinity` or `nan`, the words in any letter
case. -/
def readFloat (cs : List Char) : Option Float :=
  match readSign cs with
  | (minus, body) =>
    if Text.sameAscii (String.ofList body) "nan" then some notANumber
    else if Text.sameAscii (String.ofList body) "inf" ∨
        Text.sameAscii (String.ofList body) "infinity" then
      some (if minus then -infinity else infinity)
    else (readUnsigned body).map fun (m, e) => Numeral.toFloat ⟨minus, m, e⟩

/-- The double that a text spells, blanks around it aside. -/
def ofText (s : String) : Option Float :=
  readFloat (Text.trimmed s.toList)

/-! ### Scaled readings -/

/-- The number that `m` and as many of the digits as still fit in 64 bits denote, and the digits
left over. -/
def absorb (m : Nat) : List Char → Nat × List Char
  | [] => (m, [])
  | d :: ds =>
    let next := 10 * m + digitValue d
    if next < UInt64.size then absorb next ds else (m, d :: ds)

/-- The decimal exponents of doubles end here. -/
def exponentLimit : Nat := 308

def powerOfTen (k : Nat) : Float := Float.ofScientific 1 false k

/-- A number of 64 bits times a power of ten. -/
def scaled (m : Nat) (e : Int) : Float :=
  let x := (UInt64.ofNat m).toFloat
  if m = 0 then x
  else if 0 ≤ e then if e ≤ exponentLimit then x * powerOfTen e.toNat else infinity
  else if e.natAbs ≤ exponentLimit then x / powerOfTen e.natAbs
  else if e.natAbs ≤ 2 * exponentLimit then
    x / powerOfTen exponentLimit / powerOfTen (e.natAbs - exponentLimit)
  else 0.0

/-- The double for the digits before and behind the point and an exponent. -/
def scaledFloat (minus : Bool) (whole fraction : List Char) (exponent : Int) : Float :=
  let (m, left) := absorb 0 whole
  let (m, left') := absorb m fraction
  let x := scaled m (exponent + left.length - (fraction.length - left'.length : Nat))
  if minus then -x else x

end Decimal

/-! ### Sums, products and extremes -/

namespace Folds

def negativeZero : Float := -0.0

def sum (xs : List Float) : Float := xs.foldl (· + ·) negativeZero

def product (xs : List Float) : Float := xs.foldl (· * ·) 1.0

def average (xs : List Float) : Float := sum xs / Float.ofNat xs.length

/-- The lesser of two numbers; if one is NaN, the other. -/
def lesser (x y : Float) : Float :=
  if x.isNaN then y else if y.isNaN then x else if y < x then y else x

/-- The greater of two numbers; if one is NaN, the other. -/
def greater (x y : Float) : Float :=
  if x.isNaN then y else if y.isNaN then x else if x < y then y else x

def least (xs : List Float) : Float := xs.foldl lesser Decimal.infinity

def greatest (xs : List Float) : Float := xs.foldl greater (-Decimal.infinity)

end Folds

end Placement
