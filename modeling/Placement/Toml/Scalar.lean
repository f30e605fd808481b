import Placement.Toml.Basic
import Placement.Toml.Quoted

/-!
# TOML scalars

Values without brackets: strings, moments, truth values, whole numbers of 64 bits, and doubles.
-/

namespace Placement

namespace Toml

/-! ### Digits -/

/-- Digits without the underscores between them; `after` says that a digit goes before. -/
def ungroupedFrom (isDigit : Char → Bool) (after : Bool) : List Char → Option (List Char)
  | [] => if after then some [] else none
  | c :: cs =>
    if c = '_' then if after then ungroupedFrom isDigit false cs else none
    else if isDigit c then (ungroupedFrom isDigit true cs).map (c :: ·)
    else none

/-- Decimal digits. -/
def digits? (cs : List Char) : Option (List Char) := ungroupedFrom Char.isDigit false cs

/-- Decimal digits without a needless zero in front. -/
def wholeDigits? (cs : List Char) : Option (List Char) :=
  match digits? cs with
  | some ('0' :: _ :: _) => none
  | ds => ds

/-! ### Whole numbers -/

def word? (i : Int) : Option Int64 :=
  if Int64.minValue.toInt ≤ i ∧ i ≤ Int64.maxValue.toInt then some (Int64.ofInt i) else none

/-- The base that a letter behind a zero announces. -/
def base? (c : Char) : Option Nat :=
  match c with
  | 'x' => some 16
  | 'o' => some 8
  | 'b' => some 2
  | _ => none

def isDigitOf (base : Nat) (c : Char) : Bool :=
  match Decimal.hexValue? c with
  | some v => v < base
  | none => false

/-- A whole number in another base than ten. -/
def basedInteger? (cs : List Char) : Option Int64 :=
  match cs with
  | '0' :: c :: cs => do
    let base ← base? c
    let ds ← ungroupedFrom (isDigitOf base) false cs
    word? (ds.foldl (fun n d => base * n + (Decimal.hexValue? d).getD 0) 0 : Nat)
  | _ => none

def decimalInteger? (cs : List Char) : Option Int64 :=
  match Decimal.readSign cs with
  | (minus, body) => do
    let ds ← wholeDigits? body
    let n := Decimal.digitsValue 0 ds
    word? (if minus then -(n : Int) else n)

def integer? (cs : List Char) : Option Int64 := (decimalInteger? cs).or (basedInteger? cs)

/-! ### Doubles -/

/-- The exponent of a decimal number: a sign and digits. -/
def isExponent (cs : List Char) : Bool := (digits? (Decimal.readSign cs).2).isSome

/-- Whole digits, then a point with digits behind it or an exponent or both. -/
def isReal (cs : List Char) : Bool :=
  let isMark c := c == 'e' || c == 'E'
  let mantissa := cs.takeWhile fun c => !isMark c
  let exponent := (cs.dropWhile fun c => !isMark c).drop 1
  let hasExponent := cs.any isMark
  let whole := mantissa.takeWhile (· != '.')
  let fraction := (mantissa.dropWhile (· != '.')).drop 1
  let hasPoint := mantissa.contains '.'
  (wholeDigits? whole).isSome && (hasPoint || hasExponent) &&
    (!hasPoint || (digits? fraction).isSome) && (!hasExponent || isExponent exponent)

/-- A double; digits may spell minus infinity, but not infinity. -/
def real? (cs : List Char) : Option Float :=
  match Decimal.readSign cs with
  | (minus, body) =>
    if body = ['n', 'a', 'n'] then some Decimal.notANumber
    else if body = ['i', 'n', 'f'] then some (if minus then -Decimal.infinity else Decimal.infinity)
    else if isReal body then
      (Decimal.readFloat (cs.filter (· != '_'))).filter (· != Decimal.infinity)
    else none

/-! ### Values -/

def isTokenEnd (c : Char) : Bool :=
  isGap c || c == '\n' || c == '\r' || c == ',' || c == ']' || c == '\x7d' || c == '#'

/-- A value that is a single word. -/
def token? (cs : List Char) : Option Toml :=
  if cs = ['t', 'r', 'u', 'e'] then some (.bool true)
  else if cs = ['f', 'a', 'l', 's', 'e'] then some (.bool false)
  else ((integer? cs).map integer).or ((real? cs).map real)

/-- A value without brackets, and what follows it. -/
def scalar? (cs : List Char) : Option (Toml × List Char) :=
  match cs with
  | '"' :: _ => (quoted? cs).map fun (s, rest) => (string (String.ofList s), rest)
  | '\'' :: _ => (quoted? cs).map fun (s, rest) => (string (String.ofList s), rest)
  | cs =>
    match Moment.ofChars? cs with
    | some (m, rest) => some (moment m, rest)
    | none =>
      (token? (cs.takeWhile fun c => !isTokenEnd c)).map fun v =>
        (v, cs.dropWhile fun c => !isTokenEnd c)

end Toml

end Placement
