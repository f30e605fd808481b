import Placement.Decimal.Shortest

/-!
# Layouts of a number

A layout says how the shortest digits of a double are set down. Two are in use: the one of data
files, which keeps doubles apart from whole numbers and has an exponent for the very large and the
very small, and the one of messages, which is always positional.
-/

namespace Placement.Decimal

structure Layout where
  /-- The point positions `lo < p ≤ hi` that are written positionally; all of them if absent. -/
  positional : Option (Int × Int)
  /-- A whole number ends in `.0`. -/
  keepsFraction : Bool
  tie : Tie
  deriving DecidableEq, Repr

/-- Data files: positional from `0.00001` to below `10 ^ 16`, and never without a fraction. -/
def Layout.data : Layout := ⟨some (-5, 16), true, .even⟩

/-- Messages: positional throughout, and whole numbers without a fraction. -/
def Layout.message : Layout := ⟨none, false, .up⟩

/-- A whole number. -/
def wholeText (i : Int) : String :=
  String.ofList (if i < 0 then '-' :: Nat.toDigits 10 i.natAbs else Nat.toDigits 10 i.natAbs)

/-- Digits with the point behind the first `p` of them, filled up with zeros on either side. -/
def positionalText (keepsFraction : Bool) (ds : List Char) (p : Int) : List Char :=
  if p ≤ 0 then ['0', '.'] ++ List.replicate (-p).toNat '0' ++ ds
  else
    let n := p.toNat
    if ds.length ≤ n then
      ds ++ List.replicate (n - ds.length) '0' ++ (if keepsFraction then ['.', '0'] else [])
    else ds.take n ++ '.' :: ds.drop n

/-- One digit, the others behind a point, and the exponent with its sign. -/
def exponentText (ds : List Char) (p : Int) : List Char :=
  let fraction := ds.drop 1
  let e := p - 1
  ds.take 1 ++ (if fraction = [] then [] else '.' :: fraction) ++
    ['e', if e < 0 then '-' else '+'] ++ Nat.toDigits 10 e.natAbs

def Layout.isPositional (l : Layout) (p : Int) : Bool :=
  match l.positional with
  | none => true
  | some (lo, hi) => lo < p && p ≤ hi

/-- The text of a finite magnitude. -/
def Layout.magnitude (l : Layout) (x : Float) : List Char :=
  if x == 0.0 then if l.keepsFraction then ['0', '.', '0'] else ['0']
  else
    let (d, k) := (Binary.ofFloat x).shortest l.tie
    let ds := Nat.toDigits 10 d
    let p := k + ds.length
    if l.isPositional p then positionalText l.keepsFraction ds p else exponentText ds p

/-- The sign bit of a double. -/
def isNegative (x : Float) : Bool := Nat.pow 2 63 ≤ x.toBits.toNat

def Layout.render (l : Layout) (x : Float) : String :=
  if x.isNaN then "NaN"
  else
    let body := if x.isInf then ['i', 'n', 'f'] else l.magnitude x
    String.ofList (if isNegative x then '-' :: body else body)

end Placement.Decimal
