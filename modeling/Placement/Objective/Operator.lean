import Placement.Decimal.Numeral
import Placement.Record.Fields

/-!
# Operators, goals and scales

The arithmetic of an objective: how a node reduces the values of its operands, how an operand's
value is rescaled, and which of two scores is the better one.
-/

namespace Placement

/-! ### Operators -/

inductive Operator where
  | sum
  | min
  | max
  | product
  | average
  deriving DecidableEq, Repr

namespace Operator

def all : List Operator := [sum, min, max, product, average]

def spellings : Operator → List String
  | sum => ["sum"]
  | min => ["min"]
  | max => ["max"]
  | product => ["product", "multiply"]
  | average => ["average", "avg"]

def ofName? (s : String) : Option Operator := all.find? fun o => o.spellings.contains s

def reduce (o : Operator) (xs : List Float) : Float :=
  match o with
  | sum => Folds.sum xs
  | min => Folds.least xs
  | max => Folds.greatest xs
  | product => Folds.product xs
  | average => Folds.average xs

/-- The reduction of some values; without values there is none. -/
def reduce? (o : Operator) (xs : List Float) : Option Float :=
  match xs with
  | [] => none
  | x :: xs => some (o.reduce (x :: xs))

end Operator

/-! ### Goals -/

inductive Goal where
  | minimize
  | maximize
  deriving DecidableEq, Repr

namespace Goal

def name : Goal → String
  | minimize => "minimize"
  | maximize => "maximize"

def ofName? (s : String) : Option Goal :=
  if s = "minimize" ∨ s = "min" then some minimize
  else if s = "maximize" ∨ s = "max" then some maximize
  else none

def reader : Reader Goal := Reader.choice ofName?

/-- The first score is strictly better than the second; a NaN is neither better nor worse than
anything. -/
def isBetter (g : Goal) (score other : Float) : Bool :=
  match g with
  | minimize => score < other
  | maximize => score > other

end Goal

/-! ### Scales -/

/-- A range of values that is mapped linearly to the range from zero to one; values outside it are
not clamped. -/
structure Normalization where
  start : Float
  stop : Float

namespace Normalization

def apply (n : Normalization) (x : Float) : Float := (x - n.start) / (n.stop - n.start)

/-- The bounds are finite and differ. -/
def isProper (n : Normalization) : Bool :=
  n.start.isFinite && n.stop.isFinite && !(n.start == n.stop)

def shape : Record Normalization :=
  ((Record.required "start" Reader.float).and (Record.required "end" Reader.float)).map
    fun (start, stop) => { start, stop }

end Normalization

/-- How the value of an operand enters the reduction: normalized first, then weighted. -/
structure Scale where
  normalization : Option Normalization := none
  weight : Option Float := none

namespace Scale

def apply (s : Scale) (x : Float) : Float :=
  let y := match s.normalization with
    | some n => n.apply x
    | none => x
  match s.weight with
  | some w => y * w
  | none => y

end Scale

end Placement
