import Placement.Decimal.Layout
import Placement.Decimal.Numeral
import Placement.Table

/-!
# JSON values

A number is a whole number of at most 64 bits or a double, and the two stay apart: `1` and `1.0` are
different values. The fields of an object stand in ascending order of their keys; texts and printed
records may keep another order.

Inventories write numbers as numbers or as text. `number?` reads both, `text?` renders what has a
text, and `looseEq` compares two values as numbers if both read as numbers and by their texts
otherwise.
-/

namespace Placement

inductive Number where
  | int (i : Int)
  | real (x : Float)

namespace Number

def toFloat : Number → Float
  | .int i => Float.ofInt i
  | .real x => x

/-- A whole number without a point, a double always with one or with an exponent. -/
def text : Number → String
  | .int i => Decimal.wholeText i
  | .real x => Decimal.Layout.data.render x

end Number

inductive Json where
  | null
  | bool (b : Bool)
  | number (n : Number)
  | string (s : String)
  | array (items : List Json)
  | object (fields : List (String × Json))

namespace Json

instance : Inhabited Json := ⟨.null⟩

def real (x : Float) : Json := .number (.real x)

def int (i : Int) : Json := .number (.int i)

/-! ### Loose readings -/

/-- The number that a value is or spells. -/
def number? : Json → Option Float
  | .number n => some n.toFloat
  | .string s => Decimal.ofText s
  | _ => none

/-- The text of a string, a number or a truth value; the other values have none. -/
def text? : Json → Option String
  | .string s => some s
  | .number n => some n.text
  | .bool b => some (if b then "true" else "false")
  | _ => none

/-- Equality up to the spelling of numbers. Two values without a text are not told apart. -/
def looseEq (a b : Json) : Bool :=
  match a.number?, b.number? with
  | some x, some y => x == y
  | _, _ => a.text? == b.text?

end Json

end Placement
