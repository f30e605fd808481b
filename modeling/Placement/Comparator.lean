import Placement.Json.Basic
import Placement.Record.Reader
import Placement.Text.Words

/-!
# Comparators

The five comparisons of a value with a threshold, on numbers and on any two JSON values.
-/

namespace Placement

inductive Comparator where
  | gte
  | lte
  | gt
  | lt
  | eq
  deriving DecidableEq, Repr

namespace Comparator

def name : Comparator → String
  | gte => "gte"
  | lte => "lte"
  | gt => "gt"
  | lt => "lt"
  | eq => "eq"

def symbol : Comparator → String
  | gte => ">="
  | lte => "<="
  | gt => ">"
  | lt => "<"
  | eq => "=="

def all : List Comparator := [gte, lte, gt, lt, eq]

/-- All spellings: the name, the symbol, and a single equality sign. -/
def spellings (c : Comparator) : List String :=
  match c with
  | eq => ["eq", "=", "=="]
  | c => [c.name, c.symbol]

/-- A spelling exactly as it is listed. -/
def ofName? (s : String) : Option Comparator :=
  all.find? fun c => c.spellings.contains s

/-- A spelling in any letter case, blanks around it aside. -/
def parse? (cs : List Char) : Option Comparator :=
  all.find? fun c => c.spellings.any (Text.spells (Text.trimmed cs))

def reader : Reader Comparator := Reader.choice ofName?

/-- `value` stands in the relation to `threshold`; a NaN stands in none. -/
def holds (c : Comparator) (value threshold : Float) : Bool :=
  match c with
  | gte => value ≥ threshold
  | lte => value ≤ threshold
  | gt => value > threshold
  | lt => value < threshold
  | eq => value == threshold

/-- Two values that both read as numbers are compared as numbers; of any others only equality can
hold, of their texts. -/
def holdsValue (c : Comparator) (value threshold : Json) : Bool :=
  match value.number?, threshold.number? with
  | some v, some t => c.holds v t
  | _, _ => c == eq && value.text? == threshold.text?

end Comparator

end Placement
