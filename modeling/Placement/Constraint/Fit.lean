import Placement.Constraint.Basic
import Placement.Decimal.Numeral

/-!
# When a candidate fits a rule

The tests on records behind the rules: a threshold on an attribute, zones that agree or differ, an
aggregate within its bound, a distance between known places.
-/

namespace Placement

/-- The number under a key stands in a relation to a bound. -/
def Candidate.meetsThreshold (c : Candidate) (key : String) (operator : Comparator)
    (bound : Float) : Bool :=
  match c.number? key with
  | some x => operator.holds x bound
  | none => false

/-- The zone of a candidate fits beside the zone of a sibling, which may have none. -/
def Qualifier.fits (q : Qualifier) (zone : String) (sibling : Option String) : Bool :=
  match q with
  | .same => sibling == some zone
  | .different => sibling != some zone

/-- The candidate has a zone, and it fits beside every sibling's. -/
def Candidate.fitsZones (c : Candidate) (q : Qualifier) (category : String)
    (siblings : List Candidate) : Bool :=
  match c.text? category with
  | some zone => siblings.all fun s => q.fits zone (s.text? category)
  | none => false

/-! ### Aggregation -/

/-- The aggregate of some values; of none there is none. -/
def Aggregate.apply (a : Aggregate) (xs : List Float) : Option Float :=
  match xs with
  | [] => none
  | x :: _ =>
    some (match a with
      | sum => Folds.sum xs
      | min => Folds.least xs
      | max => Folds.greatest xs
      | average => Folds.average xs
      | first => x)

/-- The numbers under a key, if every candidate has one. -/
def numbersOf? (key : String) : List Candidate → Option (List Float)
  | [] => some []
  | c :: cs => do
    let x ← c.number? key
    let xs ← numbersOf? key cs
    return x :: xs

/-- All members have the number aggregated, and the aggregate is within its bound. -/
def AggregationRule.accepts (r : AggregationRule) (members : List Candidate) : Bool :=
  match (numbersOf? r.key members).bind r.function.apply with
  | some x => r.operator.holds x r.threshold
  | none => false

/-! ### Distance -/

/-- The distance rule holds between a place and every other one. -/
def DistanceRule.fits (r : DistanceRule) (place : Location) (others : List Location) : Bool :=
  others.all fun o => r.operator.holds (r.unit.distance place o) r.value

end Placement
