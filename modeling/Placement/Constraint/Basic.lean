import Placement.Engine.Query
import Placement.Path

/-!
# Constraints

A constraint narrows the candidates of the demands in its scope. Its rule says how; there are eight
kinds of rule.
-/

namespace Placement

/-! ### Kinds -/

inductive Kind where
  | attributes
  | threshold
  | distance
  | aggregation
  | hpa
  | vimFit
  | service
  | zone
  deriving DecidableEq, Repr

namespace Kind

def all : List Kind := [attributes, threshold, distance, aggregation, hpa, vimFit, service, zone]

def tag : Kind → String
  | attributes => "attribute"
  | threshold => "threshold"
  | distance => "distance_between_demands"
  | aggregation => "aggregation"
  | hpa => "hpa"
  | vimFit => "vim_fit"
  | service => "service"
  | zone => "zone"

/-- The tag and the other names of a kind. -/
def tags (k : Kind) : List String :=
  match k with
  | distance => [k.tag, "cloud_distance"]
  | aggregation => [k.tag, "cross_demand_attribute_aggregation"]
  | k => [k.tag]

def ofTag? (s : String) : Option Kind := all.find? fun k => k.tags.contains s

/-- The place in the order of application when a constraint does not set one. -/
def defaultPriority : Kind → Nat
  | vimFit => 1
  | hpa => 2
  | service => 3
  | attributes => 4
  | threshold => 5
  | zone => 6
  | distance => 7
  | aggregation => 8

/-- Kinds that compare the decisions for several demands. -/
def comparesDemands : Kind → Bool
  | distance => true
  | aggregation => true
  | zone => true
  | _ => false

end Kind

/-! ### Rules -/

/-- A comparison of a distance with a bound. -/
structure DistanceRule where
  value : Float
  operator : Comparator
  unit : DistanceUnit

inductive Qualifier where
  | same
  | different
  deriving DecidableEq, Repr

inductive Aggregate where
  | sum
  | min
  | max
  | average
  | first
  deriving DecidableEq, Repr

/-- A comparison of an aggregated attribute with a bound. -/
structure AggregationRule where
  key : String
  function : Aggregate
  operator : Comparator
  threshold : Float

inductive Rule where
  | attributes (evaluate : Table Json)
  | threshold (key : String) (operator : Comparator) (bound : Float)
  | distance (rule : DistanceRule)
  | aggregation (rules : List AggregationRule)
  | hpa (requirements : List HpaRequirement)
  | vimFit (request : CapacityRequest)
  | service (controller inventoryType : String) (request : Json) (cost : Float)
  | zone (qualifier : Qualifier) (category : String)

def Rule.kind : Rule → Kind
  | attributes _ => .attributes
  | threshold _ _ _ => .threshold
  | distance _ => .distance
  | aggregation _ => .aggregation
  | hpa _ => .hpa
  | vimFit _ => .vimFit
  | service _ _ _ _ => .service
  | zone _ _ => .zone

structure Constraint where
  name : String
  demands : List String
  priority : Nat
  rule : Rule

namespace Constraint

def kind (c : Constraint) : Kind := c.rule.kind

def appliesTo (c : Constraint) (demand : String) : Bool := c.demands.contains demand

/-- The other demands in scope that are committed, each with its candidate, in the order of the
scope. -/
def decidedSiblings (c : Constraint) (p : Path) : List (String × Candidate) :=
  (c.demands.filter fun d => some d != p.current).filterMap fun d =>
    (p.decided d).map fun x => (d, x)

end Constraint

end Placement
