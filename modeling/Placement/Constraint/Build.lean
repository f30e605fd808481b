import Placement.Constraint.Basic
import Placement.Record.Fields

/-!
# Constraints from their descriptors

A descriptor is checked in a fixed order: its type, its scope, its properties. The properties are
read as the type demands and then checked by themselves.
-/

namespace Placement

structure ConstraintSpec where
  name : String
  kind : String
  demands : List String
  priority : Option Nat
  properties : Json

namespace ConstraintSpec

def shape : Record ConstraintSpec :=
  ((Record.required "name" Reader.string).and
    ((Record.required "type" Reader.string).and
      ((Record.required "demands" (Reader.list Reader.string)).and
        ((Record.withDefault "priority"
            (Reader.optional ((Reader.whole 0 (UInt32.size - 1 : Nat)).map Int.toNat)) none).and
          (Record.withDefault "properties" Reader.any .null))))).map
    fun (name, kind, demands, priority, properties) => { name, kind, demands, priority, properties }

def reader : Reader ConstraintSpec := shape.read

end ConstraintSpec

/-! ### Distance rules -/

namespace DistanceRule

/-- The compact form: a comparator, a number and perhaps a unit, separated by blanks. -/
def ofWords? (ws : List (List Char)) : Option DistanceRule :=
  match ws with
  | [c, v] => do
    let operator ← Comparator.parse? c
    let value ← Decimal.readFloat v
    return { value, operator, unit := .km }
  | [c, v, u] => do
    let operator ← Comparator.parse? c
    let value ← Decimal.readFloat v
    let unit ← DistanceUnit.parse? u
    return { value, operator, unit }
  | _ => none

def parse? (s : String) : Option DistanceRule := ofWords? (Text.words s.toList)

/-- The structured form. -/
def shape : Record DistanceRule :=
  ((Record.required "value" Reader.float).and
    ((Record.required "operator" Comparator.reader).and
      (Record.withDefault "unit" DistanceUnit.reader .km))).map
    fun (value, operator, unit) => { value, operator, unit }

/-- A bound that a distance can be compared with. -/
def isBounded (r : DistanceRule) : Bool := r.value.isFinite && !(r.value < 0.0)

end DistanceRule

/-- A distance as it stands in a descriptor. -/
inductive DistanceSpec where
  | structured (rule : DistanceRule)
  | compact (text : String)

/-- Either form; whatever is wrong with the structured one, it is no form at all. -/
def DistanceSpec.reader : Reader DistanceSpec := fun m d =>
  match d with
  | .string s => .ok (.compact s)
  | .object _ _ =>
    match DistanceRule.shape.read m d with
    | .ok r => .ok (.structured r)
    | .error _ => .error .noVariant
  | _ => .error .noVariant

/-! ### Properties -/

def Qualifier.ofName? (s : String) : Option Qualifier :=
  if s = "same" then some .same else if s = "different" then some .different else none

namespace Aggregate

def spellings : Aggregate → List String
  | sum => ["sum"]
  | min => ["min"]
  | max => ["max"]
  | average => ["average", "avg", "mean"]
  | first => ["first", "copy"]

def all : List Aggregate := [sum, min, max, average, first]

def ofName? (s : String) : Option Aggregate := all.find? fun a => a.spellings.contains s

def reader : Reader Aggregate := Reader.choice ofName?

end Aggregate

namespace AggregationRule

def shape : Record AggregationRule :=
  ((Record.required "attribute" Reader.string).and
    ((Record.required "function" Aggregate.reader).and
      ((Record.required "operator" Comparator.reader).and
        (Record.required "threshold" Reader.float)))).map
    fun (key, function, operator, threshold) => { key, function, operator, threshold }

end AggregationRule

/-- An object taken as it is. -/
def fieldsReader : Reader (Table Json) := Reader.table Reader.any

namespace Rule

def readProperties {α : Type} (r : Record α) (properties : Json) : Except ConstraintFlaw α :=
  (Reader.value r.read properties).mapError .badProperties

/-- The list under `evaluate`, which must not be empty. -/
def readEvaluate {α : Type} (r : Reader (List α)) (properties : Json) :
    Except ConstraintFlaw (List α) := do
  let evaluate ← readProperties (Record.required "evaluate" r) properties
  if evaluate.isEmpty then .error .emptyEvaluate else .ok evaluate

def readAttributes (properties : Json) : Except ConstraintFlaw Rule :=
  (readEvaluate fieldsReader properties).map attributes

def readThreshold (properties : Json) : Except ConstraintFlaw Rule := do
  let (key, bound, operator) ← readProperties
    ((Record.required "attribute" Reader.string).and
      ((Record.required "threshold" Reader.float).and
        (Record.required "operator" Comparator.reader))) properties
  if bound.isFinite then .ok (threshold key operator bound) else .error .infiniteThreshold

/-- The rule that a distance stands for. -/
def ofDistance (spec : DistanceSpec) : Except ConstraintFlaw DistanceRule :=
  match spec with
  | .structured r => .ok r
  | .compact text =>
    match DistanceRule.parse? text with
    | some r => .ok r
    | none => .error (.unreadableDistance text)

def readDistance (properties : Json) : Except ConstraintFlaw Rule := do
  let spec ← readProperties (Record.required "distance" DistanceSpec.reader) properties
  let rule ← ofDistance spec
  if rule.isBounded then .ok (distance rule) else .error .negativeDistance

def readAggregation (properties : Json) : Except ConstraintFlaw Rule :=
  (readEvaluate (Reader.list AggregationRule.shape.read) properties).map aggregation

def readHpa (properties : Json) : Except ConstraintFlaw Rule :=
  (readEvaluate (Reader.list HpaRequirement.reader) properties).map hpa

/-- The controller of the request, or else the one beside it. -/
def readVimFit (properties : Json) : Except ConstraintFlaw Rule := do
  let (controller, request) ← readProperties
    ((Record.withDefault "controller" (Reader.optional Reader.string) none).and
      (Record.required "request" CapacityRequest.reader)) properties
  if request.vcpus < 0.0 ∨ request.memory < 0.0 ∨ request.storage < 0.0 then
    .error .negativeCapacity
  else .ok (vimFit { request with controller := request.controller.or controller })

def readService (properties : Json) : Except ConstraintFlaw Rule := do
  let (controller, inventoryType, request, cost) ← readProperties
    ((Record.required "controller" Reader.string).and
      ((Record.required "inventory_type" Reader.string).and
        ((Record.withDefault "request" Reader.any .null).and
          (Record.withDefault "cost" Reader.float 0.0))))
    properties
  if controller = "" ∨ inventoryType = "" then .error .noController
  else .ok (service controller inventoryType request cost)

def readZone (properties : Json) : Except ConstraintFlaw Rule := do
  let (qualifier, category) ← readProperties
    ((Record.required "qualifier" (Reader.choice Qualifier.ofName?)).and
      (Record.required "category" Reader.string)) properties
  if category = "" then .error .emptyCategory else .ok (zone qualifier category)

/-- The rule of a kind from its properties. -/
def read : Kind → Json → Except ConstraintFlaw Rule
  | .attributes => readAttributes
  | .threshold => readThreshold
  | .distance => readDistance
  | .aggregation => readAggregation
  | .hpa => readHpa
  | .vimFit => readVimFit
  | .service => readService
  | .zone => readZone

end Rule

/-! ### Descriptors -/

namespace Constraint

/-- The scope is not empty, and names two demands where the kind compares demands. -/
def checkScope (kind : Kind) (demands : List String) : Except ConstraintFlaw Unit :=
  match demands with
  | [] => .error .noDemands
  | d :: ds =>
    if kind.comparesDemands && ds.all (· == d) then .error (.tooFewDemands kind.tag) else .ok ()

def build (spec : ConstraintSpec) : Except SolveError Constraint :=
  match Kind.ofTag? spec.kind with
  | none => .error (.unknownConstraintType spec.name spec.kind)
  | some kind =>
    match checkScope kind spec.demands *> Rule.read kind spec.properties with
    | .error flaw => .error (.invalidConstraint spec.name flaw)
    | .ok rule =>
      .ok
        { name := spec.name
          demands := spec.demands
          priority := spec.priority.getD kind.defaultPriority
          rule }

end Constraint

end Placement
