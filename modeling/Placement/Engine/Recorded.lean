import Placement.Engine.Consult

/-!
# Answers from the records

The engine that knows no more than the candidate records say, never fails and has no state.

* attributes: equality, or membership where an array is expected
* location: `latitude` and `longitude`
* hardware: `flavors`, an object of flavors by name
* capacity: `vim_capacity` with `vcpus`, `memory_mb` and `storage_gb`
* service: `service_controllers`, an array of controller names
-/

namespace Placement

namespace Recorded

/-! ### Attributes -/

/-- The value is loosely the expected one, or one of those expected. -/
def meets (expected value : Json) : Bool :=
  match expected with
  | .array options => options.any fun o => value.looseEq o
  | expected => value.looseEq expected

/-- The candidate has every attribute asked for. -/
def hasAttributes (evaluate : Table Json) (c : Candidate) : Bool :=
  evaluate.all fun (key, expected) =>
    match c.attribute? key with
    | none => false
    | some value => meets expected value

/-! ### Location -/

def location? (c : Candidate) : Option Location :=
  match c.number? "latitude", c.number? "longitude" with
  | some latitude, some longitude => (Location.check ⟨latitude, longitude⟩).toOption
  | _, _ => none

/-! ### Hardware -/

/-- The flavor has what a property asks for. -/
def flavorHas (flavor : Table Json) (p : FlavorProperty) : Bool :=
  (match p.architecture, Table.get? flavor "architecture" with
    | none, _ => true
    | some want, some value => value.looseEq (.string want)
    | some _, none => false) &&
  p.attributes.all fun a =>
    match Table.get? flavor a.key with
    | none => false
    | some value => a.operator.holdsValue value a.value

/-- The flavor has all mandatory properties of a requirement. -/
def flavorMeets (r : HpaRequirement) (flavor : Table Json) : Bool :=
  (r.flavorProperties.filter FlavorProperty.isMandatory).all (flavorHas flavor)

def isMatch (r : HpaRequirement) (flavor : Json) : Bool :=
  match flavor with
  | .object f => flavorMeets r f
  | _ => false

/-- The first flavor, in the order of names, that meets the requirement. -/
def flavor? (r : HpaRequirement) (c : Candidate) : Option String :=
  match Table.get? c.attributes "flavors" with
  | some (.object flavors) => (flavors.find? fun f => isMatch r f.2).map Prod.fst
  | _ => none

/-- What is recorded about a flavor chosen for a requirement. -/
def directive (r : HpaRequirement) (flavor : String) : Json :=
  .object [("vnfc_directives",
    .array [.object [("directives", .array r.directives), ("flavor", .string flavor),
      ("id", .string r.id), ("type", .string r.kind)]])]

/-- The attributes with the flavor entered in the flavor map; a map of another shape is left
alone. -/
def enterFlavor (r : HpaRequirement) (flavor : String) (attributes : Table Json) : Table Json :=
  match Table.get? attributes "flavor_map" with
  | none => Table.put attributes "flavor_map" (.object [(r.id, .string flavor)])
  | some (.object m) =>
    Table.put attributes "flavor_map" (.object (Table.put m r.id (.string flavor)))
  | some _ => attributes

/-- The attributes with the directive appended to the directives; a list of another shape is left
alone. -/
def appendDirective (r : HpaRequirement) (flavor : String) (attributes : Table Json) : Table Json :=
  match Table.get? attributes "all_directives" with
  | none => Table.put attributes "all_directives" (.array [directive r flavor])
  | some (.array ds) => Table.put attributes "all_directives" (.array (ds ++ [directive r flavor]))
  | some _ => attributes

/-- The candidate with the flavor chosen for a requirement. -/
def annotate (r : HpaRequirement) (flavor : String) (c : Candidate) : Candidate :=
  { c with attributes := appendDirective r flavor (enterFlavor r flavor c.attributes) }

/-- The candidates that meet the requirement, annotated. -/
def withHpa (r : HpaRequirement) (given : List Candidate) : List Candidate :=
  given.filterMap fun c => (flavor? r c).map fun flavor => annotate r flavor c

/-! ### Capacity and services -/

def hasFree (free : Table Json) (key : String) (want : Float) : Bool :=
  match (Table.get? free key).bind Json.number? with
  | none => false
  | some x => x ≥ want

def hasCapacity (request : CapacityRequest) (c : Candidate) : Bool :=
  match Table.get? c.attributes "vim_capacity" with
  | some (.object free) =>
    hasFree free "vcpus" request.vcpus && hasFree free "memory_mb" request.memory &&
      hasFree free "storage_gb" request.storage
  | _ => false

def isController (controller : String) : Json → Bool
  | .string s => s == controller
  | _ => false

def isServedBy (controller : String) (c : Candidate) : Bool :=
  match Table.get? c.attributes "service_controllers" with
  | some (.array controllers) => controllers.any (isController controller)
  | _ => false

/-! ### Answers -/

/-- A list as an answer: none of the candidates is no match. -/
def matched (cs : List Candidate) : Option (List Candidate) :=
  if cs.isEmpty then none else some cs

def answer : (q : Query) → q.Answer
  | .attributes _ evaluate given => given.filter (hasAttributes evaluate)
  | .location c => location? c
  | .hpa r given => matched (withHpa r given)
  | .vim request given => matched (given.filter (hasCapacity request))
  | .service lookup given => matched (given.filter (isServedBy lookup.controller))

end Recorded

/-- The engine that answers every question from the records. -/
def Engine.recorded : Engine Unit := Engine.ofResponses fun q => .ok (Recorded.answer q)

end Placement
