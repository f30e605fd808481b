import Placement.Error
import Placement.Json.Basic
import Placement.Record.Fields

/-!
# Candidates and demands

A candidate is a resource that can satisfy a demand: four identity fields and whatever else its
inventory reports. A demand is a slot of a plan with its pool of candidates.
-/

namespace Placement

structure Candidate where
  id : String
  provider : String
  inventoryType : String
  cost : Float
  attributes : Table Json

namespace Candidate

instance : Inhabited Candidate := ⟨⟨"", "", "", 0.0, []⟩⟩

/-! ### Records -/

def shape : Record (String × String × String × Float) :=
  (Record.required "candidate_id" Reader.string).and
    ((Record.required "inventory_provider" Reader.string).and
      ((Record.required "inventory_type" Reader.string).and (Record.required "cost" Reader.float)))

/-- A candidate is an object: the identity fields, and every other field as an attribute. -/
def reader : Reader Candidate :=
  shape.readOpen.map fun ((id, provider, inventoryType, cost), attributes) =>
    { id, provider, inventoryType, cost, attributes }

/-- The fields of a candidate's record, the identity fields first. -/
def fields (c : Candidate) : List (String × Json) :=
  ("candidate_id", .string c.id) :: ("inventory_provider", .string c.provider) ::
    ("inventory_type", .string c.inventoryType) :: ("cost", .real c.cost) :: c.attributes

/-- The record as a value, with all fields in the order of their names. -/
def toJson (c : Candidate) : Json := .object (Table.ofList c.fields)

/-! ### Attributes -/

/-- An attribute by name, the identity fields included; a cost that is not finite is no value. -/
def attribute? (c : Candidate) (key : String) : Option Json :=
  if key = "candidate_id" then some (.string c.id)
  else if key = "inventory_provider" then some (.string c.provider)
  else if key = "inventory_type" then some (.string c.inventoryType)
  else if key = "cost" then if c.cost.isFinite then some (.real c.cost) else none
  else Table.get? c.attributes key

def number? (c : Candidate) (key : String) : Option Float := (c.attribute? key).bind Json.number?

def text? (c : Candidate) (key : String) : Option String := (c.attribute? key).bind Json.text?

/-- The number under a key, telling a missing attribute from one that is no number. -/
def requireNumber (c : Candidate) (key : String) : Except RecordError Float :=
  match c.attribute? key with
  | none => .error (.missingAttribute c.id key)
  | some value =>
    match value.number? with
    | none => .error (.notNumeric c.id key)
    | some x => .ok x

/-- The first candidate with an id. -/
def find? (pool : List Candidate) (id : String) : Option Candidate := pool.find? (·.id == id)

end Candidate

structure Demand where
  name : String
  candidates : List Candidate
  sortKey : Int

namespace Demand

def shape : Record Demand :=
  ((Record.required "name" Reader.string).and
    ((Record.required "candidates" (Reader.list Candidate.reader)).and
      (Record.withDefault "sort_key"
        (Reader.whole Int64.minValue.toInt Int64.maxValue.toInt) 0))).map
    fun (name, candidates, sortKey) => { name, candidates, sortKey }

def reader : Reader Demand := shape.read

/-- The candidates whose id has not been seen before, of one id the first. -/
def firstById : List String → List Candidate → List Candidate
  | _, [] => []
  | seen, c :: cs => if c.id ∈ seen then firstById seen cs else c :: firstById (c.id :: seen) cs

/-- The demand with one candidate for each id. -/
def cleaned (d : Demand) : Demand := { d with candidates := firstById [] d.candidates }

end Demand

end Placement
