import Placement.Candidate
import Placement.Comparator
import Placement.Location

/-!
# Questions to the constraint engine

What a search may ask for beyond the candidate records, and the type of the answer to each question.
-/

namespace Placement

/-! ### Hardware platform requirements -/

structure FeatureAttribute where
  key : String
  value : Json
  operator : Comparator

/-- A hardware feature that the chosen flavor must or should have. -/
structure FlavorProperty where
  feature : String
  mandatory : Option Json
  architecture : Option String
  attributes : List FeatureAttribute

structure HpaRequirement where
  id : String
  kind : String
  directives : List Json
  flavorProperties : List FlavorProperty

namespace FeatureAttribute

def shape : Record FeatureAttribute :=
  ((Record.field "hpa-attribute-key" ["key"] Reader.string none).and
    ((Record.field "hpa-attribute-value" ["value"] Reader.any none).and
      (Record.withDefault "operator" Comparator.reader .eq))).map
    fun (key, value, operator) => { key, value, operator }

def toJson (a : FeatureAttribute) : Json :=
  .object [("hpa-attribute-key", .string a.key), ("hpa-attribute-value", a.value),
    ("operator", .string a.operator.name)]

end FeatureAttribute

namespace FlavorProperty

def shape : Record FlavorProperty :=
  ((Record.field "hpa-feature" ["feature"] Reader.string none).and
    ((Record.withDefault "mandatory" (Reader.optional Reader.any) none).and
      ((Record.withDefault "architecture" (Reader.optional Reader.string) none).and
        (Record.field "hpa-feature-attributes" ["attributes"]
          (Reader.list FeatureAttribute.shape.read)
          (some []))))).map
    fun (feature, mandatory, architecture, attributes) =>
      { feature, mandatory, architecture, attributes }

/-- A property is mandatory unless it says otherwise, by a truth value or in words. -/
def isMandatory (p : FlavorProperty) : Bool :=
  match p.mandatory with
  | some (.bool b) => b
  | some (.string s) => Text.sameAscii s "true"
  | _ => true

def toJson (p : FlavorProperty) : Json :=
  .object [("hpa-feature", .string p.feature), ("mandatory", p.mandatory.getD .null),
    ("architecture", (p.architecture.map .string).getD .null),
    ("hpa-feature-attributes", .array (p.attributes.map FeatureAttribute.toJson))]

end FlavorProperty

namespace HpaRequirement

def shape : Record HpaRequirement :=
  ((Record.required "id" Reader.string).and
    ((Record.required "type" Reader.string).and
      ((Record.withDefault "directives" (Reader.list Reader.any) []).and
        (Record.field "flavorProperties" ["flavor_properties"]
          (Reader.list FlavorProperty.shape.read)
          (some []))))).map
    fun (id, kind, directives, flavorProperties) => { id, kind, directives, flavorProperties }

def reader : Reader HpaRequirement := shape.read

def toJson (r : HpaRequirement) : Json :=
  .object [("id", .string r.id), ("type", .string r.kind), ("directives", .array r.directives),
    ("flavorProperties", .array (r.flavorProperties.map FlavorProperty.toJson))]

end HpaRequirement

/-! ### Capacity and services -/

/-- The capacity that must be free where the demand is placed. -/
structure CapacityRequest where
  controller : Option String
  vcpus : Float
  memory : Float
  storage : Float

namespace CapacityRequest

def shape : Record CapacityRequest :=
  ((Record.withDefault "controller" (Reader.optional Reader.string) none).and
    ((Record.field "vCPUs" ["vcpus"] Reader.float (some 0.0)).and
      ((Record.field "Memory" ["memory_mb"] Reader.float (some 0.0)).and
        (Record.field "Storage" ["storage_gb"] Reader.float (some 0.0))))).map
    fun (controller, vcpus, memory, storage) => { controller, vcpus, memory, storage }

def reader : Reader CapacityRequest := shape.read

end CapacityRequest

/-- A question to a service controller on behalf of a constraint and the demand under resolution. -/
structure ServiceLookup where
  constraint : String
  kind : String
  controller : String
  inventoryType : String
  request : Json
  cost : Float
  demand : String

/-! ### Questions and answers -/

inductive Query where
  /-- Which of the candidates have the attributes asked for. -/
  | attributes (demand : String) (evaluate : Table Json) (given : List Candidate)
  /-- Where the candidate is. -/
  | location (candidate : Candidate)
  /-- Which of the candidates meet the requirement, annotated with the flavor chosen. -/
  | hpa (requirement : HpaRequirement) (given : List Candidate)
  /-- Which of the candidates have the capacity free. -/
  | vim (request : CapacityRequest) (given : List Candidate)
  /-- Which of the candidates the controller can serve. -/
  | service (lookup : ServiceLookup) (given : List Candidate)

namespace Query

def Answer : Query → Type
  | attributes _ _ _ => List Candidate
  | location _ => Option Location
  | hpa _ _ => Option (List Candidate)
  | vim _ _ => Option (List Candidate)
  | service _ _ => Option (List Candidate)

/-- The candidates that the question is about. -/
def given : Query → List Candidate
  | attributes _ _ cs => cs
  | location c => [c]
  | hpa _ cs => cs
  | vim _ cs => cs
  | service _ cs => cs

end Query

/-- The kinds of question. -/
inductive Topic where
  | attributes
  | location
  | hpa
  | vim
  | service
  deriving DecidableEq, Repr

namespace Topic

def name : Topic → String
  | attributes => "attributes"
  | location => "location"
  | hpa => "hpa"
  | vim => "vim"
  | service => "service"

def all : List Topic := [attributes, location, hpa, vim, service]

def ofName? (s : String) : Option Topic := all.find? (·.name == s)

end Topic

def Query.topic : Query → Topic
  | attributes _ _ _ => .attributes
  | location _ => .location
  | hpa _ _ => .hpa
  | vim _ _ => .vim
  | service _ _ => .service

end Placement
