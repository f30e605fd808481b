import Placement.Engine.Consult
import Placement.Decimal.Numeral
import Placement.Path

/-!
# Measures

The functions at the leaves of an objective. A measure binds its parameters to arguments, against
the decisions of a path and the plan's locations and weights, and computes a number from the
arguments.
-/

namespace Placement

/-! ### Parameters -/

structure Params where
  demand : Option String := none
  demands : List String := []
  location : Option String := none
  key : Option String := none

namespace Params

def shape : Record Params :=
  ((Record.withDefault "demand" (Reader.optional Reader.string) none).and
    ((Record.withDefault "demands" (Reader.list Reader.string) []).and
      ((Record.withDefault "location" (Reader.optional Reader.string) none).and
        (Record.withDefault "attribute" (Reader.optional Reader.string) none)))).map
    fun (demand, demands, location, key) => { demand, demands, location, key }

/-- The demands that a leaf reads, in the order of binding. -/
def referenced (ps : Params) : List String := ps.demand.toList ++ ps.demands

/-- Every demand referenced is decided or assumed. -/
def isActive (ps : Params) (p : Path) : Bool := ps.referenced.all fun d => (p.decision? d).isSome

end Params

inductive Argument where
  | candidate (c : Candidate)
  | location (l : Location)
  | number (x : Float)
  | text (s : String)

/-- The places and weights that a plan brings along. -/
structure Atlas where
  locations : Table Location := []
  latencyWeights : Table Float := []

namespace Atlas

def location (a : Atlas) (name : String) : Except SolveError Location :=
  match Table.get? a.locations name with
  | some l => .ok l
  | none => .error (.unknownLocation name)

/-- The largest weight, and no less than zero. -/
def worstLatency (a : Atlas) : Float := (a.latencyWeights.map Prod.snd).foldl Folds.greater 0.0

/-- The weight of a candidate's country; a candidate without a listed country has the worst
weight. -/
def latency (a : Atlas) (c : Candidate) : Float :=
  ((c.text? "country").bind (Table.get? a.latencyWeights)).getD a.worstLatency

end Atlas

/-! ### Measures -/

inductive Measure where
  /-- The great-circle distance in kilometres between two demands or a demand and a named
  location. -/
  | distance
  /-- The latency weight of a demand's candidate. -/
  | latency
  /-- A numeric attribute of a demand's candidate. -/
  | field
  | cost
  deriving DecidableEq, Repr

namespace Measure

def all : List Measure := [distance, latency, field, cost]

def name : Measure → String
  | distance => "distance_between"
  | latency => "latency_between"
  | field => "attribute"
  | cost => "cost"

def ofName? (s : String) : Option Measure := all.find? (·.name == s)

def misuse (f : Measure) (expected : String) : SolveError :=
  .invalidObjective (.wrongShape f.name expected)

/-! #### Shape -/

/-- The parameters that a measure takes, in words. -/
def expected : Measure → String
  | distance => "exactly two endpoints (demands or a location)"
  | latency => "a demand and a location"
  | field => "a demand and an attribute"
  | cost => "a demand"

def accepts (f : Measure) (ps : Params) : Bool :=
  match f with
  | distance => ps.referenced.length + ps.location.toList.length == 2
  | latency => ps.demand.isSome && ps.demands.isEmpty && ps.location.isSome
  | field => ps.demand.isSome && ps.demands.isEmpty && ps.key.isSome
  | cost => ps.demand.isSome && ps.demands.isEmpty

def validate (f : Measure) (ps : Params) : Except SolveError Unit :=
  if f.accepts ps then .ok () else .error (f.misuse f.expected)

/-! #### Arguments -/

def decided (p : Path) (demand : String) : Except SolveError Candidate :=
  match p.decision? demand with
  | some c => .ok c
  | none => .error (.undecidedDemand demand)

/-- The candidate for the demand that the measure is about. -/
def subject (f : Measure) (p : Path) (ps : Params) : Except SolveError Candidate :=
  match ps.demand with
  | some d => decided p d
  | none => .error (f.misuse "a demand parameter")

/-- Where the candidates for some demands are. -/
def places (p : Path) : List String → Solving (List Location)
  | [] => pure []
  | d :: ds => do
    let c ← Solving.ofExcept (decided p d)
    let place : Option Location ← Solving.ask (.location c)
    match place with
    | none => throw (.missingLocation c.id)
    | some l =>
      let ls ← places p ds
      pure (l :: ls)

def namedPlaces (a : Atlas) (name : Option String) : Except SolveError (List Location) :=
  match name with
  | none => .ok []
  | some n => (a.location n).map fun l => [l]

def arguments (f : Measure) (a : Atlas) (p : Path) (ps : Params) : Solving (List Argument) :=
  match f with
  | distance => do
    let ls ← places p ps.referenced
    let named ← Solving.ofExcept (namedPlaces a ps.location)
    pure ((ls ++ named).map .location)
  | latency => Solving.ofExcept do
    let c ← f.subject p ps
    let _ ← namedPlaces a ps.location
    return [.number (a.latency c)]
  | field => Solving.ofExcept do
    let c ← f.subject p ps
    match ps.key with
    | some key => return [.candidate c, .text key]
    | none => throw (f.misuse "an attribute parameter")
  | cost => Solving.ofExcept do
    let c ← f.subject p ps
    return [.number c.cost]

def compute (f : Measure) (args : List Argument) : Except SolveError Float :=
  match f, args with
  | distance, [.location a, .location b] => .ok (a.distanceKm b)
  | distance, _ => .error (f.misuse "two locations")
  | latency, [.number x] => .ok x
  | latency, _ => .error (f.misuse "one latency weight")
  | field, [.candidate c, .text key] => (c.requireNumber key).mapError .record
  | field, _ => .error (f.misuse "a candidate and an attribute name")
  | cost, [.number x] => .ok x
  | cost, _ => .error (f.misuse "a cost")

/-- The value of a leaf. -/
def value (f : Measure) (a : Atlas) (p : Path) (ps : Params) : Solving Float := do
  let args ← f.arguments a p ps
  Solving.ofExcept (f.compute args)

end Measure

end Placement
