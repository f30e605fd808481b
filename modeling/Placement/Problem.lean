import Placement.Constraint.Build
import Placement.Constraint.Filter
import Placement.Objective.Basic
import Placement.Objective.Spec

/-!
# Plans and problems

A plan as it is delivered: demands with their pools, constraints and objective as descriptors, and
the places and weights that the objective may name. A problem is a plan that has been checked:
demands in the order in which they are resolved, constraints in the order in which they are applied,
every name resolved. What is wrong with a plan comes to light here and not in a search.
-/

namespace Placement

/-! ### Plans -/

structure Plan where
  demands : List Demand
  constraints : List ConstraintSpec
  objective : ObjectiveSpec
  atlas : Atlas

namespace Plan

def shape : Record Plan :=
  ((Record.required "demands" (Reader.list Demand.reader)).and
    ((Record.withDefault "constraints" (Reader.list ConstraintSpec.reader) []).and
      ((Record.required "objective" ObjectiveSpec.reader).and
        ((Record.withDefault "locations" (Reader.table Location.reader) []).and
          (Record.withDefault "latency_weights" (Reader.table Reader.float) []))))).map
    fun (demands, constraints, objective, locations, latencyWeights) =>
      { demands, constraints, objective, atlas := { locations, latencyWeights } }

def reader : Reader Plan := shape.read

def ofJson (j : Json) : Except ReadError Plan := Reader.value reader j

def ofText (text : String) : Except ReadError Plan := Reader.document reader text

end Plan

/-! ### Problems -/

structure Problem where
  demands : List Demand
  constraints : List Constraint
  objective : Objective
  atlas : Atlas

namespace Problem

/-! ### From a plan -/

/-- No name stands twice; of the repeated ones the first to be met is the fault. -/
def checkDistinct : List String → List String → Except SolveError Unit
  | _, [] => .ok ()
  | seen, d :: ds =>
    if d ∈ seen then .error (.record (.duplicateDemand d)) else checkDistinct (d :: seen) ds

/-- All places are on the globe; the fault is reported for the first name in order. -/
def checkLocations : Table Location → Except SolveError Unit
  | [] => .ok ()
  | (_, l) :: ls =>
    match l.check with
    | .error e => .error (.record e)
    | .ok _ => checkLocations ls

/-- A constraint over known demands. -/
def buildConstraint (known : List String) (spec : ConstraintSpec) : Except SolveError Constraint :=
  match spec.demands.find? fun d => !known.contains d with
  | some d => .error (.unknownDemand d)
  | none => Constraint.build spec

def buildConstraints (known : List String) :
    List ConstraintSpec → Except SolveError (List Constraint)
  | [] => .ok []
  | s :: ss => do
    let c ← buildConstraint known s
    let cs ← buildConstraints known ss
    return c :: cs

/-- Demands in ascending order of their sort keys; equal keys keep the order of the plan. -/
def processingOrder (ds : List Demand) : List Demand :=
  ds.mergeSort fun a b => decide (a.sortKey ≤ b.sortKey)

/-- Constraints in ascending order of their priorities; equal priorities keep the order of the
plan. -/
def applicationOrder (cs : List Constraint) : List Constraint :=
  cs.mergeSort fun a b => decide (a.priority ≤ b.priority)

def ofPlan (plan : Plan) : Except SolveError Problem := do
  let names := plan.demands.map Demand.name
  checkDistinct [] names
  checkLocations plan.atlas.locations
  let constraints ← buildConstraints names plan.constraints
  let objective ←
    Objective.build { demands := names, locations := plan.atlas.locations } plan.objective
  return { demands := processingOrder (plan.demands.map Demand.cleaned)
           constraints := applicationOrder constraints
           objective
           atlas := plan.atlas }

/-- The problem without demands and constraints, in which every path scores zero. -/
def empty : Problem := { demands := [], constraints := [], objective := .empty, atlas := {} }

/-! ### Views -/

/-- The constraints with a demand in scope, in the order of application. -/
def constraintsFor (p : Problem) (demand : String) : List Constraint :=
  p.constraints.filter fun c => c.appliesTo demand

def demand? (p : Problem) (name : String) : Option Demand := p.demands.find? (·.name == name)

def evaluate (p : Problem) (path : Path) : Solving Float := p.objective.evaluate p.atlas path

/-- Scores a path; one that cannot be scored keeps the score that it had. -/
def compute (p : Problem) (path : Path) : Consult Path.Result := p.objective.compute p.atlas path

/-- The path with its score. -/
def score (p : Problem) (path : Path) : Solving Path := p.objective.score p.atlas path

/-- What a problem consists of, in one line. -/
def summary (p : Problem) : String :=
  let goal := match p.objective.goal with
    | .minimize => "Minimize"
    | .maximize => "Maximize"
  "SolverRequest \x7b demands: [" ++ ", ".intercalate (p.demands.map fun d => Text.quoted d.name) ++
    "], constraints: " ++ Decimal.wholeText p.constraints.length ++ ", goal: " ++ goal ++ " \x7d"

end Problem

/-! ### The constraint pipeline -/

/-- The candidates that some constraints let through, each narrowing what the one before left; the
first of them that leaves none is the last to be applied. -/
def narrow (path : Path) : List Constraint → List Candidate → Solving (List Candidate)
  | [], pool => pure pool
  | c :: cs, pool => do
    match ← c.filter path pool with
    | [] => pure []
    | x :: xs => narrow path cs (x :: xs)

/-- The candidates of a demand that satisfy all constraints on it. -/
def Problem.survivors (p : Problem) (path : Path) (demand : Demand) : Solving (List Candidate) :=
  narrow path (p.constraintsFor demand.name) demand.candidates

end Placement
