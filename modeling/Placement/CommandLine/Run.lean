import Placement.CommandLine.Arguments
import Placement.CommandLine.Files
import Placement.Engine.Recorded
import Placement.Json.Printer
import Placement.Search.Strategy
import Placement.Settings

/-!
# Running commands

What a command does with the files around it, and what it tells about a plan and about the outcome
of a search, as JSON. The fields of a report stand in the order in which they are read best. The
engine that answers from the records always answers, so no deadline passes here.
-/

namespace Placement

/-! ### Reports -/

/-- A candidate with its identity first and then its attributes. -/
def Candidate.report (c : Candidate) : Json := .object c.fields

def Decision.fields (d : Decision) : List (String × Json) :=
  [("decisions", .object (d.decisions.map fun (k, c) => (k, c.report))),
    ("total_value", .real d.totalValue), ("decision_id", .string d.trace)]

def Outcome.report (o : Outcome) : Json :=
  match o with
  | .solved d => .object (("status", .string o.status) :: d.fields)
  | o => .object [("status", .string o.status)]

def Constraint.report (c : Constraint) : Json :=
  .object [("name", .string c.name), ("priority", .int c.priority), ("type", .string c.kind.tag)]

def Problem.report (p : Problem) : Json :=
  .object
    [("constraints", .array (p.constraints.map Constraint.report)),
      ("demands", .array (p.demands.map fun d => .string d.name)),
      ("goal", .string p.objective.goal.name), ("status", .string "valid")]

/-! ### Commands -/

/-- How a command ends. -/
inductive Ending where
  | printed (text : String)
  | failed (reason : String)
  /-- A new file, and what is printed once it is written. -/
  | creates (path content text : String)

/-- The settings as a command line changes them. -/
def Overrides.apply (o : Overrides) (s : Settings) : Settings :=
  { strategy := o.strategy.getD s.strategy
    randomSeed := o.seed.or s.randomSeed
    deadlineSecs := o.deadlineSecs.or s.deadlineSecs }

namespace Command

def programVersion : String := "0.1.0"

def usage : String :=
  "Usage: homing solve --plan <PLAN> [--config <FILE>] [--strategy <NAME>] [--seed <N>] " ++
    "[--deadline-secs <N>]\n" ++
    "       homing validate --plan <PLAN>\n" ++
    "       homing init-config [--path <FILE>]\n"

def loadSettings (s : Surroundings) (path : Option String) : Except String Settings :=
  match path with
  | none => .ok {}
  | some path => do
    let text ← (s.read path).mapError FileFault.message
    match Settings.ofText? text with
    | some settings => .ok settings
    | none => .error "TOML parse error"

def loadProblem (s : Surroundings) (path : String) : Except String Problem := do
  let text ← (s.read path).mapError fun _ => "reading plan " ++ path
  let plan ← (Plan.ofText text).mapError fun _ => "parsing plan " ++ path
  (Problem.ofPlan plan).mapError SolveError.message

def solveOutcome (s : Surroundings) (plan : String) (settings : Option String)
    (overrides : Overrides) : Except String Outcome := do
  let settings := overrides.apply (← loadSettings s settings)
  let problem ← loadProblem s plan
  let solver := Solver.ofSettings settings
  match (solver.solve problem (settings.choices s.entropy) Engine.recorded ()).result with
  | some r => r.mapError SolveError.message
  | none => .ok .timedOut

/-- A result on a line of its own, or the reason why there is none. -/
def ending (result : Except String String) : Ending :=
  match result with
  | .ok text => .printed (text ++ "\n")
  | .error reason => .failed reason

def run (s : Surroundings) (c : Command) : Ending :=
  match c with
  | .solve plan settings overrides =>
    ending ((solveOutcome s plan settings overrides).map fun o => o.report.indented)
  | .validate plan => ending ((loadProblem s plan).map fun p => p.report.indented)
  | .initSettings path =>
    if s.isTaken path then .failed (path ++ " already exists")
    else
      match Settings.scaffold.toText? with
      | some text => .creates path text ("✓ Generated " ++ path ++ "\n")
      | none => .failed "settings cannot be written"
  | .version name => .printed (name ++ " " ++ programVersion ++ "\n")
  | .help => .printed usage

/-- The files that a command reads or is about to write. -/
def paths : Command → List String
  | .solve plan settings _ => settings.toList ++ [plan]
  | .validate plan => [plan]
  | .initSettings path => [path]
  | .version _ => []
  | .help => []

end Command

end Placement
