import Placement.Search.Greedy
import Placement.Search.RandomPick

/-!
# Strategies and outcomes

Which search resolves a problem, and how solving ends.
-/

namespace Placement

inductive Strategy where
  | greedy
  | randomPick
  deriving DecidableEq, Repr

namespace Strategy

def name : Strategy → String
  | greedy => "greedy"
  | randomPick => "random_pick"

/-- The names in settings. -/
def ofName? (s : String) : Option Strategy :=
  if s = "greedy" then some greedy else if s = "random_pick" then some randomPick else none

/-- The names on a command line, where the random pick has a short one too. -/
def ofOption? (s : String) : Option Strategy := if s = "random" then some randomPick else ofName? s

/-- The refusal of a name that is none of a strategy. -/
def unknown (s : String) : String := "unknown strategy: " ++ s

def reader : Reader Strategy := Reader.choice ofName?

/-- The search itself. -/
def search (s : Strategy) (p : Problem) (choices : Choices) : Solving (Option Path) :=
  match s with
  | greedy => p.greedy
  | randomPick => p.randomPick choices

end Strategy

/-! ### Outcomes -/

inductive Outcome where
  | solved (d : Decision)
  | noSolution
  | timedOut

namespace Outcome

def status : Outcome → String
  | solved _ => "solved"
  | noSolution => "no_solution"
  | timedOut => "timed_out"

/-- The outcome of a search that has come to its end. -/
def ofPath (path : Option Path) : Outcome :=
  match path with
  | some p => solved p.toDecision
  | none => noSolution

end Outcome

namespace Strategy

variable {σ : Type}

/-- Solves a problem in conversation with an engine. There is no result if a call never returns. -/
def solve (s : Strategy) (p : Problem) (choices : Choices) (engine : Engine σ) (state : σ) :
    Transcript σ (Except SolveError Outcome) :=
  (Outcome.ofPath <$> s.search p choices).run.run engine state

/-- Solves a problem within a deadline, which passes exactly when a call never returns. -/
def solveWithin (s : Strategy) (p : Problem) (choices : Choices) (engine : Engine σ) (state : σ) :
    Transcript σ (Except SolveError Outcome) :=
  let t := s.solve p choices engine state
  { t with result := some (t.result.getD (.ok .timedOut)) }

end Strategy

end Placement
