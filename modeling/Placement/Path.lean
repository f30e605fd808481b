import Placement.Candidate

/-!
# Decision paths

The state of one search: the candidates decided on, be they committed or assumed for the time being,
the demands that are committed, the trace of the commitments, the demand under resolution, and the
running score. An operation updates these one after the other. One that fails leaves a path as well,
the one that it has come to.
-/

namespace Placement

structure Path where
  /-- The candidate for each demand that has one, committed or assumed. -/
  decisions : List (String × Candidate) := []
  /-- The demands that are committed, in the order of commitment. -/
  fixed : List String := []
  /-- The commitments in their order, as a text. -/
  trace : String := ""
  current : Option String := none
  cumulatedValue : Float := 0.0
  cumulatedCost : Float := 0.0
  heuristicValue : Float := 0.0
  heuristicCost : Float := 0.0
  totalValue : Float := 0.0
  totalCost : Float := 0.0

/-- The result of a search: the candidate for each demand and the final score. -/
structure Decision where
  decisions : Table Candidate
  totalValue : Float
  trace : String

namespace Path

/-! ### Views -/

/-- Whether a demand is committed. -/
def isDecided (p : Path) (demand : String) : Bool := p.fixed.contains demand

/-- The candidate for a demand, committed or assumed. -/
def decision? (p : Path) (demand : String) : Option Candidate := p.decisions.lookup demand

/-- The committed candidate for a demand; what is merely assumed is not seen here. -/
def decided (p : Path) (demand : String) : Option Candidate :=
  if p.isDecided demand then p.decision? demand else none

/-- The commitments in their order. -/
def committed (p : Path) : List (String × Candidate) :=
  p.fixed.filterMap fun d => (p.decision? d).map fun x => (d, x)

/-- The decisions that are no commitments. -/
def assumed (p : Path) : List (String × Candidate) := p.decisions.filter fun e => !p.isDecided e.1

/-- The committed state; assumptions are left out. -/
def toDecision (p : Path) : Decision :=
  { decisions := Table.ofList (p.decisions.filter fun e => p.isDecided e.1)
    totalValue := p.totalValue
    trace := p.trace }

/-! ### Entries -/

/-- The entries but for those under a name. -/
def without (demand : String) (entries : List (String × Candidate)) : List (String × Candidate) :=
  entries.filter fun e => e.1 != demand

/-- The entries with one more, in place of what was there under its name. -/
def put (entries : List (String × Candidate)) (demand : String) (c : Candidate) :
    List (String × Candidate) :=
  without demand entries ++ [(demand, c)]

/-- One commitment in the trace. -/
def segment (e : String × Candidate) : String := e.1 ++ ":" ++ e.2.id ++ ">"

/-! ### Totals -/

/-- A total is what has cumulated and what is estimated to come. -/
def refreshTotals (p : Path) : Path :=
  { p with
    totalValue := p.cumulatedValue + p.heuristicValue
    totalCost := p.cumulatedCost + p.heuristicCost }

/-- The path with a score, the totals following it. -/
def withScore (p : Path) (value : Float) : Path := { p with cumulatedValue := value }.refreshTotals

/-! ### Operations -/

/-- What an operation leaves: a path, and the reason for its failure if it has failed. -/
abbrev Result := EStateM.Result SolveError Path Unit

/-- The path that an operation leaves if it has not failed. -/
def Result.toExcept : Result → Except SolveError Path
  | .ok _ p => .ok p
  | .error e _ => .error e

/-- A step by step change of a path, which may fail on its way. -/
abbrev Update := EStateM SolveError Path

namespace Update

/-- Assumes a candidate, in place of an earlier assumption. -/
def assume (demand : String) (c : Candidate) : Update Unit := do
  if (← get).isDecided demand then throw (.alreadyDecided demand)
  modify fun p => { p with decisions := put p.decisions demand c }

/-- Enters a demand among those that are committed, and tells whether it is new there. -/
def fix (demand : String) : Update Bool := do
  let p ← get
  if p.isDecided demand then return false
  set { p with fixed := p.fixed ++ [demand] }
  return true

/-- Commits to a candidate for good. -/
def commit (demand : String) (c : Candidate) : Update Unit := do
  unless ← fix demand do throw (.alreadyDecided demand)
  modify fun p => { p with trace := p.trace ++ segment (demand, c) }
  modify fun p => { p with decisions := put p.decisions demand c }

/-- Takes over the score that an evaluation has come to, and fails where the evaluation has. -/
def takeScore (score : Except SolveError Float) : Update Unit := do
  let value ← MonadExcept.ofExcept score
  modify fun p => { p with cumulatedValue := value }
  modify refreshTotals

end Update

def assume (p : Path) (demand : String) (c : Candidate) : Except SolveError Path :=
  Result.toExcept ((Update.assume demand c).run p)

/-- Takes an assumption back; a commitment stays. -/
def retract (p : Path) (demand : String) : Path :=
  if p.isDecided demand then p else { p with decisions := without demand p.decisions }

def commit (p : Path) (demand : String) (c : Candidate) : Except SolveError Path :=
  Result.toExcept ((Update.commit demand c).run p)

end Path

end Placement
