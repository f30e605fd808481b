import Placement.Problem

/-!
# Greedy search

One round for each demand, in order: the survivors of the constraints are assumed one by one and
scored, and the first with the best score is committed. There is no way back, so the result depends
on the order of the demands and need not be the best there is.
-/

namespace Placement

/-- The score that the first improvement in a round has to beat. -/
def Goal.initialBound : Goal → Float
  | .minimize => 1.7976931348623157e308
  | .maximize => -Decimal.infinity

namespace Greedy

/-- A round under way: the path with the last assumption still on it, the best score so far, and
whose it is. -/
structure Round where
  path : Path
  bound : Float
  best : Option Candidate

/-- A candidate is assumed and scored; one that cannot be scored for what its record lacks is passed
over. -/
def attempt (p : Problem) (demand : String) (r : Round) (x : Candidate) : Solving Round := do
  let path ← Solving.ofExcept (r.path.assume demand x)
  match ← ExceptT.lift (p.compute path) with
  | .ok _ scored =>
    if p.objective.goal.isBetter scored.totalValue r.bound then
      pure { path := scored, bound := scored.totalValue, best := some x }
    else pure { r with path := scored }
  | .error e path => if e.isMismatch then pure { r with path } else throw e

def attempts (p : Problem) (demand : String) (r : Round) : List Candidate → Solving Round
  | [] => pure r
  | x :: xs => do
    let r ← attempt p demand r x
    attempts p demand r xs

/-- The end of a round: the best candidate is committed and its score is the total. -/
def settle (demand : String) (r : Round) : Except SolveError (Option Path) :=
  match r.best with
  | none => .ok none
  | some x => do
    let path ← (r.path.retract demand).commit demand x
    return some { path with totalValue := r.bound }

/-- The round for a demand; there is no path if no candidate survives or none has a score that
counts. -/
def round (p : Problem) (path : Path) (demand : Demand) : Solving (Option Path) := do
  let path := { path with current := some demand.name }
  let pool ← p.survivors path demand
  let r ← attempts p demand.name { path, bound := p.objective.goal.initialBound, best := none } pool
  Solving.ofExcept (settle demand.name r)

def rounds (p : Problem) (path : Path) : List Demand → Solving (Option Path)
  | [] => pure (some { path with current := none })
  | d :: ds => do
    match ← round p path d with
    | none => pure none
    | some path => rounds p path ds

end Greedy

/-- A path on which every demand is committed, or nothing if some demand has no candidate to
commit. -/
def Problem.greedy (p : Problem) : Solving (Option Path) := Greedy.rounds p {} p.demands

end Placement
