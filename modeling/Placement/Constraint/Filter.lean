import Placement.Constraint.Fit
import Placement.Engine.Consult

/-!
# What constraints let through

`Constraint.filter` narrows the candidates of the demand under resolution. Rules on the records
alone keep the candidates that satisfy a predicate; the others consult the engine, which judges
candidates and, for hardware, capacity and services, answers with records of its own.
-/

namespace Placement

namespace Constraint

/-! ### Rules on the records -/

def keepAbove (key : String) (operator : Comparator) (bound : Float) (pool : List Candidate) :
    List Candidate :=
  pool.filter fun x => x.meetsThreshold key operator bound

/-- The current demand, if the scope lists it exactly once and lists no other demand that is not
decided yet. -/
def lastToResolve (c : Constraint) (p : Path) : Option String :=
  match p.current with
  | none => none
  | some current =>
    if (c.demands.filter fun d => !p.isDecided d) == [current] then some current else none

/-- The candidates for the demands in scope, with one of them on trial for the current demand. -/
def members (c : Constraint) (p : Path) (current : String) (trial : Candidate) : List Candidate :=
  c.demands.filterMap fun d => if d = current then some trial else p.decided d

def keepAggregated (c : Constraint) (rules : List AggregationRule) (p : Path)
    (pool : List Candidate) :
    List Candidate :=
  match c.lastToResolve p with
  | none => pool
  | some current => pool.filter fun x => rules.all fun r => r.accepts (c.members p current x)

def keepZoned (c : Constraint) (q : Qualifier) (category : String) (p : Path)
    (pool : List Candidate) :
    List Candidate :=
  match (c.decidedSiblings p).map Prod.snd with
  | [] => pool
  | siblings => pool.filter fun x => x.fitsZones q category siblings

/-! ### Distance -/

/-- Where a candidate is. -/
def locate (x : Candidate) : Solving (Option Location) := Solving.ask (.location x)

/-- Where the siblings are; each of them must have a location. -/
def siblingLocations : List (String × Candidate) → Solving (List Location)
  | [] => pure []
  | (d, x) :: rest => do
    match ← locate x with
    | none => throw (.missingLocation (d ++ ":" ++ x.id))
    | some l =>
      let ls ← siblingLocations rest
      pure (l :: ls)

/-- The candidates that have a location which fits. -/
def keepNear (r : DistanceRule) (others : List Location) : List Candidate → Solving (List Candidate)
  | [] => pure []
  | x :: xs => do
    let place ← locate x
    let rest ← keepNear r others xs
    match place with
    | some l => pure (if r.fits l others then x :: rest else rest)
    | none => pure rest

def keepDistant (c : Constraint) (r : DistanceRule) (p : Path) (pool : List Candidate) :
    Solving (List Candidate) :=
  match c.decidedSiblings p with
  | [] => pure pool
  | siblings => do
    let others ← siblingLocations siblings
    keepNear r others pool

/-! ### Rules that the engine judges -/

/-- The demand under resolution as the engine is told it. -/
def demandName (p : Path) : String := p.current.getD ""

/-- The candidates whose ids are in the answer, as they were. -/
def keepAttributed (evaluate : Table Json) (p : Path) (pool : List Candidate) :
    Solving (List Candidate) := do
  let matched : List Candidate ← Solving.ask (.attributes (demandName p) evaluate pool)
  pure (pool.filter fun x => matched.any fun m => m.id == x.id)

/-- Each requirement's answer takes the place of the candidates, up to the first requirement that
nothing meets. -/
def keepEquipped : List HpaRequirement → List Candidate → Solving (List Candidate)
  | [], pool => pure pool
  | r :: rs, pool => do
    let matched : Option (List Candidate) ← Solving.ask (.hpa r pool)
    match matched with
    | some (x :: xs) => keepEquipped rs (x :: xs)
    | _ => pure pool

/-- The answer in place of the candidates, unless it is empty. -/
def keepFitting (request : CapacityRequest) (pool : List Candidate) : Solving (List Candidate) := do
  let fitting : Option (List Candidate) ← Solving.ask (.vim request pool)
  match fitting with
  | some (x :: xs) => pure (x :: xs)
  | _ => pure pool

/-- The last record with an id. -/
def lastRecord? (records : List Candidate) (id : String) : Option Candidate :=
  Candidate.find? records.reverse id

/-- Candidates of the type take the record confirmed for them or are dropped; those of another type
stay. -/
def takeConfirmed (inventoryType : String) (confirmed pool : List Candidate) : List Candidate :=
  pool.filterMap fun x =>
    if x.inventoryType = inventoryType then lastRecord? confirmed x.id else some x

/-- The candidates of one inventory type must be confirmed by the controller; without any, it is not
asked. -/
def keepServed (c : Constraint) (controller inventoryType : String) (request : Json) (cost : Float)
    (p : Path) (pool : List Candidate) : Solving (List Candidate) :=
  match pool.filter fun x => x.inventoryType == inventoryType with
  | [] => pure pool
  | toCheck => do
    let confirmed : Option (List Candidate) ← Solving.ask
      (.service
        { constraint := c.name, kind := c.kind.tag, controller, inventoryType, request, cost,
          demand := demandName p }
        toCheck)
    pure (takeConfirmed inventoryType (confirmed.getD []) pool)

/-! ### Any rule -/

/-- The candidates that the constraint lets through on a path. -/
def filter (c : Constraint) (p : Path) (pool : List Candidate) : Solving (List Candidate) :=
  match c.rule with
  | .attributes evaluate => keepAttributed evaluate p pool
  | .threshold key operator bound => pure (keepAbove key operator bound pool)
  | .distance r => c.keepDistant r p pool
  | .aggregation rules => pure (c.keepAggregated rules p pool)
  | .hpa requirements => keepEquipped requirements pool
  | .vimFit request => keepFitting request pool
  | .service controller inventoryType request cost =>
    c.keepServed controller inventoryType request cost p pool
  | .zone qualifier category => pure (c.keepZoned qualifier category p pool)

end Constraint

end Placement
