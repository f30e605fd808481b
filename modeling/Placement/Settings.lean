import Placement.Search.Strategy
import Placement.Toml.Text

/-!
# Settings and solvers

Which strategy resolves a plan, with which seed, and for how long. Settings are kept in the table
`solver` of a TOML file; what is not set there has its default.

A solver has its settings and the deadline in force, which need not be the one that is set. It
solves a problem on the spot, however long that takes, or within the deadline.
-/

namespace Placement

structure Settings where
  strategy : Strategy := .greedy
  deadlineSecs : Option UInt64 := none
  randomSeed : Option UInt64 := none
  deriving DecidableEq, Repr

namespace Settings

/-! ### Reading -/

def isEmptyContainer : Toml → Bool
  | .array [] => true
  | .table _ [] => true
  | _ => false

/-- A strategy by name; the name may also be the only key of a table, with nothing under it. -/
def strategyOf? (v : Toml) : Option Strategy :=
  match v with
  | .string s => Strategy.ofName? s
  | .table _ [(k, content)] => if isEmptyContainer content then Strategy.ofName? k else none
  | _ => none

def wordOf? (v : Toml) : Option UInt64 :=
  match v with
  | .integer i => if 0 ≤ i then some i.toUInt64 else none
  | _ => none

/-- The value under a key, or the default where there is none. -/
def setting {α : Type} (fields : Table Toml) (key : String) (read : Toml → Option α) (absent : α) :
    Option α :=
  match Table.get? fields key with
  | none => some absent
  | some v => read v

def ofFields? (fields : Table Toml) : Option Settings := do
  let strategy ← setting fields "strategy" strategyOf? .greedy
  let deadlineSecs ← setting fields "deadline_secs" (fun v => (wordOf? v).map some) none
  let randomSeed ← setting fields "random_seed" (fun v => (wordOf? v).map some) none
  return { strategy, deadlineSecs, randomSeed }

/-- Settings by position; more items do not matter. -/
def ofItems? (items : List Toml) : Option Settings := do
  match items with
  | strategy :: deadlineSecs :: randomSeed :: _ =>
    let strategy ← strategyOf? strategy
    let deadlineSecs ← wordOf? deadlineSecs
    let randomSeed ← wordOf? randomSeed
    return { strategy, deadlineSecs, randomSeed }
  | _ => none

/-- Settings from a table or an array; a moment sets nothing. -/
def ofValue? (v : Toml) : Option Settings :=
  match v with
  | .table _ fields => ofFields? fields
  | .array items => ofItems? items
  | .moment _ => some {}
  | _ => none

def ofDocument? (document : Table Toml) : Option Settings :=
  match Table.get? document "solver" with
  | none => some {}
  | some v => ofValue? v

def ofText? (text : String) : Option Settings := (Toml.ofText? text).bind ofDocument?

/-! ### Writing -/

/-- One line for a number that is set; TOML has no whole numbers beyond 63 bits. -/
def numberLine? (key : String) (x : Option UInt64) : Option String :=
  match x with
  | none => some ""
  | some n =>
    if n.toNat < Nat.pow 2 63 then some (key ++ " = " ++ Decimal.wholeText n.toNat ++ "\n")
    else none

def toText? (s : Settings) : Option String := do
  let deadline ← numberLine? "deadline_secs" s.deadlineSecs
  let seed ← numberLine? "random_seed" s.randomSeed
  return "[solver]\nstrategy = \"" ++ s.strategy.name ++ "\"\n" ++ deadline ++ seed

/-! ### Use -/

/-- The settings of a new file. -/
def scaffold : Settings := { deadlineSecs := some 30 }

def deadlineMillis (s : Settings) : Option Nat := s.deadlineSecs.map fun n => 1000 * n.toNat

/-- The choices of a random pick; without a seed they come from elsewhere. -/
def choices (s : Settings) (entropy : UInt64) : Choices :=
  Choices.seeded (s.randomSeed.getD entropy)

end Settings

/-! ### Solvers -/

structure Solver where
  settings : Settings
  deadlineMillis : Option Nat

namespace Solver

variable {σ : Type}

def ofSettings (settings : Settings) : Solver := ⟨settings, settings.deadlineMillis⟩

/-- The solver with another deadline in force, or with none. -/
def withDeadline (v : Solver) (deadlineMillis : Option Nat) : Solver := { v with deadlineMillis }

def solveBlocking (v : Solver) (p : Problem) (choices : Choices) (engine : Engine σ) (state : σ) :
    Transcript σ (Except SolveError Outcome) :=
  v.settings.strategy.solve p choices engine state

/-- Without a deadline there is no result if a call never returns. -/
def solve (v : Solver) (p : Problem) (choices : Choices) (engine : Engine σ) (state : σ) :
    Transcript σ (Except SolveError Outcome) :=
  match v.deadlineMillis with
  | none => v.solveBlocking p choices engine state
  | some _ => v.settings.strategy.solveWithin p choices engine state

end Solver

end Placement
