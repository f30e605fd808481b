import Placement.Objective.Spec

/-!
# Objectives

An objective is a goal and a tree of operations over measures, with every name resolved. A path is
scored by the part of the tree that is active on it: a leaf counts once all demands that it
references are decided or assumed, and a node once one of its operands does.
-/

namespace Placement

inductive Term where
  | leaf (f : Measure) (params : Params) (scale : Scale)
  | node (operator : Operator) (operands : List Term) (scale : Scale)

structure Objective where
  goal : Goal
  operator : Operator
  operands : List Term

/-- What an objective may reference. -/
structure Scope where
  demands : List String
  locations : Table Location

/-! ### Building -/

namespace Scope

def checkDemands (s : Scope) : List String → Except SolveError Unit
  | [] => .ok ()
  | d :: ds => if d ∈ s.demands then s.checkDemands ds else .error (.unknownDemand d)

def checkLocation (s : Scope) (location : Option String) : Except SolveError Unit :=
  match location with
  | none => .ok ()
  | some l => if (Table.get? s.locations l).isSome then .ok () else .error (.unknownLocation l)

end Scope

/-- The range is proper and the weight finite. -/
def Scale.check (s : Scale) : Except SolveError Unit := do
  match s.normalization with
  | some n => if n.isProper then pure () else throw (.invalidObjective (.emptyRange n.start n.stop))
  | none => pure ()
  match s.weight with
  | some w => if w.isFinite then pure () else throw (.invalidObjective .infiniteWeight)
  | none => pure ()

def Measure.resolve (name : String) : Except SolveError Measure :=
  match Measure.ofName? name with
  | some f => .ok f
  | none => .error (.unknownFunction name)

def Operator.resolve (name : String) : Except SolveError Operator :=
  match Operator.ofName? name with
  | some o => .ok o
  | none => .error (.unknownOperator name)

namespace Term

def buildLeaf (s : Scope) (name : String) (ps : Params) (scale : Scale) :
    Except SolveError Term := do
  let f ← Measure.resolve name
  f.validate ps
  s.checkDemands ps.referenced
  s.checkLocation ps.location
  return .leaf f ps scale

mutual
/-- The operator and the operands of an operation. -/
def buildOperation (s : Scope) : OperationSpec → Except SolveError (Operator × List Term)
  | .mk operator operands => do
    let o ← Operator.resolve operator
    if operands.isEmpty then throw (.invalidObjective (.noOperands operator))
    let ts ← buildOperands s operands
    return (o, ts)

def buildOperands (s : Scope) : List OperandSpec → Except SolveError (List Term)
  | [] => .ok []
  | o :: os => do
    let t ← build s o
    let ts ← buildOperands s os
    return t :: ts

def build (s : Scope) : OperandSpec → Except SolveError Term
  | .mk function params operation scale => do
    scale.check
    match function, operation with
    | some name, none => buildLeaf s name (params.getD {}) scale
    | none, some nested =>
      let (o, ts) ← buildOperation s nested
      return .node o ts scale
    | _, _ => throw (.invalidObjective .notOneKind)
end

/-! ### Scoring -/

mutual
/-- The value of a term on a path, if it is active there. -/
def evaluate (a : Atlas) (p : Path) : Term → Solving (Option Float)
  | leaf f ps scale =>
    if ps.isActive p then do
      let x ← f.value a p ps
      pure (some (scale.apply x))
    else pure none
  | node o ts scale => do
    let xs ← values a p ts
    pure ((o.reduce? xs).map scale.apply)

/-- The values of the active terms. -/
def values (a : Atlas) (p : Path) : List Term → Solving (List Float)
  | [] => pure []
  | t :: ts => do
    let x ← evaluate a p t
    let xs ← values a p ts
    pure (x.toList ++ xs)
end

mutual
/-- The demands referenced anywhere in a term. -/
def referenced : Term → List String
  | leaf _ ps _ => ps.referenced
  | node _ ts _ => referencedAll ts

def referencedAll : List Term → List String
  | [] => []
  | t :: ts => referenced t ++ referencedAll ts
end

end Term

namespace Objective

def build (s : Scope) (spec : ObjectiveSpec) : Except SolveError Objective := do
  let (operator, operands) ← Term.buildOperation s spec.operation
  return { goal := spec.goal, operator, operands }

/-- The objective that scores every path with zero. -/
def empty : Objective := { goal := .minimize, operator := .sum, operands := [] }

/-- The score of a path; where nothing is active it is zero. -/
def evaluate (o : Objective) (a : Atlas) (p : Path) : Solving Float := do
  let xs ← Term.values a p o.operands
  pure ((o.operator.reduce? xs).getD 0.0)

/-- Scores a path; one that cannot be scored keeps the score that it had. -/
def compute (o : Objective) (a : Atlas) (p : Path) : Consult Path.Result := do
  let score ← (o.evaluate a p).run
  return (Path.Update.takeScore score).run p

/-- The path with its score. -/
def score (o : Objective) (a : Atlas) (p : Path) : Solving Path :=
  ExceptT.mk (Path.Result.toExcept <$> o.compute a p)

def referenced (o : Objective) : List String := Term.referencedAll o.operands

end Objective

end Placement
