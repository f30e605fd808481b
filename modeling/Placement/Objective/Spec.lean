import Placement.Objective.Measure
import Placement.Objective.Operator

/-!
# Descriptors of objectives

An objective as it stands in a plan, before its names are resolved: a goal and a tree of operations
whose operands name a function or a nested operation.
-/

namespace Placement

mutual
inductive OperationSpec where
  | mk (operator : String) (operands : List OperandSpec)

inductive OperandSpec where
  | mk (function : Option String) (params : Option Params) (operation : Option OperationSpec)
      (scale : Scale)
end

structure ObjectiveSpec where
  goal : Goal
  operation : OperationSpec

namespace OperandSpec

def shape (operation : Reader OperationSpec) : Record OperandSpec :=
  ((Record.withDefault "function" (Reader.optional Reader.string) none).and
    ((Record.withDefault "params" (Reader.optional Params.shape.read) none).and
      ((Record.withDefault "operation_function" (Reader.optional operation) none).and
        ((Record.withDefault "normalization" (Reader.optional Normalization.shape.read) none).and
          (Record.withDefault "weight" (Reader.optional Reader.float) none))))).map
    fun (function, params, operation, normalization, weight) =>
      .mk function params operation { normalization, weight }

end OperandSpec

namespace OperationSpec

def shape (operand : Reader OperandSpec) : Record OperationSpec :=
  ((Record.required "operator" Reader.string).and
    (Record.required "operands" (Reader.list operand))).map
    fun (operator, operands) => .mk operator operands

/-- Operations nested up to a depth. -/
def readerOfDepth : Nat → Reader OperationSpec
  | 0 => fun _ d => .error (Reader.mismatch d)
  | n + 1 => (shape (OperandSpec.shape (readerOfDepth n)).read).read

/-- Operations do not nest deeper than the draft that holds them. -/
def reader : Reader OperationSpec := fun m d => readerOfDepth d.depth m d

end OperationSpec

namespace ObjectiveSpec

def shape : Record ObjectiveSpec :=
  ((Record.required "goal" Goal.reader).and
    (Record.required "operation_function" OperationSpec.reader)).map
    fun (goal, operation) => { goal, operation }

def reader : Reader ObjectiveSpec := shape.read

end ObjectiveSpec

end Placement
