import Placement.Decimal.Layout
import Placement.Record.Reader
import Placement.Text.Quoted

/-!
# Errors

The causes for which a plan is refused or a search ends without a result, each with its wording.
Infeasibility is not among them.
-/

namespace Placement

/-- Faults of the records themselves. -/
inductive RecordError where
  | invalidCoordinates (latitude longitude : Float)
  | missingAttribute (candidate key : String)
  | notNumeric (candidate key : String)
  | duplicateDemand (demand : String)

def RecordError.message : RecordError → String
  | invalidCoordinates latitude longitude =>
    "invalid coordinates: latitude " ++ Decimal.Layout.message.render latitude ++ ", longitude " ++
      Decimal.Layout.message.render longitude
  | missingAttribute candidate key => "candidate " ++ candidate ++ " has no attribute " ++ key
  | notNumeric candidate key =>
    "attribute " ++ key ++ " of candidate " ++ candidate ++ " is not numeric"
  | duplicateDemand demand => "duplicate demand: " ++ demand

/-- Failures of the constraint engine. -/
inductive EngineError where
  | unavailable (detail : String)
  | badResponse (detail : String)
  deriving DecidableEq, Repr

def EngineError.message : EngineError → String
  | unavailable detail => "constraint engine unavailable: " ++ detail
  | badResponse detail => "bad response from constraint engine: " ++ detail

/-- Why a constraint of a known type is refused. -/
inductive ConstraintFlaw where
  | noDemands
  | tooFewDemands (kind : String)
  | badProperties (e : ReadError)
  | emptyEvaluate
  | infiniteThreshold
  | unreadableDistance (text : String)
  | negativeDistance
  | negativeCapacity
  | noController
  | emptyCategory
  deriving DecidableEq, Repr

def ConstraintFlaw.message : ConstraintFlaw → String
  | noDemands => "no demands in scope"
  | tooFewDemands kind => kind ++ " needs at least two demands"
  | badProperties e => "bad properties: " ++ e.message
  | emptyEvaluate => "evaluate is empty"
  | infiniteThreshold => "threshold must be finite"
  | unreadableDistance text => "cannot parse distance " ++ Text.quoted text
  | negativeDistance => "distance must be a non-negative number"
  | negativeCapacity => "capacity request must not be negative"
  | noController => "controller and inventory_type are required"
  | emptyCategory => "category is empty"

/-- Why an objective is refused. -/
inductive ObjectiveFlaw where
  | noOperands (operator : String)
  | emptyRange (start stop : Float)
  | infiniteWeight
  | notOneKind
  | wrongShape (function expected : String)

def ObjectiveFlaw.message : ObjectiveFlaw → String
  | noOperands operator => "operator " ++ operator ++ " has no operands"
  | emptyRange start stop =>
    "normalization range [" ++ Decimal.Layout.message.render start ++ ", " ++
      Decimal.Layout.message.render stop ++ "] is empty"
  | infiniteWeight => "weight must be finite"
  | notOneKind => "operand needs exactly one of function or operation_function"
  | wrongShape function expected => function ++ " expects " ++ expected

inductive SolveError where
  | invalidConstraint (name : String) (flaw : ConstraintFlaw)
  | unknownConstraintType (name kind : String)
  | unknownDemand (demand : String)
  | unknownLocation (location : String)
  | unknownFunction (function : String)
  | unknownOperator (operator : String)
  | invalidObjective (flaw : ObjectiveFlaw)
  | undecidedDemand (demand : String)
  | alreadyDecided (demand : String)
  | missingLocation (candidate : String)
  | engine (e : EngineError)
  | record (e : RecordError)

namespace SolveError

def message : SolveError → String
  | invalidConstraint name flaw => "invalid constraint " ++ name ++ ": " ++ flaw.message
  | unknownConstraintType name kind =>
    "unknown constraint type " ++ kind ++ " in constraint " ++ name
  | unknownDemand demand => "unknown demand: " ++ demand
  | unknownLocation location => "unknown location: " ++ location
  | unknownFunction function => "unknown objective function: " ++ function
  | unknownOperator operator => "unknown operator: " ++ operator
  | invalidObjective flaw => "invalid objective: " ++ flaw.message
  | undecidedDemand demand => "demand " ++ demand ++ " is referenced before it is decided"
  | alreadyDecided demand => "demand " ++ demand ++ " is already decided on this path"
  | missingLocation candidate => "no location for candidate " ++ candidate
  | engine e => "constraint engine error: " ++ e.message
  | record e => e.message

/-- The candidate's record lacks what the objective reads: the candidate cannot be scored, the plan
is not broken. -/
def isMismatch : SolveError → Bool
  | missingLocation _ => true
  | record (.missingAttribute _ _) => true
  | record (.notNumeric _ _) => true
  | _ => false

end SolveError

end Placement
