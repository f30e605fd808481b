import Placement.Json.Text

/-!
# Reading values of a known shape

A reader takes a draft, held in memory or as a text, to a value or to the first fault that a visit
in document order meets. Which fault that is depends on the medium in two places: a named choice
that is not written as a string, and items beyond the last part of a record.
-/

namespace Placement

/-- Where a draft comes from. -/
inductive Medium where
  | memory
  | text
  deriving DecidableEq, Repr

inductive ReadError where
  | missingField (name : String)
  | duplicateField (name : String)
  | unknownVariant (name : String)
  | invalidType
  | invalidValue
  | invalidLength
  | noVariant
  | broken (b : Break)
  deriving DecidableEq, Repr

namespace ReadError

def message : ReadError → String
  | missingField name => "missing field `" ++ name ++ "`"
  | duplicateField name => "duplicate field `" ++ name ++ "`"
  | unknownVariant name => "unknown variant `" ++ name ++ "`"
  | invalidType => "invalid type"
  | invalidValue => "invalid value"
  | invalidLength => "invalid length"
  | noVariant => "data did not match any variant"
  | broken .malformed => "malformed text"
  | broken .ended => "unexpected end of text"

end ReadError

abbrev Reader (α : Type) := Medium → Draft → Except ReadError α

namespace Reader

variable {α β : Type}

/-- The fault of a draft that has none of the shapes a reader accepts. A scalar is read before its
type is looked at, a container is not. -/
def mismatch : Draft → ReadError
  | .unusable content => if content.isContainer then .invalidType else .broken .malformed
  | .broken h => .broken h.read
  | _ => .invalidType

/-- The fault of a draft where a container is expected. -/
def noContainer : Draft → ReadError
  | .unusable _ => .broken .malformed
  | .broken h => .broken h.read
  | _ => .invalidType

def map (f : α → β) (r : Reader α) : Reader β := fun m d => (r m d).map f

def any : Reader Json := fun _ d =>
  match d.toJson with
  | .ok j => .ok j
  | .error b => .error (.broken b)

def string : Reader String := fun _ d =>
  match d with
  | .string s => .ok s
  | d => .error (mismatch d)

def float : Reader Float := fun _ d =>
  match d with
  | .number n => .ok n.toFloat
  | d => .error (mismatch d)

/-- A whole number from `lo` to `hi`. -/
def whole (lo hi : Int) : Reader Int := fun _ d =>
  match d with
  | .number (.int i) => if lo ≤ i ∧ i ≤ hi then .ok i else .error .invalidValue
  | d => .error (mismatch d)

/-- `null` stands for the absent value. -/
def optional (r : Reader α) : Reader (Option α) := fun m d =>
  match d with
  | .null => .ok none
  | d => (r m d).map some

def items (r : Reader α) (m : Medium) : List Draft → Except ReadError (List α)
  | [] => .ok []
  | d :: ds => do
    let a ← r m d
    let as ← items r m ds
    .ok (a :: as)

def list (r : Reader α) : Reader (List α) := fun m d =>
  match d with
  | .array ds stop => do
    let as ← items r m ds
    match stop with
    | some b => .error (.broken b)
    | none => .ok as
  | d => .error (noContainer d)

def entries (r : Reader α) (m : Medium) :
    List (Except Break String × Draft) → Except ReadError (List (String × α))
  | [] => .ok []
  | (.error b, _) :: _ => .error (.broken b)
  | (.ok k, d) :: fs => do
    let a ← r m d
    let rest ← entries r m fs
    .ok ((k, a) :: rest)

/-- An object with free keys; of two fields under one key the later one counts. -/
def table (r : Reader α) : Reader (Table α) := fun m d =>
  match d with
  | .object fs stop => do
    let es ← entries r m fs
    match stop with
    | some b => .error (.broken b)
    | none => .ok (Table.ofList es)
  | d => .error (noContainer d)

/-- A named choice without content: its name, or an object with that name as its only key and `null`
under it. -/
def choice (choose : String → Option α) : Reader α := fun m d =>
  match d with
  | .string s =>
    match choose s with
    | some a => .ok a
    | none => .error (.unknownVariant s)
  | .object fields stop =>
    match m, fields with
    | .memory, [(.ok k, content)] => single k content
    | .memory, _ => .error .invalidValue
    | .text, (.ok k, content) :: rest => do
      let a ← single k content
      if rest ≠ [] then .error (.broken .malformed)
      else
        match stop with
        | some b => .error (.broken b)
        | none => .ok a
    | .text, (.error b, _) :: _ => .error (.broken b)
    | .text, [] => .error (.broken (stop.getD .malformed))
  | .unusable _ => .error (.broken .malformed)
  | .broken h => .error (.broken h.chosen)
  | _ =>
    match m with
    | .memory => .error .invalidType
    | .text => .error (.broken .malformed)
where
  single (k : String) (content : Draft) : Except ReadError α :=
    match choose k with
    | none => .error (.unknownVariant k)
    | some a =>
      match content with
      | .null => .ok a
      | d => .error (mismatch d)

/-- A value held in memory. -/
def value (r : Reader α) (j : Json) : Except ReadError α := r .memory (Draft.ofJson j)

/-- A whole text: behind the value there may be gaps only. -/
def document (r : Reader α) (text : String) : Except ReadError α := do
  let (d, trailing) := Draft.ofText text
  let a ← r .text d
  if trailing then .error (.broken .malformed) else .ok a

end Reader

end Placement
