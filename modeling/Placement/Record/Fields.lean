import Placement.Record.Reader

/-!
# Records

A record is read from an object by its field names or from an array by position. Each field looks
for its own part and reports what it found together with where; of several faults the first in the
document counts, and a missing field counts only if there is none, the first in the order of
declaration.
-/

namespace Placement

/-- The parts of a record as they stand in a document. -/
inductive Parts where
  | named (fields : List (Except Break String × Draft))
  | listed (items : List Draft)

/-- What looking for the parts of a record has found. -/
inductive Finding (α : Type) where
  | found (a : α)
  | missing (e : ReadError)
  | fault (position : Nat) (e : ReadError)

namespace Finding

variable {α β : Type}

def map (f : α → β) : Finding α → Finding β
  | found a => found (f a)
  | missing e => missing e
  | fault i e => fault i e

/-- Both findings; the fault that stands first counts before the other, and any fault before what is
missing. -/
def both : Finding α → Finding β → Finding (α × β)
  | fault i e, fault j e' => if j < i then fault j e' else fault i e
  | fault i e, _ => fault i e
  | _, fault j e' => fault j e'
  | missing e, _ => missing e
  | _, missing e => missing e
  | found a, found b => found (a, b)

def toExcept : Finding α → Except ReadError α
  | found a => .ok a
  | missing e => .error e
  | fault _ e => .error e

end Finding

/-- How to find the parts of a record: the names it knows, the number of its parts, and the search,
which is told the position of the first of them in an array. -/
structure Record (α : Type) where
  names : List String
  arity : Nat
  find : Medium → Nat → Parts → Finding α

namespace Record

variable {α β γ : Type}

def map (f : α → β) (r : Record α) : Record β :=
  { names := r.names, arity := r.arity, find := fun m i ps => (r.find m i ps).map f }

/-- The parts of one record and then those of another. -/
def and (r : Record α) (s : Record β) : Record (α × β) :=
  { names := r.names ++ s.names
    arity := r.arity + s.arity
    find := fun m i ps => (r.find m i ps).both (s.find m (i + r.arity) ps) }

/-- The positions and contents of the fields under one of some names. -/
def occurrences (names : List String) (fields : List (Except Break String × Draft)) :
    List (Nat × Draft) :=
  fields.zipIdx.filterMap fun ((key, d), i) =>
    match key with
    | .ok k => if k ∈ names then some (i, d) else none
    | .error _ => none

/-- The finding for a part that is not there. -/
def absentAs (e : ReadError) : Option α → Finding α
  | some a => .found a
  | none => .missing e

/-- One field, by its name or one of its other names, with the value it has when it is absent, if it
may be. -/
def field (name : String) (others : List String) (r : Reader α) (absent : Option α) : Record α :=
  { names := name :: others
    arity := 1
    find := fun m i ps =>
      match ps with
      | .named fields =>
        match occurrences (name :: others) fields with
        | [] => absentAs (.missingField name) absent
        | (i, d) :: more =>
          match r m d, more with
          | .error e, _ => .fault i e
          | .ok a, [] => .found a
          | .ok _, (j, _) :: _ => .fault j (.duplicateField name)
      | .listed items =>
        match items[i]? with
        | none => absentAs .invalidLength absent
        | some d =>
          match r m d with
          | .error e => .fault i e
          | .ok a => .found a }

def required (name : String) (r : Reader α) : Record α := field name [] r none

def withDefault (name : String) (r : Reader α) (a : α) : Record α := field name [] r (some a)

/-! ### Faults outside the fields -/

/-- A fault that no field is responsible for. -/
def outside (position : Nat) (e : Option ReadError) : Finding Unit :=
  match e with
  | none => .found ()
  | some e => .fault position e

/-- The first fault in a key or in a field that the record does not know. -/
def strayFault (names : List String) (fields : List (Except Break String × Draft)) : Finding Unit :=
  match fields.zipIdx.findSome? fun ((key, d), i) =>
    match key with
    | .error b => some (i, ReadError.broken b)
    | .ok k => if k ∈ names then none else d.passed.map fun b => (i, .broken b) with
  | none => .found ()
  | some (i, e) => .fault i e

/-- Items beyond the last part. -/
def surplus (m : Medium) (arity : Nat) (items : List Draft) : Finding Unit :=
  if arity < items.length then
    .fault arity (match m with
      | .memory => .invalidLength
      | .text => .broken .malformed)
  else .found ()

/-- The record as an object or as an array. -/
def read (r : Record α) : Reader α := fun m d =>
  match d with
  | .object fields stop =>
    ((((r.find m 0 (.named fields)).both (strayFault r.names fields)).map Prod.fst).both
      (outside fields.length (stop.map .broken))).map Prod.fst |>.toExcept
  | .array items stop =>
    ((((r.find m 0 (.listed items)).both (surplus m r.arity items)).map Prod.fst).both
      (outside items.length (stop.map .broken))).map Prod.fst |>.toExcept
  | d => .error (Reader.noContainer d)

/-- The fields that a record does not know, as values. -/
def restOf (names : List String) (fields : List (Except Break String × Draft)) :
    Finding (List (String × Json)) :=
  go 0 fields
where
  go (i : Nat) : List (Except Break String × Draft) → Finding (List (String × Json))
    | [] => .found []
    | (.error b, _) :: _ => .fault i (.broken b)
    | (.ok k, d) :: fs =>
      if k ∈ names then go (i + 1) fs
      else
        match d.toJson with
        | .error b => .fault i (.broken b)
        | .ok j => (go (i + 1) fs).map ((k, j) :: ·)

/-- The record as an object only, with all its other fields; of two of those under one key the later
one counts. -/
def readOpen (r : Record α) : Reader (α × Table Json) := fun m d =>
  match d with
  | .object fields stop =>
    (((r.find m 0 (.named fields)).both ((restOf r.names fields).map Table.ofList)).both
      (outside fields.length (stop.map .broken))).map Prod.fst |>.toExcept
  | d => .error (Reader.noContainer d)

end Record

end Placement
