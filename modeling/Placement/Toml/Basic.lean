import Placement.Table
import Placement.Toml.Moment

/-!
# TOML documents

The values of a TOML document and the rules by which it grows from one statement to the next. A
header opens its table once; a doubled header adds an element to an array of tables; a dotted key
only goes through tables that no header has opened and ends in a table that dotted keys have made;
no key is set twice.
-/

namespace Placement

/-- How a table came about, which decides what may still be added to it. -/
inductive TableOrigin where
  /-- On the way to the table of a header. -/
  | implied
  | header
  /-- On the way of a dotted key. -/
  | dotted
  /-- Written as a value, and complete. -/
  | inline
  deriving DecidableEq, Repr

inductive Toml where
  | string (s : String)
  | integer (i : Int64)
  | real (x : Float)
  | bool (b : Bool)
  | moment (m : Moment)
  | array (items : List Toml)
  | table (origin : TableOrigin) (fields : List (String × Toml))
  /-- An array of tables; statements add to the last one. -/
  | tables (earlier : List (List (String × Toml))) (last : List (String × Toml))

namespace Toml

instance : Inhabited Toml := ⟨.bool false⟩

/-- Sets a key, which may be dotted, in a table. -/
def assign (fields : Table Toml) (path : List String) (v : Toml) : Option (Table Toml) :=
  match path with
  | [] => none
  | [k] =>
    match Table.get? fields k with
    | none => some (Table.put fields k v)
    | some _ => none
  | k :: l :: ks =>
    match Table.get? fields k with
    | none => (assign [] (l :: ks) v).map fun sub => Table.put fields k (.table .dotted sub)
    | some (.table .dotted sub) =>
      (assign sub (l :: ks) v).map fun sub => Table.put fields k (.table .dotted sub)
    | some (.table .implied sub) =>
      if ks = [] then none
      else (assign sub (l :: ks) v).map fun sub => Table.put fields k (.table .implied sub)
    | some (.tables earlier last) =>
      if ks = [] then none
      else (assign last (l :: ks) v).map fun last => Table.put fields k (.tables earlier last)
    | some _ => none

/-- Changes what stands at the path of a header, on the way through open tables and the last
elements of arrays. -/
def reach (change : Option Toml → Option Toml) (fields : Table Toml) (path : List String) :
    Option (Table Toml) :=
  match path with
  | [] => none
  | [k] => (change (Table.get? fields k)).map (Table.put fields k)
  | k :: ks =>
    match Table.get? fields k with
    | none => (reach change [] ks).map fun sub => Table.put fields k (.table .implied sub)
    | some (.table .inline _) => none
    | some (.table origin sub) =>
      (reach change sub ks).map fun sub => Table.put fields k (.table origin sub)
    | some (.tables earlier last) =>
      (reach change last ks).map fun last => Table.put fields k (.tables earlier last)
    | some _ => none

/-- The table that a header opens. -/
def opened (before : Option Toml) : Option Toml :=
  match before with
  | none => some (.table .header [])
  | some (.table .implied fields) => some (.table .header fields)
  | some _ => none

/-- The array of tables with the element that a doubled header adds. -/
def extended (before : Option Toml) : Option Toml :=
  match before with
  | none => some (.tables [] [])
  | some (.tables earlier last) => some (.tables (earlier ++ [last]) [])
  | some _ => none

/-- The table under a header, changed. -/
def revised (change : Table Toml → Option (Table Toml)) (before : Option Toml) : Option Toml :=
  match before with
  | some (.table origin fields) => (change fields).map (.table origin)
  | some (.tables earlier last) => (change last).map (.tables earlier)
  | _ => none

end Toml

end Placement
