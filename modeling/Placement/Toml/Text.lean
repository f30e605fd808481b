import Placement.Toml.Scalar

/-!
# TOML text

A document is a sequence of lines, some of which hold a statement: a header, a doubled header, or a
key with its value. A value without line ends in it leaves the rest of its line to a comment.
-/

namespace Placement

namespace Toml

/-! ### Line ends -/

/-- What follows a comment, if one stands here. -/
def skipComment (cs : List Char) : List Char :=
  match cs with
  | '#' :: rest => rest.dropWhile isText
  | cs => cs

/-- What follows a line on which there is nothing more but a comment; the text may end with it. -/
def lineEnd? (cs : List Char) : Option (List Char) :=
  match skipComment (skipGaps cs) with
  | [] => some []
  | cs => newline? cs

/-- Skips gaps, line ends and comments, as between the items of an array. -/
def skipLines (comment : Bool) : List Char → List Char
  | [] => []
  | '\n' :: cs => skipLines false cs
  | '\r' :: '\n' :: cs => skipLines false cs
  | c :: cs =>
    if comment then if isText c then skipLines true cs else c :: cs
    else if isGap c then skipLines false cs
    else if c = '#' then skipLines true cs
    else c :: cs

/-! ### Values -/

/-- The items of an array, at most `n`, and its closing bracket. -/
def itemsUpTo (value? : List Char → Option (Toml × List Char)) :
    Nat → List Char → Option (List Toml × List Char)
  | _, ']' :: rest => some ([], rest)
  | 0, _ => none
  | n + 1, cs => do
    let (v, rest) ← value? cs
    match skipLines false rest with
    | ',' :: rest =>
      let (vs, rest) ← itemsUpTo value? n (skipLines false rest)
      return (v :: vs, rest)
    | ']' :: rest => return ([v], rest)
    | _ => none

/-- The fields of an inline table, at most `n` added to some, and its closing bracket. -/
def pairsUpTo (value? : List Char → Option (Toml × List Char)) :
    Nat → Table Toml → List Char → Option (Table Toml × List Char)
  | 0, _, _ => none
  | n + 1, fields, cs => do
    let (path, rest) ← keyPath? cs
    match rest with
    | '=' :: rest =>
      let (v, rest) ← value? (skipGaps rest)
      let fields ← assign fields path v
      match skipGaps rest with
      | ',' :: rest => pairsUpTo value? n fields (skipGaps rest)
      | '\x7d' :: rest => return (fields, rest)
      | _ => none
    | _ => none

/-- A value nested at most `n` deep, and what follows it. -/
def valueWithin : Nat → List Char → Option (Toml × List Char)
  | 0, cs => scalar? cs
  | n + 1, cs =>
    match cs with
    | '[' :: rest =>
      (itemsUpTo (valueWithin n) rest.length (skipLines false rest)).map fun (vs, rest) =>
        (array vs, rest)
    | '\x7b' :: rest =>
      match skipGaps rest with
      | '\x7d' :: rest => some (table .inline [], rest)
      | rest =>
        (pairsUpTo (valueWithin n) rest.length [] rest).map fun (fs, rest) =>
          (table .inline fs, rest)
    | cs => scalar? cs

def value? (cs : List Char) : Option (Toml × List Char) := valueWithin nestingLimit cs

/-! ### Statements -/

inductive Statement where
  | header (path : List String)
  /-- A doubled header, for an array of tables. -/
  | element (path : List String)
  | entry (path : List String) (v : Toml)

/-- A statement at the front of a text, and what follows it on its line. -/
def statement? (cs : List Char) : Option (Statement × List Char) :=
  match skipGaps cs with
  | '[' :: '[' :: rest => do
    let (path, rest) ← keyPath? (skipGaps rest)
    match rest with
    | ']' :: ']' :: rest => return (.element path, rest)
    | _ => none
  | '[' :: rest => do
    let (path, rest) ← keyPath? (skipGaps rest)
    match rest with
    | ']' :: rest => return (.header path, rest)
    | _ => none
  | cs => do
    let (path, rest) ← keyPath? cs
    match rest with
    | '=' :: rest => (value? (skipGaps rest)).map fun (v, rest) => (.entry path v, rest)
    | _ => none

/-! ### Documents -/

/-- A document under way and the path of the table that is open. -/
structure Document where
  fields : Table Toml
  current : List String

namespace Document

/-- Sets a key in the table that is open. -/
def set (d : Document) (path : List String) (v : Toml) : Option Document :=
  let change fields := assign fields path v
  (match d.current with
    | [] => change d.fields
    | current => reach (revised change) d.fields current).map fun fields => { d with fields }

def add (d : Document) (s : Statement) : Option Document :=
  match s with
  | .header path => (reach opened d.fields path).map fun fields => { fields, current := path }
  | .element path => (reach extended d.fields path).map fun fields => { fields, current := path }
  | .entry path v => d.set path v

/-- The document with at most `n` more lines. -/
def addLines (d : Document) : Nat → List Char → Option Document
  | _, [] => some d
  | 0, _ => none
  | n + 1, cs =>
    match lineEnd? cs with
    | some rest => addLines d n rest
    | none => do
      let (s, rest) ← statement? cs
      let d ← d.add s
      let rest ← lineEnd? rest
      addLines d n rest

end Document

/-- The table that a text stands for; a byte order mark may go before it. -/
def ofText? (text : String) : Option (Table Toml) :=
  let cs :=
    match text.toList with
    | '\ufeff' :: cs => cs
    | cs => cs
  (Document.addLines { fields := [], current := [] } cs.length cs).map Document.fields

end Toml

end Placement
