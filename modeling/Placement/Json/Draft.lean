import Placement.Json.Basic

/-!
# Drafts

A draft is what a reader of records has in front of it: a value held in memory, or a text as far as
it can be read. In a text the fields stand in their written order, keys may repeat, and the places
where reading has to stop are part of the draft, so that a reader meets the first fault in the order
in which it visits the document.
-/

namespace Placement

/-- Why a text cannot be read on. -/
inductive Break where
  | malformed
  | ended
  deriving DecidableEq, Repr

/-- The fault at a place where a text cannot be read on, as a reader meets it who looks for a value,
who passes over one, or who looks for a named choice, which no number and no word can be. -/
structure Halt where
  read : Break
  passed : Break
  chosen : Break

/-- The same fault for every reader. -/
def Halt.all (b : Break) : Halt := ⟨b, b, b⟩

inductive Draft where
  | null
  | bool (b : Bool)
  | number (n : Number)
  | string (s : String)
  /-- The items, and what stops the text before the closing bracket. -/
  | array (items : List Draft) (stop : Option Break)
  /-- The fields, each under its key or the reason why that cannot be read, and what stops the text
  before the closing bracket. -/
  | object (fields : List (Except Break String × Draft)) (stop : Option Break)
  /-- Well formed, but no value: a number beyond the doubles, half a surrogate pair, nesting too
  deep. -/
  | unusable (content : Draft)
  /-- The text cannot be read on. -/
  | broken (halt : Halt)

namespace Draft

instance : Inhabited Draft := ⟨.null⟩

def isContainer : Draft → Bool
  | .array _ _ => true
  | .object _ _ => true
  | _ => false

mutual
/-- The nesting depth, which bounds every recursion on a draft. -/
def depth : Draft → Nat
  | .array items _ => depthItems items + 1
  | .object fields _ => depthFields fields + 1
  | .unusable content => depth content + 1
  | _ => 1

def depthItems : List Draft → Nat
  | [] => 0
  | d :: ds => max (depth d) (depthItems ds)

def depthFields : List (Except Break String × Draft) → Nat
  | [] => 0
  | (_, d) :: fs => max (depth d) (depthFields fs)
end

mutual
/-- The fault met by who passes over a draft without looking for a value. -/
def passed : Draft → Option Break
  | .array items stop => (passedItems items).or stop
  | .object fields stop => (passedFields fields).or stop
  | .unusable content => passed content
  | .broken h => some h.passed
  | _ => none

def passedItems : List Draft → Option Break
  | [] => none
  | d :: ds => (passed d).or (passedItems ds)

def passedFields : List (Except Break String × Draft) → Option Break
  | [] => none
  | (_, d) :: fs => (passed d).or (passedFields fs)
end

mutual
/-- A value held in memory. -/
def ofJson : Json → Draft
  | .null => .null
  | .bool b => .bool b
  | .number n => .number n
  | .string s => .string s
  | .array items => .array (ofItems items) none
  | .object fields => .object (ofFields fields) none

def ofItems : List Json → List Draft
  | [] => []
  | j :: js => ofJson j :: ofItems js

def ofFields : List (String × Json) → List (Except Break String × Draft)
  | [] => []
  | (k, j) :: fs => (.ok k, ofJson j) :: ofFields fs
end

mutual
/-- The value that a draft stands for, or the first fault in it; of two fields under one key the
later one counts. -/
def toJson : Draft → Except Break Json
  | .null => .ok .null
  | .bool b => .ok (.bool b)
  | .number n => .ok (.number n)
  | .string s => .ok (.string s)
  | .array items stop => do
    let js ← toItems items
    match stop with
    | some b => .error b
    | none => .ok (.array js)
  | .object fields stop => do
    let fs ← toFields fields
    match stop with
    | some b => .error b
    | none => .ok (.object (Table.ofList fs))
  | .unusable _ => .error .malformed
  | .broken h => .error h.read

def toItems : List Draft → Except Break (List Json)
  | [] => .ok []
  | d :: ds => do
    let j ← toJson d
    let js ← toItems ds
    .ok (j :: js)

def toFields : List (Except Break String × Draft) → Except Break (List (String × Json))
  | [] => .ok []
  | (.error b, _) :: _ => .error b
  | (.ok k, d) :: fs => do
    let j ← toJson d
    let rest ← toFields fs
    .ok ((k, j) :: rest)
end

end Draft

end Placement
