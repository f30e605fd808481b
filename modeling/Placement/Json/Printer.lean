import Placement.Json.Basic

/-!
# Printing JSON

The compact form has no blanks; the indented form has two per level and a line per item. Both keep
the order of the fields. A double that is not finite has no JSON form and is printed as `null`.
-/

namespace Placement.Json

/-- How a character stands inside a JSON string. -/
def escapedChar (c : Char) : String :=
  match c with
  | '"' => "\\\""
  | '\\' => "\\\\"
  | '\n' => "\\n"
  | '\r' => "\\r"
  | '\t' => "\\t"
  | '\x08' => "\\b"
  | '\x0c' => "\\f"
  | c =>
    if c.toNat < 0x20 then
      "\\u00" ++ String.ofList
        (if c.toNat < 16 then '0' :: Nat.toDigits 16 c.toNat else Nat.toDigits 16 c.toNat)
    else c.toString

def stringText (s : String) : String :=
  "\"" ++ String.join (s.toList.map escapedChar) ++ "\""

def numberText : Number → String
  | .int i => Decimal.wholeText i
  | .real x => if x.isFinite then (Number.real x).text else "null"

mutual
/-- The compact form. -/
def compact : Json → String
  | .null => "null"
  | .bool b => if b then "true" else "false"
  | .number n => numberText n
  | .string s => stringText s
  | .array items => "[" ++ ",".intercalate (compactItems items) ++ "]"
  | .object fields => "\x7b" ++ ",".intercalate (compactFields fields) ++ "\x7d"

def compactItems : List Json → List String
  | [] => []
  | j :: js => compact j :: compactItems js

def compactFields : List (String × Json) → List String
  | [] => []
  | (k, j) :: fs => (stringText k ++ ":" ++ compact j) :: compactFields fs
end

def indent (level : Nat) : String :=
  "\n" ++ String.ofList (List.replicate (2 * level) ' ')

mutual
/-- The indented form, as it stands at a level of nesting. -/
def indentedAt (level : Nat) : Json → String
  | .array (j :: js) =>
    "[" ++ indent (level + 1) ++
      (("," ++ indent (level + 1)).intercalate (indentedItems (level + 1) (j :: js))) ++
      indent level ++ "]"
  | .object (f :: fs) =>
    "\x7b" ++ indent (level + 1) ++
      (("," ++ indent (level + 1)).intercalate (indentedFields (level + 1) (f :: fs))) ++
      indent level ++ "\x7d"
  | j => compact j

def indentedItems (level : Nat) : List Json → List String
  | [] => []
  | j :: js => indentedAt level j :: indentedItems level js

def indentedFields (level : Nat) : List (String × Json) → List String
  | [] => []
  | (k, j) :: fs => (stringText k ++ ": " ++ indentedAt level j) :: indentedFields level fs
end

def indented (j : Json) : String := indentedAt 0 j

end Placement.Json
