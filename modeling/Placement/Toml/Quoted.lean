import Placement.Decimal.Numeral

/-!
# TOML strings and keys

A string has escapes between double quotes and none between single ones; three quotes let it go over
several lines. A reader takes the text behind the opening quotes to the characters of the string and
what follows the closing ones.
-/

namespace Placement

namespace Toml

/-! ### Characters -/

def isGap (c : Char) : Bool := c == ' ' || c == '\t'

def skipGaps (cs : List Char) : List Char := cs.dropWhile isGap

/-- Characters that may stand in strings and comments. -/
def isText (c : Char) : Bool := c == '\t' || (0x20 ≤ c.toNat && c.toNat != 0x7f)

def isBare (c : Char) : Bool := c.isAlphanum || c == '-' || c == '_'

/-- What follows a line end, which is a line feed with or without a carriage return before it. -/
def newline? (cs : List Char) : Option (List Char) :=
  match cs with
  | '\n' :: rest => some rest
  | '\r' :: '\n' :: rest => some rest
  | _ => none

/-! ### Escapes -/

/-- The character of a one-letter escape. -/
def escape? (c : Char) : Option Char :=
  match c with
  | '"' => some '"'
  | '\\' => some '\\'
  | 'b' => some '\x08'
  | 'f' => some '\x0c'
  | 'n' => some '\n'
  | 'r' => some '\r'
  | 't' => some '\t'
  | _ => none

/-- The character of a code point in hexadecimal digits. -/
def codePoint? (ds : List Char) : Option Char := do
  let vs ← ds.mapM Decimal.hexValue?
  let n := vs.foldl (fun n v => 16 * n + v) 0
  if n.isValidChar then some (Char.ofNat n) else none

/-! ### Strings -/

def consChar (c : Option Char) (read : Option (List Char × List Char)) :
    Option (List Char × List Char) := do
  let c ← c
  let (cs, rest) ← read
  return (c :: cs, rest)

/-- A string with escapes on one line. -/
def basicString? : List Char → Option (List Char × List Char)
  | [] => none
  | '"' :: rest => some ([], rest)
  | '\\' :: 'u' :: a :: b :: c :: d :: rest =>
    consChar (codePoint? [a, b, c, d]) (basicString? rest)
  | '\\' :: 'U' :: a :: b :: c :: d :: e :: f :: g :: h :: rest =>
    consChar (codePoint? [a, b, c, d, e, f, g, h]) (basicString? rest)
  | '\\' :: c :: rest => consChar (escape? c) (basicString? rest)
  | c :: rest => if isText c then consChar (some c) (basicString? rest) else none

/-- A string without escapes on one line. -/
def literalString? : List Char → Option (List Char × List Char)
  | [] => none
  | '\'' :: rest => some ([], rest)
  | c :: rest => if isText c then consChar (some c) (literalString? rest) else none

/-- Up to two quotes right before the three closing ones belong to the string. -/
def closing (quote : Char) (rest : List Char) : List Char × List Char :=
  let extra := (rest.take 2).takeWhile (· == quote)
  (extra, rest.drop extra.length)

/-- A backslash before the end of a line drops that and all blanks and line ends behind it. -/
def endsLine (cs : List Char) : Bool := (newline? (skipGaps cs)).isSome

/-- A string with escapes on several lines; `joining` says that blanks and line ends are being
dropped. -/
def basicLines? (joining : Bool) : List Char → Option (List Char × List Char)
  | [] => none
  | '"' :: '"' :: '"' :: rest => some (closing '"' rest)
  | '\r' :: '\n' :: rest =>
    if joining then basicLines? true rest else consChar (some '\n') (basicLines? false rest)
  | '\n' :: rest =>
    if joining then basicLines? true rest else consChar (some '\n') (basicLines? false rest)
  | '\\' :: 'u' :: a :: b :: c :: d :: rest =>
    consChar (codePoint? [a, b, c, d]) (basicLines? false rest)
  | '\\' :: 'U' :: a :: b :: c :: d :: e :: f :: g :: h :: rest =>
    consChar (codePoint? [a, b, c, d, e, f, g, h]) (basicLines? false rest)
  | '\\' :: c :: rest =>
    if endsLine (c :: rest) then basicLines? true rest
    else consChar (escape? c) (basicLines? false rest)
  | c :: rest =>
    if joining ∧ isGap c then basicLines? true rest
    else if isText c then consChar (some c) (basicLines? false rest)
    else none

/-- A string without escapes on several lines. -/
def literalLines? : List Char → Option (List Char × List Char)
  | [] => none
  | '\'' :: '\'' :: '\'' :: rest => some (closing '\'' rest)
  | '\r' :: '\n' :: rest => consChar (some '\n') (literalLines? rest)
  | c :: rest => if c = '\n' ∨ isText c then consChar (some c) (literalLines? rest) else none

/-- A string with its quotes; a line end right behind three opening quotes does not count. -/
def quoted? (cs : List Char) : Option (List Char × List Char) :=
  match cs with
  | '"' :: '"' :: '"' :: rest => basicLines? false ((newline? rest).getD rest)
  | '"' :: rest => basicString? rest
  | '\'' :: '\'' :: '\'' :: rest => literalLines? ((newline? rest).getD rest)
  | '\'' :: rest => literalString? rest
  | _ => none

/-! ### Keys -/

/-- A bare key, or a string on one line. -/
def key? (cs : List Char) : Option (String × List Char) :=
  match cs with
  | '"' :: rest => (basicString? rest).map fun (s, rest) => (String.ofList s, rest)
  | '\'' :: rest => (literalString? rest).map fun (s, rest) => (String.ofList s, rest)
  | cs =>
    match cs.takeWhile isBare with
    | [] => none
    | k => some (String.ofList k, cs.dropWhile isBare)

/-- A key of at most `n` parts joined by points, and what follows the gap behind it. -/
def keyPathUpTo : Nat → List Char → Option (List String × List Char)
  | 0, _ => none
  | n + 1, cs => do
    let (k, rest) ← key? cs
    match skipGaps rest with
    | '.' :: rest =>
      let (ks, rest) ← keyPathUpTo n (skipGaps rest)
      return (k :: ks, rest)
    | rest => return ([k], rest)

/-- Keys have no more parts and values no more levels than this. -/
def nestingLimit : Nat := 79

/-- A key, perhaps dotted. -/
def keyPath? (cs : List Char) : Option (List String × List Char) := keyPathUpTo nestingLimit cs

end Toml

end Placement
