import Placement.Decimal.Numeral
import Placement.Json.Draft

/-!
# JSON text

`Draft.ofText` reads a text as far as it goes. Nothing is refused here: a fault becomes part of the
draft, at the place where a reader of records will meet it. Nesting beyond `depthLimit` is well
formed but no value.
-/

namespace Placement

namespace Draft

/-- Containers nested deeper than this hold no value. -/
def depthLimit : Nat := 127

def isGap (c : Char) : Bool := c == ' ' || c == '\n' || c == '\t' || c == '\r'

def skipGaps (cs : List Char) : List Char := cs.dropWhile isGap

/-! ### Strings -/

inductive ScannedString where
  | whole (s : String) (rest : List Char)
  /-- Closed, but with half a surrogate pair in it. -/
  | defective (rest : List Char)
  /-- Broken off; `sound` says that there was no half pair before the break. -/
  | cut (sound : Bool) (b : Break)

/-- Four hexadecimal digits. -/
def hexUnit (a b c d : Char) : Option Nat := do
  let a ← Decimal.hexValue? a
  let b ← Decimal.hexValue? b
  let c ← Decimal.hexValue? c
  let d ← Decimal.hexValue? d
  return ((a * 16 + b) * 16 + c) * 16 + d

def isHighHalf (n : Nat) : Bool := 0xD800 ≤ n && n ≤ 0xDBFF

def isLowHalf (n : Nat) : Bool := 0xDC00 ≤ n && n ≤ 0xDFFF

/-- The character of a surrogate pair. -/
def pairedChar (high low : Nat) : Char :=
  Char.ofNat (0x10000 + (high - 0xD800) * 0x400 + (low - 0xDC00))

/-- Why the four digits after `\u` are missing: the text ends, or what stands there are not
digits. -/
def shortUnit (cs : List Char) : Break :=
  if (String.ofList cs).utf8ByteSize < 4 then .ended else .malformed

/-- The text ends before a second escape could be complete. -/
def endsInEscape : List Char → Bool
  | [] => true
  | ['\\'] => true
  | '\\' :: 'u' :: cs => shortUnit cs == .ended
  | _ => false

/-- The character of a one-letter escape. -/
def simpleEscape (c : Char) : Option Char :=
  match c with
  | '"' => some '"'
  | '\\' => some '\\'
  | '/' => some '/'
  | 'b' => some '\x08'
  | 'f' => some '\x0c'
  | 'n' => some '\n'
  | 'r' => some '\r'
  | 't' => some '\t'
  | _ => none

/-- What an escape means, and how many characters behind the backslash belong to it. -/
inductive Escape where
  | char (c : Char) (length : Nat)
  | half (length : Nat)
  /-- Half a pair, then the end of the text before another escape could complete it. -/
  | pending (length : Nat)
  | fault (b : Break)

/-- An escape behind its backslash. -/
def scanEscape (cs : List Char) : Escape :=
  match cs with
  | [] => .fault .ended
  | 'u' :: a :: b :: c :: d :: rest =>
    match hexUnit a b c d with
    | none => .fault .malformed
    | some n =>
      if isLowHalf n then .half 5
      else if isHighHalf n then
        match rest with
        | '\\' :: 'u' :: e :: f :: g :: h :: _ =>
          match hexUnit e f g h with
          | none => .fault .malformed
          | some m => if isLowHalf m then .char (pairedChar n m) 11 else .half 5
        | rest => if endsInEscape rest then .pending 5 else .half 5
      else .char (Char.ofNat n) 5
  | 'u' :: rest => .fault (shortUnit rest)
  | c :: _ =>
    match simpleEscape c with
    | some c => .char c 1
    | none => .fault .malformed

/-- A string behind its opening quote; `acc` holds what has been read, last character first. -/
def scanString (acc : List Char) (sound : Bool) : List Char → ScannedString
  | [] => .cut sound .ended
  | c :: rest =>
    if c = '"' then if sound then .whole (String.ofList acc.reverse) rest else .defective rest
    else if c = '\\' then
      match scanEscape rest with
      | .char c n => scanString (c :: acc) sound (rest.drop n)
      | .half n => scanString acc false (rest.drop n)
      | .pending n => scanString acc sound (rest.drop n)
      | .fault b => .cut sound b
    else if c.toNat < 0x20 then .cut sound .malformed
    else scanString (c :: acc) sound rest
termination_by cs => cs.length
decreasing_by all_goals (simp only [List.length_drop, List.length_cons]; omega)

/-- Half a pair before the break is met first, but not by who passes over the string. -/
def cutHalt (sound : Bool) (b : Break) : Halt :=
  if sound then .all b else ⟨.malformed, b, .malformed⟩

/-! ### Numbers -/

/-- A whole number of at most 64 bits is an integer, minus zero and anything longer a double. -/
def wholeNumber (minus : Bool) (ds : List Char) : Number :=
  let n := Decimal.digitsValue 0 ds
  if minus then
    if 0 < n ∧ n ≤ Nat.pow 2 63 then .int (-(n : Int)) else .real (Decimal.scaledFloat true ds [] 0)
  else if n < UInt64.size then .int n
  else .real (Decimal.scaledFloat false ds [] 0)

/-- A number, unless it is beyond the doubles. -/
def ofNumber (n : Number) : Draft :=
  match n with
  | .real x => if x.isFinite then .number n else .unusable .null
  | .int _ => .number n

/-- Digits that have to stand here: without one the text has ended or is malformed. -/
def missingDigits (cs : List Char) : Draft :=
  .broken ⟨if cs = [] then .ended else .malformed, .malformed, .malformed⟩

/-- The exponent and what follows the number, or the fault. -/
def scanExponent (cs : List Char) : Except Draft (Int × List Char) :=
  match Decimal.readSign cs with
  | (minus, cs) =>
    match Decimal.spanDigits cs with
    | ([], rest) => .error (missingDigits rest)
    | (ds, rest) =>
      let e : Int := Decimal.digitsValue 0 ds
      .ok (if minus then -e else e, rest)

/-- The exponent if there is one. -/
def scanTail (cs : List Char) : Except Draft (Option Int × List Char) :=
  match cs with
  | 'e' :: cs => (scanExponent cs).map fun (e, rest) => (some e, rest)
  | 'E' :: cs => (scanExponent cs).map fun (e, rest) => (some e, rest)
  | cs => .ok (none, cs)

/-- What stands behind the whole part: the fraction and the exponent if the number is no whole
number. -/
def scanFraction (cs : List Char) : Except Draft (Option (List Char × Int) × List Char) :=
  match cs with
  | '.' :: cs =>
    match Decimal.spanDigits cs with
    | ([], rest) => .error (missingDigits rest)
    | (ds, rest) => (scanTail rest).map fun (e, rest) => (some (ds, e.getD 0), rest)
  | cs => (scanTail cs).map fun (e, rest) => (e.map fun e => ([], e), rest)

/-- A number behind its sign. -/
def scanNumber (minus : Bool) (cs : List Char) : Draft × Option (List Char) :=
  match Decimal.spanDigits cs with
  | ([], rest) => (missingDigits rest, none)
  | ('0' :: _ :: _, _) => (.broken (.all .malformed), none)
  | (whole, rest) =>
    match scanFraction rest with
    | .error fault => (fault, none)
    | .ok (none, rest) => (ofNumber (wholeNumber minus whole), some rest)
    | .ok (some (fraction, e), rest) =>
      (ofNumber (.real (Decimal.scaledFloat minus whole fraction e)), some rest)

/-! ### Values -/

/-- A word such as `null`, behind its first letter. -/
def scanWord (word : List Char) (value : Draft) (cs : List Char) : Draft × Option (List Char) :=
  if word.isPrefixOf cs then (value, some (cs.drop word.length))
  else if cs.isPrefixOf word then (.broken ⟨.ended, .ended, .malformed⟩, none)
  else (.broken (.all .malformed), none)

/-- Nesting within the limit is a value. -/
def atDepth (depth : Nat) (d : Draft) : Draft :=
  if depthLimit < depth then .unusable d else d

/-- The separator before the next item, or the end of the container. -/
inductive Turn where
  | closed (rest : List Char)
  | next (rest : List Char)
  /-- A comma, and then the end of the container or of the text. -/
  | dangling (b : Break)
  | stop (b : Break)

def turn (closing : Char) (first : Bool) (cs : List Char) : Turn :=
  match skipGaps cs with
  | [] => .stop .ended
  | c :: rest =>
    if c = closing then .closed rest
    else if first then .next (c :: rest)
    else if c = ',' then
      match skipGaps rest with
      | [] => .dangling .ended
      | d :: rest => if d = closing then .dangling .malformed else .next (d :: rest)
    else .stop .malformed

mutual
/-- A value and the text behind it, `none` if the text broke off in the value. -/
def scanValue : Nat → Nat → List Char → Draft × Option (List Char)
  | 0, _, _ => (.broken (.all .malformed), none)
  | fuel + 1, depth, cs =>
    match skipGaps cs with
    | [] => (.broken (.all .ended), none)
    | '"' :: rest =>
      match scanString [] true rest with
      | .whole s rest => (.string s, some rest)
      | .defective rest => (.unusable .null, some rest)
      | .cut sound b => (.broken (cutHalt sound b), none)
    | '[' :: rest =>
      match scanItems fuel (depth + 1) true rest with
      | (items, stop, rest) => (atDepth (depth + 1) (.array items stop), rest)
    | '\x7b' :: rest =>
      match scanFields fuel (depth + 1) true rest with
      | (fields, stop, rest) => (atDepth (depth + 1) (.object fields stop), rest)
    | 'n' :: rest => scanWord ['u', 'l', 'l'] .null rest
    | 't' :: rest => scanWord ['r', 'u', 'e'] (.bool true) rest
    | 'f' :: rest => scanWord ['a', 'l', 's', 'e'] (.bool false) rest
    | '-' :: rest => scanNumber true rest
    | c :: rest =>
      if c.isDigit then scanNumber false (c :: rest) else (.broken (.all .malformed), none)

def scanItems : Nat → Nat → Bool → List Char → List Draft × Option Break × Option (List Char)
  | 0, _, _, _ => ([], some .malformed, none)
  | fuel + 1, depth, first, cs =>
    match turn ']' first cs with
    | .closed rest => ([], none, some rest)
    | .stop b => ([], some b, none)
    | .dangling b => ([.broken (.all b)], none, none)
    | .next rest =>
      match scanValue fuel depth rest with
      | (d, none) => ([d], none, none)
      | (d, some rest) =>
        match scanItems fuel depth false rest with
        | (ds, stop, rest) => (d :: ds, stop, rest)

def scanFields : Nat → Nat → Bool → List Char →
    List (Except Break String × Draft) × Option Break × Option (List Char)
  | 0, _, _, _ => ([], some .malformed, none)
  | fuel + 1, depth, first, cs =>
    match turn '\x7d' first cs with
    | .closed rest => ([], none, some rest)
    | .stop b => ([], some b, none)
    | .dangling b => ([(.error b, .broken (.all b))], none, none)
    | .next ('"' :: rest) =>
      match scanString [] true rest with
      | .cut sound b => ([(.error (cutHalt sound b).read, .broken (.all b))], none, none)
      | .whole key rest => scanField fuel depth (.ok key) rest
      | .defective rest => scanField fuel depth (.error .malformed) rest
    | .next _ => ([(.error .malformed, .broken (.all .malformed))], none, none)

/-- A field behind its key, and the fields after it. -/
def scanField : Nat → Nat → Except Break String → List Char →
    List (Except Break String × Draft) × Option Break × Option (List Char)
  | 0, _, _, _ => ([], some .malformed, none)
  | fuel + 1, depth, key, cs =>
    match skipGaps cs with
    | [] => ([(key, .broken (.all .ended))], none, none)
    | ':' :: rest =>
      match scanValue fuel depth rest with
      | (d, none) => ([(key, d)], none, none)
      | (d, some rest) =>
        match scanFields fuel depth false rest with
        | (fs, stop, rest) => ((key, d) :: fs, stop, rest)
    | _ => ([(key, .broken (.all .malformed))], none, none)
end

/-- A text as a draft, and whether anything but gaps stands behind the value. -/
def ofText (text : String) : Draft × Bool :=
  let cs := text.toList
  match scanValue (4 * cs.length + 4) 0 cs with
  | (d, none) => (d, false)
  | (d, some rest) => (d, skipGaps rest != [])

end Draft

/-- The value that a text spells. -/
def Json.ofText (text : String) : Except Break Json := do
  let (d, trailing) := Draft.ofText text
  let j ← d.toJson
  if trailing then .error .malformed else .ok j

end Placement
