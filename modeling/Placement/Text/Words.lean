/-!
# Words and their spellings

The Unicode `White_Space` class, trimming, and the maximal blank-free words of a text.

A keyword of ASCII letters is spelled by a text whose lower-case form it is. The only character
outside ASCII whose lower-case form is an ASCII letter is the Kelvin sign, so these rules decide
every such comparison.
-/

namespace Placement.Text

/-! ### Blanks -/

/-- The characters with the Unicode property `White_Space`. -/
def isBlank (c : Char) : Bool :=
  let n := c.toNat
  (9 ≤ n && n ≤ 13) || n == 0x20 || n == 0x85 || n == 0xA0 || n == 0x1680 ||
    (0x2000 ≤ n && n ≤ 0x200A) || n == 0x2028 || n == 0x2029 || n == 0x202F || n == 0x205F ||
    n == 0x3000

theorem isBlank_of_isWhitespace {c : Char} (h : c.isWhitespace) : isBlank c := by
  simp only [Char.isWhitespace, Bool.or_eq_true, decide_eq_true_eq, or_assoc] at h
  rcases h with h | h | h | h <;> subst h <;> decide

/-- The text without its leading and trailing blanks. -/
def trimmed (cs : List Char) : List Char :=
  ((cs.dropWhile isBlank).reverse.dropWhile isBlank).reverse

/-- A word in front of others, unless it is empty. -/
def consWord : List Char → List (List Char) → List (List Char)
  | [], ws => ws
  | w, ws => w :: ws

/-- The word that the text starts with (empty before a blank) and the words after it. -/
def wordsFrom : List Char → List Char × List (List Char)
  | [] => ([], [])
  | c :: cs =>
    let (w, ws) := wordsFrom cs
    if isBlank c then ([], consWord w ws) else (c :: w, ws)

/-- The maximal runs without a blank, from left to right. -/
def words (cs : List Char) : List (List Char) :=
  consWord (wordsFrom cs).1 (wordsFrom cs).2

theorem words_cons_blank {c : Char} (h : isBlank c) (cs : List Char) :
    words (c :: cs) = words cs := by
  simp [words, wordsFrom, h, consWord]

/-! ### Letter case -/

/-- The lower-case form of a character, as far as it is ASCII; any other character stays itself. -/
def lowered (c : Char) : Char :=
  if c = '\u212A' then 'k' else c.toLower

/-- The text spells the keyword, in any letter case. -/
def spells (cs : List Char) (keyword : String) : Bool :=
  cs.map lowered == keyword.toList

/-- Equality up to the case of ASCII letters alone. -/
def sameAscii (a b : String) : Bool :=
  a.toList.map Char.toLower == b.toList.map Char.toLower

end Placement.Text
