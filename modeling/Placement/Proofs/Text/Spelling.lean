import Mathlib.Data.List.Forall2
import Placement.Text.Words

/-!
# Words and spellings

A text falls into its words in one way: `Spaced ws cs` says that `cs` consists of the words `ws`
with blanks of whatever kind and number between them, and perhaps around them. A keyword is spelled
by its letters, each of them in either case.
-/

namespace Placement.Text

variable {c k : Char} {bs cs w : List Char} {ws : List (List Char)} {keyword : String}

/-! ## Words -/

def Blanks (bs : List Char) : Prop := ∀ c ∈ bs, isBlank c = true

/-- At least one character, and no blank. -/
structure IsWord (w : List Char) : Prop where
  some : w ≠ []
  solid : ∀ c ∈ w, isBlank c = false

/-- What is behind a word: nothing, or a blank first. -/
def Parted (cs : List Char) : Prop := ∀ c ∈ cs.head?, isBlank c = true

inductive Spaced : List (List Char) → List Char → Prop
  | blanks {bs : List Char} : Blanks bs → Spaced [] bs
  | word {bs w cs : List Char} {ws : List (List Char)} :
      Blanks bs → IsWord w → Parted cs → Spaced ws cs →
      Spaced (w :: ws) (bs ++ (w ++ cs))

theorem Spaced.cons_blank (hc : isBlank c = true) (h : Spaced ws cs) : Spaced ws (c :: cs) := by
  cases h with
  | blanks hbs => exact .blanks (List.forall_mem_cons.2 ⟨hc, hbs⟩)
  | @word bs w cs ws hbs hw hcs h =>
    have hblanks : Blanks (c :: bs) := List.forall_mem_cons.2 ⟨hc, hbs⟩
    rw [← List.cons_append]
    exact .word hblanks hw hcs h

theorem Spaced.solid (h : Spaced ws cs) : ∀ w ∈ ws, ∀ c ∈ w, isBlank c = false := by
  induction h with
  | blanks _ => exact List.forall_mem_nil _
  | word _ hw _ _ ih => exact List.forall_mem_cons.2 ⟨hw.solid, ih⟩

theorem words_append_blanks (hbs : Blanks bs) (cs : List Char) : words (bs ++ cs) = words cs := by
  induction bs with
  | nil => rfl
  | cons c bs ih =>
    obtain ⟨hc, hbs⟩ := List.forall_mem_cons.1 hbs
    rw [List.cons_append, words_cons_blank hc, ih hbs]

theorem wordsFrom_append (hw : ∀ c ∈ w, isBlank c = false) (cs : List Char) :
    wordsFrom (w ++ cs) = (w ++ (wordsFrom cs).1, (wordsFrom cs).2) := by
  induction w with
  | nil => rfl
  | cons c w ih =>
    obtain ⟨hc, hw⟩ := List.forall_mem_cons.1 hw
    rw [List.cons_append, wordsFrom, ih hw]
    simp [hc]

/-- No word goes on behind a word. -/
theorem Parted.wordsFrom_eq (h : Parted cs) : wordsFrom cs = ([], words cs) := by
  cases cs with
  | nil => rfl
  | cons c cs =>
    have hc : isBlank c = true := h c rfl
    rw [words_cons_blank hc, wordsFrom]
    simp [hc, words]

theorem words_append_word (hw : IsWord w) (hcs : Parted cs) : words (w ++ cs) = w :: words cs := by
  obtain ⟨c, w', rfl⟩ := List.exists_cons_of_ne_nil hw.some
  unfold words
  rw [wordsFrom_append hw.solid, hcs.wordsFrom_eq, List.append_nil]
  rfl

/-- What a text starts with is one of its words, unless it is empty. -/
theorem spaced_words {rest : List Char} (hcs : cs = (wordsFrom cs).1 ++ rest)
    (hsolid : ∀ c ∈ (wordsFrom cs).1, isBlank c = false) (hrest : Parted rest)
    (h : Spaced (wordsFrom cs).2 rest) :
    Spaced (words cs) cs := by
  unfold words
  generalize wordsFrom cs = split at hcs hsolid h
  obtain ⟨_ | ⟨c, w⟩, ws⟩ := split
  · rwa [hcs]
  · rw [hcs]
    have hblanks : Blanks [] := List.forall_mem_nil _
    exact .word hblanks ⟨List.cons_ne_nil c w, hsolid⟩ hrest h

/-- The word that a text starts with, and the words of what is left. -/
theorem spaced_wordsFrom (cs : List Char) : ∃ rest, cs = (wordsFrom cs).1 ++ rest ∧
    (∀ c ∈ (wordsFrom cs).1, isBlank c = false) ∧ Parted rest ∧ Spaced (wordsFrom cs).2 rest := by
  induction cs with
  | nil => exact ⟨[], rfl, by simp [wordsFrom], by simp [Parted], .blanks (List.forall_mem_nil _)⟩
  | cons c cs ih =>
    obtain ⟨rest, hcs, hsolid, hrest, hspaced⟩ := ih
    cases hc : isBlank c with
    | false =>
      refine ⟨rest, ?_, ?_, hrest, ?_⟩
      · simpa [wordsFrom, hc] using hcs
      · simpa [wordsFrom, hc] using hsolid
      · simpa [wordsFrom, hc] using hspaced
    | true =>
      refine ⟨c :: cs, by simp [wordsFrom, hc], by simp [wordsFrom, hc], ?_, ?_⟩
      · exact fun c' hc' => by cases hc'; exact hc
      · simp only [wordsFrom, hc, if_true]
        exact (spaced_words hcs hsolid hrest hspaced).cons_blank hc

/-- A text falls into these words and no others. -/
theorem words_eq_iff : words cs = ws ↔ Spaced ws cs := by
  constructor
  · rintro rfl
    obtain ⟨rest, hcs, hsolid, hrest, hspaced⟩ := spaced_wordsFrom cs
    exact spaced_words hcs hsolid hrest hspaced
  · intro h
    induction h with
    | blanks hbs => simpa [words, wordsFrom, consWord] using words_append_blanks hbs []
    | word hbs hw hcs _ ih => rw [words_append_blanks hbs, words_append_word hw hcs, ih]

/-! ## Letters in either case -/

theorem toNat_toLower (c : Char) :
    c.toLower.toNat = if 65 ≤ c.toNat ∧ c.toNat ≤ 90 then c.toNat + 32 else c.toNat := by
  unfold Char.toLower
  split
  · next h =>
    have hrange : 65 ≤ c.val.toNat ∧ c.val.toNat ≤ 90 := h
    have hshift : ('a'.val - 'A'.val).toNat = 32 := rfl
    have hsum := UInt32.toNat_add c.val ('a'.val - 'A'.val)
    rw [hshift, Nat.mod_eq_of_lt (by omega)] at hsum
    exact hsum.trans (if_pos hrange).symm
  · next h => exact (if_neg h).symm

theorem toNat_toUpper (c : Char) :
    c.toUpper.toNat = if 97 ≤ c.toNat ∧ c.toNat ≤ 122 then c.toNat - 32 else c.toNat := by
  unfold Char.toUpper
  split
  · next h =>
    have hrange : 97 ≤ c.val.toNat ∧ c.val.toNat ≤ 122 := h
    -- The shift down is an addition that wraps around.
    have hshift : ('A'.val - 'a'.val).toNat = 2 ^ 32 - 32 := rfl
    have hsum := UInt32.toNat_add c.val ('A'.val - 'a'.val)
    rw [hshift, show (c.val.toNat + (2 ^ 32 - 32)) % 2 ^ 32 = c.val.toNat - 32 by omega] at hsum
    exact hsum.trans (if_pos hrange).symm
  · next h => exact (if_neg h).symm

/-- The character stands for the letter of a keyword, or its capital. -/
def EitherCase (c k : Char) : Prop := c = k ∨ c = k.toUpper

/-- A `k` has a third form in Unicode, the Kelvin sign. -/
def AnyCase (c k : Char) : Prop := EitherCase c k ∨ (c = '\u212A' ∧ k = 'k')

theorem toLower_eq_iff (hk : k.isUpper = false) : c.toLower = k ↔ EitherCase c k := by
  have hrange : ¬ (65 ≤ k.toNat ∧ k.toNat ≤ 90) := of_decide_eq_false hk
  unfold EitherCase
  simp only [← Char.toNat_inj, toNat_toLower, toNat_toUpper]
  split <;> split <;> omega

theorem lowered_eq_iff (hk : k.isUpper = false) (hkelvin : k ≠ '\u212A') :
    lowered c = k ↔ AnyCase c k := by
  unfold lowered AnyCase
  by_cases h : c = '\u212A'
  · subst h
    have hneither : ¬ EitherCase '\u212A' k := by
      rintro (heq | heq)
      · exact hkelvin heq.symm
      · have hnat := toNat_toUpper k
        rw [← heq] at hnat
        split at hnat
        · next hlow => exact absurd hnat (by have : Char.toNat '\u212A' = 8490 := rfl; omega)
        · exact hkelvin (Char.toNat_inj.1 hnat.symm)
    simp [hneither, eq_comm]
  · rw [if_neg h, toLower_eq_iff hk]
    simp [h]

/-- Written without capital letters, and thus the lower-case form of what spells it. -/
def Keyword (keyword : String) : Prop := ∀ k ∈ keyword.toList, k.isUpper = false ∧ k ≠ '\u212A'

instance (keyword : String) : Decidable (Keyword keyword) := List.decidableBAll _ _

theorem map_eq_iff_forall₂ {f : Char → Char} {R : Char → Char → Prop} {ks : List Char}
    (h : ∀ c, ∀ k ∈ ks, f c = k ↔ R c k) : cs.map f = ks ↔ List.Forall₂ R cs ks := by
  induction ks generalizing cs with
  | nil => simp
  | cons k ks ih =>
    obtain ⟨hk, hks⟩ := List.forall_mem_cons.1 fun k hk => fun c => h c k hk
    cases cs with
    | nil => simp
    | cons c cs =>
      rw [List.map_cons, List.cons.injEq, List.forall₂_cons, hk, ih fun c k hk => hks k hk c]

theorem spells_iff (h : Keyword keyword) :
    spells cs keyword = true ↔ List.Forall₂ AnyCase cs keyword.toList := by
  rw [spells, beq_iff_eq, map_eq_iff_forall₂ fun c k hk => lowered_eq_iff (h k hk).1 (h k hk).2]

theorem sameAscii_iff (h : Keyword keyword) :
    sameAscii (String.ofList cs) keyword = true ↔ List.Forall₂ EitherCase cs keyword.toList := by
  have hlower : keyword.toList.map Char.toLower = keyword.toList :=
    (List.map_congr_left fun k hk => (toLower_eq_iff (h k hk).1).2 (.inl rfl)).trans (List.map_id _)
  rw [sameAscii, beq_iff_eq, String.toList_ofList, hlower]
  exact map_eq_iff_forall₂ fun c k hk => toLower_eq_iff (h k hk).1

end Placement.Text
