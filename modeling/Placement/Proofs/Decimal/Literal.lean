import Placement.Proofs.Decimal.Printed
import Placement.Proofs.Text.Spelling

/-!
# Literals of doubles

The grammar of the texts that are read as doubles, and that the reader accepts these texts and no
others: a numeral with or without a sign, digits in front of its point or behind it, and an exponent
or none; or one of the words for infinity and for what is not a number, in any letter case and again
with or without a sign.
-/

namespace Placement.Decimal

variable {ds cs body tail : List Char} {minus : Bool} {m : Nat} {e : Int} {x : Float}

/-! ## The grammar -/

/-- A sign, which may be left out, in front of the rest. -/
inductive Signed (body : List Char) : Bool → List Char → Prop
  | bare : Signed body false body
  | plus : Signed body false ('+' :: body)
  | minus : Signed body true ('-' :: body)

/-- What may follow the digits of a numeral. -/
inductive Exponent : Int → List Char → Prop
  | none : Exponent 0 []
  | power {mark : Char} {minus : Bool} {ds cs : List Char} :
      mark = 'e' ∨ mark = 'E' → Signed ds minus cs → ds ≠ [] → AllDigits ds →
      Exponent (if minus then -(digitsValue 0 ds : Int) else digitsValue 0 ds) (mark :: cs)

/-- A numeral without sign, with its mantissa and its power of ten. -/
inductive Unsigned : Nat → Int → List Char → Prop
  | whole {ds tail : List Char} {e : Int} : ds ≠ [] → AllDigits ds → Exponent e tail →
      Unsigned (digitsValue 0 ds) e (ds ++ tail)
  | point {ds fs tail : List Char} {e : Int} :
      ¬ (ds = [] ∧ fs = []) → AllDigits ds → AllDigits fs → Exponent e tail →
      Unsigned (digitsValue 0 (ds ++ fs)) (e - fs.length) (ds ++ '.' :: (fs ++ tail))

/-- The words for infinity. -/
def infiniteWords : List String := ["inf", "infinity"]

/-- All words that are read as doubles. -/
def floatWords : List String := "nan" :: infiniteWords

/-- A text that spells a double. -/
inductive Literal : List Char → Float → Prop
  | nan {minus : Bool} {body cs : List Char} : Signed body minus cs →
      List.Forall₂ Text.EitherCase body "nan".toList → Literal cs notANumber
  | infinite {minus : Bool} {body cs : List Char} {word : String} :
      Signed body minus cs → word ∈ infiniteWords →
      List.Forall₂ Text.EitherCase body word.toList →
        Literal cs (if minus then -infinity else infinity)
  | numeral {minus : Bool} {body cs : List Char} {m : Nat} {e : Int} :
      Signed body minus cs → Unsigned m e body →
      Literal cs (Numeral.toFloat ⟨minus, m, e⟩)

/-! ## Signs -/

theorem signed_readSign (cs : List Char) : Signed (readSign cs).2 (readSign cs).1 cs := by
  unfold readSign
  split
  · exact .minus
  · exact .plus
  · exact .bare

/-- A sign is read off whatever does not start with another one. -/
theorem Signed.readSign_eq (h : Signed body minus cs)
    (hbody : ∀ c ∈ body.head?, c ≠ '-' ∧ c ≠ '+') :
    readSign cs = (minus, body) := by
  cases h with
  | plus => rfl
  | minus => rfl
  | bare =>
    unfold readSign
    split
    · exact absurd rfl (hbody '-' rfl).1
    · exact absurd rfl (hbody '+' rfl).2
    · rfl

theorem AllDigits.head_ne (hds : AllDigits ds) {c : Char} (hc : c.isDigit = false) :
    ∀ d ∈ ds.head?, d ≠ c := by
  rintro d hd rfl
  exact Bool.false_ne_true (hc.symm.trans (hds d (List.mem_of_mem_head? hd)))

/-! ## Exponents -/

theorem readExponent_eq_some : readExponent cs = some e ↔ Exponent e cs := by
  constructor
  · intro h
    cases cs with
    | nil =>
      cases h
      exact .none
    | cons mark cs =>
      rw [readExponent] at h
      by_cases hmark : mark = 'e' ∨ mark = 'E'
      · rw [if_pos hmark] at h
        dsimp only at h
        split at h
        · next hdigits =>
          cases h
          exact .power hmark (signed_readSign cs) hdigits.1 (List.all_eq_true.1 hdigits.2)
        · cases h
      · rw [if_neg hmark] at h
        cases h
  · rintro (_ | ⟨hmark, hsign, hne, hds⟩)
    · rfl
    · rw [readExponent, if_pos hmark,
        hsign.readSign_eq fun c hc => ⟨hds.head_ne rfl c hc, hds.head_ne rfl c hc⟩]
      exact if_pos ⟨hne, List.all_eq_true.2 hds⟩

theorem Exponent.head (h : Exponent e tail) : ∀ c ∈ tail.head?, c = 'e' ∨ c = 'E' := by
  cases h with
  | none => exact fun c hc => nomatch hc
  | power hmark _ _ _ =>
    rintro c ⟨⟩
    exact hmark

theorem Exponent.isDigit_head (h : Exponent e tail) : ∀ c ∈ tail.head?, c.isDigit = false :=
  fun c hc => by
  rcases h.head c hc with rfl | rfl
  · rfl
  · rfl

/-! ## Numerals without sign -/

theorem digitsValue_append (n : Nat) (ds fs : List Char) :
    digitsValue n (ds ++ fs) = digitsValue (digitsValue n ds) fs := List.foldl_append

theorem spanDigits_eq (cs : List Char) :
    cs = (spanDigits cs).1 ++ (spanDigits cs).2 ∧ AllDigits (spanDigits cs).1 :=
  ⟨List.takeWhile_append_dropWhile.symm, fun _ hc => List.all_eq_true.1 List.all_takeWhile _ hc⟩

theorem unsigned_of_readUnsigned (h : readUnsigned cs = some (m, e)) : Unsigned m e cs := by
  unfold readUnsigned at h
  obtain ⟨hcs, hwhole⟩ := spanDigits_eq cs
  generalize spanDigits cs = front at h hcs hwhole
  obtain ⟨whole, rest⟩ := front
  subst hcs
  dsimp only at h hwhole ⊢
  split at h
  · next behind =>
    obtain ⟨hbehind, hfraction⟩ := spanDigits_eq behind
    generalize spanDigits behind = back at h hbehind hfraction
    obtain ⟨fraction, tail⟩ := back
    subst hbehind
    dsimp only at h hfraction ⊢
    split at h
    · cases h
    · next hsome =>
      obtain ⟨exponent, hexponent, heq⟩ := Option.map_eq_some_iff.1 h
      cases heq
      rw [← digitsValue_append]
      exact .point hsome hwhole hfraction (readExponent_eq_some.1 hexponent)
  · split at h
    · cases h
    · next hsome =>
      obtain ⟨exponent, hexponent, heq⟩ := Option.map_eq_some_iff.1 h
      cases heq
      have hnat : exponent - (([] : List Char).length : Int) = exponent := by simp
      rw [hnat]
      exact .whole (fun hnil => hsome ⟨hnil, rfl⟩) hwhole (readExponent_eq_some.1 hexponent)

theorem Unsigned.readUnsigned_eq (h : Unsigned m e cs) : readUnsigned cs = some (m, e) := by
  unfold readUnsigned
  cases h with
  | @whole ds tail e hne hds htail =>
    rw [spanDigits_append hds htail.isDigit_head]
    have hexponent := readExponent_eq_some.2 htail
    have hpoint := htail.head
    dsimp only
    split
    · rcases hpoint '.' rfl with heq | heq
      · exact absurd heq (by decide)
      · exact absurd heq (by decide)
    · rw [if_neg fun hnil => hne hnil.1, hexponent]
      simp [digitsValue]
  | @point ds fs tail e hsome hds hfs htail =>
    rw [spanDigits_append hds fun c hc => by cases hc; rfl]
    simp only [spanDigits_append hfs htail.isDigit_head]
    rw [if_neg hsome, readExponent_eq_some.2 htail, digitsValue_append]
    rfl

theorem readUnsigned_eq_some : readUnsigned cs = some (m, e) ↔ Unsigned m e cs :=
  ⟨unsigned_of_readUnsigned, Unsigned.readUnsigned_eq⟩

/-- A numeral starts with a digit or with its point. -/
theorem Unsigned.head (h : Unsigned m e cs) : ∀ c ∈ cs.head?, c.isDigit = true ∨ c = '.' := by
  cases h with
  | @whole ds tail e hne hds _ =>
    obtain ⟨d, ds, rfl⟩ := List.exists_cons_of_ne_nil hne
    rintro c ⟨⟩
    exact .inl (hds d List.mem_cons_self)
  | @point ds fs tail e _ hds _ _ =>
    cases ds with
    | nil =>
      rintro c ⟨⟩
      exact .inr rfl
    | cons d ds =>
      rintro c ⟨⟩
      exact .inl (hds d List.mem_cons_self)

/-! ## Words -/

/-- The first letters of the words. -/
def initials : List Char := ['n', 'N', 'i', 'I']

theorem keyword_floatWords : ∀ word ∈ floatWords, Text.Keyword word := by decide

theorem initials_plain : ∀ c ∈ initials, c.isDigit = false ∧ c ≠ '-' ∧ c ≠ '+' := by simp [initials]

theorem exists_initial {word : String} (hword : word ∈ floatWords)
    (h : List.Forall₂ Text.EitherCase body word.toList) : ∃ c ∈ initials, c ∈ body.head? := by
  have hfirst : ∃ k ks, word.toList = k :: ks ∧ k ∈ initials ∧ k.toUpper ∈ initials := by
    simp only [floatWords, infiniteWords, List.mem_cons, List.not_mem_nil, or_false] at hword
    rcases hword with rfl | rfl | rfl
    · exact ⟨'n', ['a', 'n'], by decide⟩
    · exact ⟨'i', ['n', 'f'], by decide⟩
    · exact ⟨'i', ['n', 'f', 'i', 'n', 'i', 't', 'y'], by decide⟩
  obtain ⟨k, ks, hword, hlow, hup⟩ := hfirst
  rw [hword] at h
  obtain ⟨c, cs, hc, -, rfl⟩ := List.forall₂_cons_right_iff.1 h
  rcases hc with rfl | rfl
  · exact ⟨c, hlow, rfl⟩
  · exact ⟨_, hup, rfl⟩

theorem Unsigned.not_word (h : Unsigned m e cs) {word : String} (hword : word ∈ floatWords) :
    ¬ Text.sameAscii (String.ofList cs) word = true := by
  intro hsame
  obtain ⟨c, hc, hhead⟩ :=
    exists_initial hword ((Text.sameAscii_iff (keyword_floatWords word hword)).1 hsame)
  rcases h.head c hhead with hdigit | rfl
  · exact Bool.false_ne_true ((initials_plain c hc).1.symm.trans hdigit)
  · exact absurd hc (by decide)

/-- No text spells two of the words. -/
theorem not_nan_of_infinite {word s : String} (hword : word ∈ infiniteWords)
    (h : Text.sameAscii s word = true) :
    ¬ Text.sameAscii s "nan" = true := by
  intro hnan
  have hlower : word.toList.map Char.toLower = "nan".toList.map Char.toLower :=
    (beq_iff_eq.1 h).symm.trans (beq_iff_eq.1 hnan)
  simp only [infiniteWords, List.mem_cons, List.not_mem_nil, or_false] at hword
  rcases hword with rfl | rfl
  · exact absurd hlower (by decide)
  · exact absurd hlower (by decide)

theorem Signed.readSign_word (h : Signed body minus cs) {word : String} (hword : word ∈ floatWords)
    (hspelled : List.Forall₂ Text.EitherCase body word.toList) : readSign cs = (minus, body) := by
  obtain ⟨c, hc, hhead⟩ := exists_initial hword hspelled
  refine h.readSign_eq fun c' hc' => ?_
  cases Option.some.inj (hc'.symm.trans hhead)
  exact (initials_plain c hc).2

/-! ## Literals -/

theorem literal_of_readFloat (h : readFloat cs = some x) : Literal cs x := by
  unfold readFloat at h
  have hsign := signed_readSign cs
  generalize readSign cs = split at h hsign
  obtain ⟨minus, body⟩ := split
  dsimp only at h hsign
  split at h
  · next hnan =>
    cases h
    exact .nan hsign ((Text.sameAscii_iff (by decide)).1 hnan)
  · split at h
    · next hinfinite =>
      cases h
      rcases hinfinite with hword | hword
      · exact .infinite hsign (by decide) ((Text.sameAscii_iff (by decide)).1 hword)
      · exact .infinite hsign (by decide) ((Text.sameAscii_iff (by decide)).1 hword)
    · obtain ⟨⟨m, e⟩, hnumeral, heq⟩ := Option.map_eq_some_iff.1 h
      cases heq
      exact .numeral hsign (readUnsigned_eq_some.1 hnumeral)

theorem Literal.readFloat_eq (h : Literal cs x) : readFloat cs = some x := by
  unfold readFloat
  cases h with
  | nan hsign hspelled =>
    rw [hsign.readSign_word (show "nan" ∈ floatWords by decide) hspelled]
    exact if_pos ((Text.sameAscii_iff (by decide)).2 hspelled)
  | @infinite minus body cs word hsign hword hspelled =>
    have hlisted : word ∈ floatWords := List.mem_cons_of_mem _ hword
    have hsame := (Text.sameAscii_iff (keyword_floatWords word hlisted)).2 hspelled
    rw [hsign.readSign_word hlisted hspelled]
    dsimp only
    rw [if_neg (not_nan_of_infinite hword hsame), if_pos]
    simp only [infiniteWords, List.mem_cons, List.not_mem_nil, or_false] at hword
    rcases hword with rfl | rfl
    · exact .inl hsame
    · exact .inr hsame
  | @numeral minus body cs m e hsign hnumeral =>
    have hbody : ∀ c ∈ body.head?, c ≠ '-' ∧ c ≠ '+' := by
      refine fun c hc => ⟨?_, ?_⟩
      · rintro rfl
        exact absurd (hnumeral.head _ hc) (by decide)
      · rintro rfl
        exact absurd (hnumeral.head _ hc) (by decide)
    rw [hsign.readSign_eq hbody]
    dsimp only
    rw [if_neg (hnumeral.not_word (by decide)),
      if_neg (not_or.2 ⟨hnumeral.not_word (by decide), hnumeral.not_word (by decide)⟩),
      hnumeral.readUnsigned_eq]
    rfl

/-- The reader accepts the literals and nothing else. -/
theorem readFloat_eq_some : readFloat cs = some x ↔ Literal cs x :=
  ⟨literal_of_readFloat, Literal.readFloat_eq⟩

end Placement.Decimal
