import Placement.Decimal.Layout
import Placement.Decimal.Numeral

/-!
# Printed numbers are read

Every text that a number is printed as spells a number for the free reader: digits, perhaps a point
with digits behind it, perhaps an exponent with its sign, and a minus in front of it all; or else
one of the words for the doubles that are no numbers. No blanks stand around it, so nothing is
trimmed.
-/

namespace Placement.Decimal

variable {ds fs cs tail : List Char} {c : Char}

/-! ## The grammar of what is printed -/

def AllDigits (ds : List Char) : Prop := ∀ c ∈ ds, c.isDigit = true

/-- What may follow the digits: nothing, or an exponent with its sign. -/
inductive Tail : List Char → Prop
  | none : Tail []
  | exponent {sign : Char} {ds : List Char} : sign = '-' ∨ sign = '+' → ds ≠ [] → AllDigits ds →
      Tail ('e' :: sign :: ds)

/-- A number without a sign as it is printed: there are always digits before the point. -/
inductive Printed : List Char → Prop
  | whole {ds tail : List Char} : ds ≠ [] → AllDigits ds → Tail tail → Printed (ds ++ tail)
  | point {ds fs tail : List Char} : ds ≠ [] → AllDigits ds → AllDigits fs → Tail tail →
      Printed (ds ++ '.' :: (fs ++ tail))

theorem allDigits_toDigits (n : Nat) : AllDigits (Nat.toDigits 10 n) :=
  fun _ h => Nat.isDigit_of_mem_toDigits (by decide) (by decide) h

theorem AllDigits.append (hds : AllDigits ds) (hfs : AllDigits fs) : AllDigits (ds ++ fs) :=
  List.forall_mem_append.2 ⟨hds, hfs⟩

theorem allDigits_zeros (n : Nat) : AllDigits (List.replicate n '0') := fun c h => by
  rw [List.eq_of_mem_replicate h]
  rfl

/-! ## Reading it -/

/-- The longest front of one class ends where a character of another stands. -/
theorem span_exact {p : Char → Bool} (hds : ∀ c ∈ ds, p c = true)
    (hcs : ∀ c ∈ cs.head?, p c = false) :
    (ds ++ cs).takeWhile p = ds ∧ (ds ++ cs).dropWhile p = cs := by
  have hstop : cs.takeWhile p = [] ∧ cs.dropWhile p = cs := by
    cases cs with
    | nil => exact ⟨rfl, rfl⟩
    | cons c cs => simp [hcs c rfl]
  rw [List.takeWhile_append_of_pos hds, List.dropWhile_append_of_pos hds, hstop.1, hstop.2,
    List.append_nil]
  exact ⟨rfl, rfl⟩

theorem spanDigits_append (hds : AllDigits ds) (hcs : ∀ c ∈ cs.head?, c.isDigit = false) :
    spanDigits (ds ++ cs) = (ds, cs) := by
  obtain ⟨htake, hdrop⟩ := span_exact hds hcs
  unfold spanDigits
  rw [htake, hdrop]

theorem Tail.head (h : Tail tail) : ∀ c ∈ tail.head?, c = 'e' := by
  cases h with
  | none => exact fun c hc => nomatch hc
  | exponent _ _ _ => exact fun c hc => (Option.some.inj hc).symm

theorem Tail.isDigit_head (h : Tail tail) : ∀ c ∈ tail.head?, c.isDigit = false := fun c hc => by
  rw [h.head c hc]
  rfl

theorem Tail.isSome_readExponent (h : Tail tail) : (readExponent tail).isSome = true := by
  cases h with
  | none => rfl
  | @exponent sign ds hsign hne hds =>
    have hall : ds.all Char.isDigit = true := List.all_eq_true.2 hds
    rcases hsign with rfl | rfl
    · simp [readExponent, readSign, hne, hall]
    · simp [readExponent, readSign, hne, hall]

theorem Printed.isSome_readUnsigned (h : Printed cs) : (readUnsigned cs).isSome = true := by
  unfold readUnsigned
  cases h with
  | @whole ds tail hne hds htail =>
    rw [spanDigits_append hds htail.isDigit_head]
    simp only
    have hexponent := htail.isSome_readExponent
    -- What follows the digits is no point, so there is no fraction to read.
    cases htail with
    | none =>
      rw [if_neg fun hnil => hne hnil.1, Option.isSome_map]
      exact hexponent
    | exponent _ _ _ =>
      rw [if_neg fun hnil => hne hnil.1, Option.isSome_map]
      exact hexponent
  | @point ds fs tail hne hds hfs htail =>
    rw [spanDigits_append hds fun c hc => by cases hc; rfl]
    simp only [spanDigits_append hfs htail.isDigit_head]
    rw [if_neg fun hnil => hne hnil.1, Option.isSome_map]
    exact htail.isSome_readExponent

/-- It starts with a digit, so what stands in front of it is its sign. -/
theorem Printed.readSign_eq (h : Printed cs) : readSign cs = (false, cs) := by
  have hhead : ∃ c rest, cs = c :: rest ∧ c.isDigit = true := by
    cases h with
    | @whole ds tail hne hds _ =>
      obtain ⟨c, rest, rfl⟩ := List.exists_cons_of_ne_nil hne
      exact ⟨c, _, rfl, hds c List.mem_cons_self⟩
    | @point ds fs tail hne hds _ _ =>
      obtain ⟨c, rest, rfl⟩ := List.exists_cons_of_ne_nil hne
      exact ⟨c, _, rfl, hds c List.mem_cons_self⟩
  obtain ⟨c, rest, rfl, hdigit⟩ := hhead
  unfold readSign
  split
  · next heq => cases heq; cases hdigit
  · next heq => cases heq; cases hdigit
  · rfl

/-- With any sign that has been read off, what is left to read spells some double. -/
theorem readFloat_of_sign {minus : Bool} (hsign : readSign cs = (minus, ds)) (h : Printed ds) :
    (readFloat cs).isSome = true := by
  unfold readFloat
  rw [hsign]
  simp only
  split
  · rfl
  · split
    · rfl
    · rw [Option.isSome_map]
      exact h.isSome_readUnsigned

/-! ## Nothing to trim -/

theorem trimmed_eq_self (h : ∀ c ∈ cs, Text.isBlank c = false) : Text.trimmed cs = cs := by
  have hdrop : ∀ {cs : List Char}, (∀ c ∈ cs, Text.isBlank c = false) →
      cs.dropWhile Text.isBlank = cs := by
    intro cs hcs
    cases cs with
    | nil => rfl
    | cons c cs => simp [hcs c List.mem_cons_self]
  unfold Text.trimmed
  rw [hdrop h, hdrop fun c hc => h c (List.mem_reverse.1 hc), List.reverse_reverse]

theorem isBlank_of_isDigit (h : c.isDigit = true) : Text.isBlank c = false := by
  have hrange : 48 ≤ c.toNat ∧ c.toNat ≤ 57 := by
    simpa [Char.isDigit, Char.le_def, UInt32.le_iff_toNat_le] using h
  simp only [Text.isBlank, Bool.or_eq_false_iff, Bool.and_eq_false_iff, decide_eq_false_iff_not,
    beq_eq_false_iff_ne]
  omega

theorem Printed.isBlank (h : Printed cs) : ∀ c ∈ cs, Text.isBlank c = false := by
  have hdigits : ∀ {ds : List Char}, AllDigits ds → ∀ c ∈ ds, Text.isBlank c = false :=
    fun hds c hc => isBlank_of_isDigit (hds c hc)
  have htail : ∀ {tail : List Char}, Tail tail → ∀ c ∈ tail, Text.isBlank c = false := by
    rintro tail (_ | ⟨rfl | rfl, -, hds⟩)
    · exact List.forall_mem_nil _
    · exact List.forall_mem_cons.2 ⟨by decide, List.forall_mem_cons.2 ⟨by decide, hdigits hds⟩⟩
    · exact List.forall_mem_cons.2 ⟨by decide, List.forall_mem_cons.2 ⟨by decide, hdigits hds⟩⟩
  cases h with
  | whole _ hds ht => exact List.forall_mem_append.2 ⟨hdigits hds, htail ht⟩
  | point _ hds hfs ht =>
    exact List.forall_mem_append.2 ⟨hdigits hds,
      List.forall_mem_cons.2 ⟨by decide, List.forall_mem_append.2 ⟨hdigits hfs, htail ht⟩⟩⟩

/-- A printed number spells a double, with a minus in front of it or without. -/
theorem Printed.isSome_ofText (h : Printed cs) (negative : Bool) :
    (ofText (String.ofList (if negative then '-' :: cs else cs))).isSome = true := by
  unfold ofText
  rw [String.toList_ofList]
  cases negative with
  | false =>
    rw [if_neg Bool.false_ne_true, trimmed_eq_self h.isBlank]
    exact readFloat_of_sign h.readSign_eq h
  | true =>
    rw [if_pos rfl, trimmed_eq_self (List.forall_mem_cons.2 ⟨by decide, h.isBlank⟩)]
    exact readFloat_of_sign rfl h

/-! ## What is printed -/

theorem printed_toDigits (n : Nat) : Printed (Nat.toDigits 10 n) := by
  have hwhole := Printed.whole Nat.toDigits_ne_nil (allDigits_toDigits n) .none
  rwa [List.append_nil] at hwhole

theorem digitsValue_toDigits (n : Nat) : digitsValue 0 (Nat.toDigits 10 n) = n :=
  Nat.ofDigitChars_toDigits (by decide) (by decide)

/-- No number but zero starts with a zero. -/
theorem head_toDigits {n : Nat} (h : 0 < n) : ∀ c ∈ (Nat.toDigits 10 n).head?, c ≠ '0' := by
  induction n using Nat.strongRecOn with
  | ind n ih =>
    rw [Nat.toDigits_eq_if (by decide)]
    split
    · next hlt =>
      have hdigits : ∀ n < 10, 0 < n → n.digitChar ≠ '0' := by decide
      rintro c ⟨⟩
      exact hdigits n hlt h
    · next hge =>
      have hfront := ih (n / 10) (by omega) (by omega)
      obtain ⟨c, cs, hcons⟩ : ∃ c cs, Nat.toDigits 10 (n / 10) = c :: cs :=
        List.exists_cons_of_ne_nil Nat.toDigits_ne_nil
      rw [hcons] at hfront ⊢
      exact hfront

theorem toList_wholeText (n : Nat) : (wholeText n).toList = Nat.toDigits 10 n := by
  unfold wholeText
  rw [String.toList_ofList, if_neg (by omega), Int.natAbs_natCast]

theorem isSome_ofText_wholeText (i : Int) : (ofText (wholeText i)).isSome = true := by
  have htext := (printed_toDigits i.natAbs).isSome_ofText (decide (i < 0))
  simpa [wholeText] using htext

theorem printed_positionalText (hne : ds ≠ []) (hds : AllDigits ds) (keepsFraction : Bool)
    (p : Int) :
    Printed (positionalText keepsFraction ds p) := by
  unfold positionalText
  split
  · have hbehind := (allDigits_zeros (-p).toNat).append hds
    have hpoint := Printed.point (List.cons_ne_nil '0' []) (allDigits_zeros 1) hbehind .none
    rwa [List.append_nil] at hpoint
  · next hp =>
    simp only
    split
    · have hfilled : ds ++ List.replicate (p.toNat - ds.length) '0' ≠ [] :=
        List.append_ne_nil_of_left_ne_nil hne _
      cases keepsFraction with
      | true => exact .point hfilled (hds.append (allDigits_zeros _)) (allDigits_zeros 1) .none
      | false => exact .whole hfilled (hds.append (allDigits_zeros _)) .none
    · have hfront : ds.take p.toNat ≠ [] :=
        fun hnil => (List.take_eq_nil_iff.1 hnil).elim (by omega) hne
      have hbehind : AllDigits (ds.drop p.toNat) := fun c hc => hds c (List.mem_of_mem_drop hc)
      have hpoint :=
        Printed.point hfront (fun c hc => hds c (List.mem_of_mem_take hc)) hbehind .none
      rwa [List.append_nil] at hpoint

theorem printed_exponentText (hne : ds ≠ []) (hds : AllDigits ds) (p : Int) :
    Printed (exponentText ds p) := by
  have htail : Tail (['e', if p - 1 < 0 then '-' else '+'] ++ Nat.toDigits 10 (p - 1).natAbs) := by
    refine .exponent ?_ Nat.toDigits_ne_nil (allDigits_toDigits _)
    split
    · exact .inl rfl
    · exact .inr rfl
  have hfirst : ds.take 1 ≠ [] := by simpa using hne
  have hone : AllDigits (ds.take 1) := fun c hc => hds c (List.mem_of_mem_take hc)
  unfold exponentText
  simp only [List.append_assoc]
  split
  · exact .whole hfirst hone htail
  · exact .point hfirst hone (fun c hc => hds c (List.mem_of_mem_drop hc)) htail

theorem Layout.printed_magnitude (l : Layout) (x : Float) : Printed (l.magnitude x) := by
  unfold magnitude
  split
  · cases l.keepsFraction with
    | true => exact .point (List.cons_ne_nil '0' []) (allDigits_zeros 1) (allDigits_zeros 1) .none
    | false => exact .whole (List.cons_ne_nil '0' []) (allDigits_zeros 1) .none
  · simp only
    split
    · exact printed_positionalText Nat.toDigits_ne_nil (allDigits_toDigits _) _ _
    · exact printed_exponentText Nat.toDigits_ne_nil (allDigits_toDigits _) _

/-- Whatever a double is, and in whatever layout, its text spells a double. -/
theorem Layout.isSome_ofText_render (l : Layout) (x : Float) :
    (ofText (l.render x)).isSome = true := by
  unfold render
  by_cases hnan : x.isNaN = true
  · rw [if_pos hnan]
    decide +kernel
  · rw [if_neg hnan]
    simp only
    by_cases hinf : x.isInf = true
    · rw [if_pos hinf]
      cases isNegative x with
      | true => decide +kernel
      | false => decide +kernel
    · rw [if_neg hinf]
      exact (l.printed_magnitude x).isSome_ofText (isNegative x)

end Placement.Decimal
