import Mathlib.Algebra.Group.Nat.Defs
import Placement.Proofs.Decimal.Printed
import Placement.Proofs.Table
import Placement.Toml.Text

/-!
# Written documents are read

A document of one table, with its header on the first line and then a line for each field, is read
as that table. A line is read by itself, whatever follows it: the key ends before the gap, and the
value before the line end.
-/

namespace Placement.Toml

variable {cs rest key ds : List Char} {c : Char} {v : Toml} {n : Nat}

/-! ## Lines -/

theorem lineEnd?_newline (rest : List Char) : lineEnd? ('\n' :: rest) = some rest := rfl

theorem skipGaps_cons (h : isGap c = false) : skipGaps (c :: cs) = c :: cs := by
  unfold skipGaps
  rw [List.dropWhile_cons_of_neg (by simp [h])]

/-- A line that starts with a character of some other kind has something on it. -/
theorem lineEnd?_eq_none (hgap : isGap c = false) (hc : c ∉ ['#', '\n', '\r']) :
    lineEnd? (c :: cs) = none := by
  simp only [List.mem_cons, List.not_mem_nil, or_false, not_or] at hc
  obtain ⟨hcomment, hfeed, hreturn⟩ := hc
  unfold lineEnd?
  rw [skipGaps_cons hgap]
  have hskip : skipComment (c :: cs) = c :: cs := by
    unfold skipComment
    split
    · next heq => exact absurd (List.cons.inj heq).1 hcomment
    · rfl
  rw [hskip]
  change newline? (c :: cs) = none
  unfold newline?
  split
  · next heq => exact absurd (List.cons.inj heq).1 hfeed
  · next heq => exact absurd (List.cons.inj heq).1 hreturn
  · rfl

/-! ## Keys -/

/-- A key that needs no quotes. -/
structure Bare (key : List Char) : Prop where
  some : key ≠ []
  bare : ∀ c ∈ key, isBare c = true

instance (key : List Char) : Decidable (Bare key) :=
  decidable_of_iff (key ≠ [] ∧ key.all isBare = true)
    ⟨fun h => ⟨h.1, List.all_eq_true.1 h.2⟩, fun h => ⟨h.some, List.all_eq_true.2 h.bare⟩⟩

/-- What a bare key starts with. -/
theorem Bare.exists_cons (h : Bare key) : ∃ c cs, key = c :: cs ∧ isBare c = true := by
  obtain ⟨c, cs, rfl⟩ := List.exists_cons_of_ne_nil h.some
  exact ⟨c, cs, rfl, h.bare c List.mem_cons_self⟩

theorem ne_of_class {p : Char → Bool} {d : Char} (hc : p c = true) (hd : p d = false) : c ≠ d := by
  rintro rfl
  exact Bool.false_ne_true (hd.symm.trans hc)

theorem isGap_of_isBare (hc : isBare c = true) : isGap c = false := by
  have hspace : c ≠ ' ' := ne_of_class hc (by decide)
  have htab : c ≠ '\t' := ne_of_class hc (by decide)
  simp [isGap, hspace, htab]

theorem key?_bare (h : Bare key) (hrest : ∀ c ∈ rest.head?, isBare c = false) :
    key? (key ++ rest) = some (String.ofList key, rest) := by
  obtain ⟨htake, hdrop⟩ := Decimal.span_exact h.bare hrest
  obtain ⟨c, key, rfl, hc⟩ := h.exists_cons
  unfold key?
  split
  · next heq => exact absurd (List.cons.inj heq).1 (ne_of_class hc (by decide))
  · next heq => exact absurd (List.cons.inj heq).1 (ne_of_class hc (by decide))
  · rw [htake, hdrop]

/-- A bare key with a gap behind it, and not a point. -/
theorem keyPath?_bare (h : Bare key) (rest : List Char) (hrest : ∀ c ∈ rest.head?, isBare c = false)
    (hpoint : ∀ c ∈ (skipGaps rest).head?, c ≠ '.') :
    keyPath? (key ++ rest) = some ([String.ofList key], skipGaps rest) := by
  change keyPathUpTo (78 + 1) (key ++ rest) = _
  rw [keyPathUpTo, key?_bare h hrest]
  simp only [Option.bind_eq_bind, Option.bind_some]
  split
  · next heq => exact absurd rfl (hpoint '.' (by rw [heq]; rfl))
  · rfl

/-! ## Statements -/

theorem statement?_header (h : Bare key) : statement? ('[' :: (key ++ ']' :: rest)) =
    some (.header [String.ofList key], rest) := by
  have hpath := keyPath?_bare h (']' :: rest) (by rintro c ⟨⟩; decide) (by rintro c ⟨⟩; decide)
  obtain ⟨c, key, rfl, hc⟩ := h.exists_cons
  unfold statement?
  rw [skipGaps_cons (by decide)]
  split
  · next heq => exact absurd (List.cons.inj (List.cons.inj heq).2).1 (ne_of_class hc (by decide))
  · next heq =>
    obtain ⟨-, rfl⟩ := List.cons.inj heq
    rw [List.cons_append, skipGaps_cons (isGap_of_isBare hc), ← List.cons_append, hpath]
    rfl
  · next hnot => exact absurd rfl (hnot _)

theorem statement?_entry (h : Bare key) (hcs : ∀ c ∈ cs.head?, isGap c = false)
    (hv : value? cs = some (v, rest)) :
    statement? (key ++ ' ' :: '=' :: ' ' :: cs) = some (.entry [String.ofList key] v, rest) := by
  have hpath :=
    keyPath?_bare h (' ' :: '=' :: ' ' :: cs) (by rintro c ⟨⟩; decide) (by rintro c ⟨⟩; decide)
  have hgaps : skipGaps (' ' :: cs) = cs := by
    cases cs with
    | nil => rfl
    | cons c cs =>
      change skipGaps (c :: cs) = _
      exact skipGaps_cons (hcs c rfl)
  obtain ⟨c, key, rfl, hc⟩ := h.exists_cons
  unfold statement?
  rw [List.cons_append, skipGaps_cons (isGap_of_isBare hc), ← List.cons_append]
  split
  · next heq => exact absurd (List.cons.inj heq).1 (ne_of_class hc (by decide))
  · next heq => exact absurd (List.cons.inj heq).1 (ne_of_class hc (by decide))
  · rw [hpath]
    change (value? (skipGaps (' ' :: cs))).map _ = _
    rw [hgaps, hv]
    rfl

/-! ## Values -/

/-- A character that stands for itself between double quotes. -/
def isPlain (c : Char) : Bool := isText c && c != '"' && c != '\\'

theorem isPlain_iff : isPlain c = true ↔ isText c = true ∧ c ≠ '"' ∧ c ≠ '\\' := by
  simp [isPlain, and_assoc]

/-- How strings without escapes and whole numbers that are not negative are written. -/
inductive Written : Toml → List Char → Prop
  | string {cs : List Char} : (∀ c ∈ cs, isPlain c = true) → Written (.string (String.ofList cs))
      ('"' :: (cs ++ ['"']))
  | integer {n : Nat} : n < 2 ^ 63 → Written (.integer (Int64.ofInt n)) (Nat.toDigits 10 n)

theorem basicString?_plain (h : ∀ c ∈ cs, isPlain c = true) (rest : List Char) :
    basicString? (cs ++ '"' :: rest) = some (cs, rest) := by
  induction cs with
  | nil => rfl
  | cons c cs ih =>
    obtain ⟨hc, hcs⟩ := List.forall_mem_cons.1 h
    obtain ⟨htext, hquote, hescape⟩ := isPlain_iff.1 hc
    rw [List.cons_append]
    unfold basicString?
    split
    · next heq => cases heq
    · next heq => exact absurd (List.cons.inj heq).1 hquote
    · next heq => exact absurd (List.cons.inj heq).1 hescape
    · next heq => exact absurd (List.cons.inj heq).1 hescape
    · next heq => exact absurd (List.cons.inj heq).1 hescape
    · next heq =>
      obtain ⟨rfl, rfl⟩ := List.cons.inj heq
      rw [if_pos htext, ih hcs]
      rfl

theorem value?_scalar (hc : c ∉ ['[', '\x7b']) : value? (c :: cs) = scalar? (c :: cs) := by
  simp only [List.mem_cons, List.not_mem_nil, or_false, not_or] at hc
  change valueWithin (78 + 1) (c :: cs) = _
  unfold valueWithin
  split
  · next heq => exact absurd (List.cons.inj heq).1 hc.1
  · next heq => exact absurd (List.cons.inj heq).1 hc.2
  · rfl

theorem quoted?_plain (h : ∀ c ∈ cs, isPlain c = true) (rest : List Char) :
    quoted? ('"' :: (cs ++ '"' :: '\n' :: rest)) = some (cs, '\n' :: rest) := by
  have hread := basicString?_plain h ('\n' :: rest)
  unfold quoted?
  split
  · next heq =>
    -- Three quotes do not come together: either a character stands between the first two, or the
    -- line ends.
    cases cs with
    | nil => cases heq
    | cons c cs =>
      obtain ⟨-, hquote, -⟩ := isPlain_iff.1 (h c List.mem_cons_self)
      exact absurd (List.cons.inj (List.cons.inj heq).2).1 hquote
  · next heq =>
    obtain ⟨-, rfl⟩ := List.cons.inj heq
    exact hread
  · next heq => cases heq
  · next heq => cases heq
  · next _ hnot _ _ => exact absurd rfl (hnot _)

/-! ### Numbers -/

theorem ungroupedFrom_digits (h : Decimal.AllDigits ds) : ∀ after, (ds = [] → after = true) →
    ungroupedFrom Char.isDigit after ds = some ds := by
  induction ds with
  | nil =>
    intro after hafter
    rw [ungroupedFrom, if_pos (hafter rfl)]
  | cons c ds ih =>
    intro after _
    obtain ⟨hc, hds⟩ := List.forall_mem_cons.1 h
    have hne : c ≠ '_' := by
      rintro rfl
      cases hc
    rw [ungroupedFrom, if_neg hne, if_pos hc, ih hds true fun _ => rfl]
    rfl

theorem wholeDigits?_toDigits (n : Nat) :
    wholeDigits? (Nat.toDigits 10 n) = some (Nat.toDigits 10 n) := by
  have hdigits : digits? (Nat.toDigits 10 n) = some (Nat.toDigits 10 n) :=
    ungroupedFrom_digits (Decimal.allDigits_toDigits n) false fun hnil =>
      absurd hnil Nat.toDigits_ne_nil
  unfold wholeDigits?
  rw [hdigits]
  split
  · next c cs heq =>
    have hdigits := Option.some.inj heq
    rcases Nat.eq_zero_or_pos n with rfl | hn
    · cases hdigits
    · exact absurd rfl (Decimal.head_toDigits hn '0' (by rw [hdigits]; rfl))
  · rfl

theorem decimalInteger?_toDigits (h : n < 2 ^ 63) :
    decimalInteger? (Nat.toDigits 10 n) = some (Int64.ofInt n) := by
  unfold decimalInteger?
  rw [(Decimal.printed_toDigits n).readSign_eq]
  dsimp only
  rw [wholeDigits?_toDigits]
  change word? (if false = true then _ else _) = _
  rw [if_neg Bool.false_ne_true, Decimal.digitsValue_toDigits, word?, if_pos]
  have hmin : Int64.minValue.toInt = -2 ^ 63 := by decide
  have hmax : Int64.maxValue.toInt = 2 ^ 63 - 1 := by decide
  omega

theorem exists_digit (hne : ds ≠ []) (h : Decimal.AllDigits ds) :
    ∃ c cs, ds = c :: cs ∧ c.isDigit = true := by
  obtain ⟨c, cs, rfl⟩ := List.exists_cons_of_ne_nil hne
  exact ⟨c, cs, rfl, h c List.mem_cons_self⟩

theorem token?_toDigits (h : n < 2 ^ 63) :
    token? (Nat.toDigits 10 n) = some (.integer (Int64.ofInt n)) := by
  have hinteger : integer? (Nat.toDigits 10 n) = some (Int64.ofInt n) := by
    rw [integer?, decimalInteger?_toDigits h]
    rfl
  obtain ⟨c, cs, hds, hc⟩ := exists_digit Nat.toDigits_ne_nil (Decimal.allDigits_toDigits n)
  unfold token?
  rw [if_neg, if_neg, hinteger]
  · rfl
  · rw [hds]
    rintro heq
    cases heq
    cases hc
  · rw [hds]
    rintro heq
    cases heq
    cases hc

/-! ### Digits are no moment -/

/-- Behind a fixed number of digits of a word there are more of them, or the line ends. -/
theorem fixed?_digits (h : Decimal.AllDigits ds) {k m : Nat} {out : List Char}
    (hfixed : Moment.fixed? k (ds ++ '\n' :: rest) = some (m, out)) :
    ∃ c ∈ out.head?, c.isDigit = true ∨ c = '\n' := by
  unfold Moment.fixed? at hfixed
  dsimp only at hfixed
  split at hfixed
  · next hdigits =>
    cases hfixed
    have hk : k ≤ ds.length := by
      by_contra hlt
      obtain ⟨j, rfl⟩ := Nat.exists_eq_add_of_lt (Nat.lt_of_not_le hlt)
      have hfeed : '\n' ∈ (ds ++ '\n' :: rest).take (ds.length + j + 1) := by
        rw [Nat.add_assoc, List.take_length_add_append, List.take_succ_cons]
        exact List.mem_append_right _ List.mem_cons_self
      exact absurd (List.all_eq_true.1 hdigits.2 _ hfeed) (by decide)
    rw [List.drop_append_of_le_length hk]
    cases hdrop : ds.drop k with
    | nil => exact ⟨'\n', rfl, .inr rfl⟩
    | cons c cs => exact ⟨c, rfl, .inl (h c (List.mem_of_mem_drop (hdrop ▸ List.mem_cons_self)))⟩
  · cases hfixed

theorem behind?_digits {out : List Char} {d : Char} (hd : d.isDigit = false) (hfeed : d ≠ '\n')
    (h : ∃ c ∈ out.head?, c.isDigit = true ∨ c = '\n') : Moment.behind? d out = none := by
  obtain ⟨c, hc, hkind⟩ := h
  cases out with
  | nil => cases hc
  | cons c' out =>
    cases hc
    refine if_neg ?_
    rintro rfl
    rcases hkind with hdigit | heq
    · exact Bool.false_ne_true (hd.symm.trans hdigit)
    · exact hfeed heq

theorem moment_digits (h : Decimal.AllDigits ds) (rest : List Char) :
    Moment.ofChars? (ds ++ '\n' :: rest) = none := by
  have hday : Moment.day? (ds ++ '\n' :: rest) = none := by
    unfold Moment.day?
    cases hfixed : Moment.fixed? 4 (ds ++ '\n' :: rest) with
    | none => rfl
    | some year =>
      change (Moment.behind? '-' year.2 >>= _) = none
      rw [behind?_digits rfl (by decide) (fixed?_digits h hfixed)]
      rfl
  have htime : Moment.timeOfDay? (ds ++ '\n' :: rest) = none := by
    unfold Moment.timeOfDay? Moment.hourMinute?
    cases hfixed : Moment.fixed? 2 (ds ++ '\n' :: rest) with
    | none => rfl
    | some hour =>
      change ((Moment.behind? ':' hour.2 >>= _) >>= _) = none
      rw [behind?_digits rfl (by decide) (fixed?_digits h hfixed)]
      rfl
  unfold Moment.ofChars?
  rw [hday, htime]
  rfl

/-! ### Values on a line -/

theorem isTokenEnd_of_isDigit (hc : c.isDigit = true) : isTokenEnd c = false := by
  rw [Bool.eq_false_iff]
  intro hend
  simp only [isTokenEnd, isGap, Bool.or_eq_true, beq_iff_eq, or_assoc] at hend
  rcases hend with rfl | rfl | rfl | rfl | rfl | rfl | rfl | rfl <;> exact absurd hc (by decide)

theorem scalar?_toDigits (h : n < 2 ^ 63) (rest : List Char) :
    scalar? (Nat.toDigits 10 n ++ '\n' :: rest) =
      some (.integer (Int64.ofInt n), '\n' :: rest) := by
  have hdigits := Decimal.allDigits_toDigits n
  have hword : ∀ c ∈ Nat.toDigits 10 n, (!isTokenEnd c) = true := fun c hc => by
    rw [isTokenEnd_of_isDigit (hdigits c hc)]
    rfl
  have hstop : ∀ c ∈ ('\n' :: rest).head?, (!isTokenEnd c) = false := by
    rintro c ⟨⟩
    rfl
  obtain ⟨htake, hdrop⟩ := Decimal.span_exact hword hstop
  have hmoment := moment_digits hdigits rest
  obtain ⟨c, cs, hds, hc⟩ := exists_digit Nat.toDigits_ne_nil hdigits
  unfold scalar?
  split
  · next heq =>
    rw [hds] at heq
    exact absurd (List.cons.inj heq).1 (ne_of_class hc (by decide))
  · next heq =>
    rw [hds] at heq
    exact absurd (List.cons.inj heq).1 (ne_of_class hc (by decide))
  · rw [hmoment, htake, hdrop, token?_toDigits h]
    rfl

namespace Written

theorem value?_eq (h : Written v cs) (rest : List Char) :
    value? (cs ++ '\n' :: rest) = some (v, '\n' :: rest) := by
  cases h with
  | @string cs hcs =>
    rw [List.cons_append, List.append_assoc, value?_scalar (by decide)]
    change (quoted? ('"' :: (cs ++ '"' :: '\n' :: rest))).map _ = _
    rw [quoted?_plain hcs]
    rfl
  | @integer n hn =>
    obtain ⟨c, cs, hds, hc⟩ := exists_digit Nat.toDigits_ne_nil (Decimal.allDigits_toDigits n)
    have hbracket : c ≠ '[' := ne_of_class hc (by decide)
    have hbrace : c ≠ '\x7b' := ne_of_class hc (by decide)
    rw [← scalar?_toDigits hn rest, hds]
    exact value?_scalar (by simp [hbracket, hbrace])

theorem head (h : Written v cs) : ∀ c ∈ (cs ++ rest).head?, isGap c = false := by
  cases h with
  | string _ =>
    rintro c ⟨⟩
    decide
  | @integer n _ =>
    obtain ⟨c, cs, hds, hc⟩ := exists_digit Nat.toDigits_ne_nil (Decimal.allDigits_toDigits n)
    rw [hds]
    rintro c ⟨⟩
    exact isGap_of_isBare (by simp [isBare, Char.isAlphanum, hc])

end Written

/-! ## Documents -/

/-- The statement on a line. -/
inductive Line : Statement → List Char → Prop
  | header {key : List Char} : Bare key → Line (.header [String.ofList key]) ('[' :: (key ++ [']']))
  | entry {key cs : List Char} {v : Toml} : Bare key → Written v cs →
      Line (.entry [String.ofList key] v) (key ++ ' ' :: '=' :: ' ' :: cs)

/-- The statements of a text, each on its line. -/
inductive Lines : List Statement → List Char → Prop
  | nil : Lines [] []
  | cons {s : Statement} {line cs : List Char} {ss : List Statement} : Line s line → Lines ss cs →
      Lines (s :: ss) (line ++ '\n' :: cs)

variable {s : Statement} {ss : List Statement} {line : List Char}

theorem Line.read (h : Line s line) (rest : List Char) :
    line ≠ [] ∧ lineEnd? (line ++ '\n' :: rest) = none ∧
    statement? (line ++ '\n' :: rest) = some (s, '\n' :: rest) := by
  cases h with
  | @header key hkey =>
    refine ⟨List.cons_ne_nil _ _, lineEnd?_eq_none (by decide) (by decide), ?_⟩
    rw [List.cons_append, List.append_assoc]
    exact statement?_header hkey
  | @entry key cs v hkey hv =>
    have hentry := statement?_entry hkey hv.head (hv.value?_eq rest)
    obtain ⟨c, key, rfl, hc⟩ := hkey.exists_cons
    refine ⟨List.cons_ne_nil _ _, lineEnd?_eq_none (isGap_of_isBare hc) ?_, ?_⟩
    · have hcomment : c ≠ '#' := ne_of_class hc (by decide)
      have hfeed : c ≠ '\n' := ne_of_class hc (by decide)
      have hreturn : c ≠ '\r' := ne_of_class hc (by decide)
      simp [hcomment, hfeed, hreturn]
    · rw [List.append_assoc]
      exact hentry

theorem Lines.addLines_eq (h : Lines ss cs) : ∀ (d : Document) (n : Nat), cs.length ≤ n →
    d.addLines n cs = ss.foldlM Document.add d := by
  induction h with
  | nil =>
    intro d n _
    rw [Document.addLines]
    rfl
  | @cons s line cs ss hline _ ih =>
    intro d n hn
    obtain ⟨hne, hend, hstatement⟩ := hline.read cs
    rw [List.length_append, List.length_cons] at hn
    obtain ⟨m, rfl⟩ : ∃ m, n = m + 1 := ⟨n - 1, by omega⟩
    rw [Document.addLines, hend, List.foldlM_cons]
    · dsimp only
      rw [hstatement]
      change (d.add s >>= fun d => (lineEnd? ('\n' :: cs) >>= fun rest => d.addLines m rest)) = _
      refine Option.bind_congr fun d' _ => ?_
      rw [lineEnd?_newline]
      exact ih d' m (by omega)
    · exact List.append_ne_nil_of_left_ne_nil hne _

/-! ### Sections -/

/-- Fields are added to the table whose header stands last. -/
theorem foldlM_entries (name : String) : ∀ (entries : List (String × Toml)) (fields : Table Toml),
    (∀ e ∈ entries, Table.get? fields e.1 = none) → (entries.map Prod.fst).Nodup →
    (entries.map fun e => Statement.entry [e.1] e.2).foldlM Document.add
      ⟨[(name, .table .header fields)], [name]⟩ =
      some ⟨[(name, .table .header (entries.foldl (fun t e => Table.put t e.1 e.2) fields))],
        [name]⟩
  | [], fields, _, _ => rfl
  | (key, v) :: entries, fields, hfresh, hkeys => by
    obtain ⟨hkey, hfresh⟩ := List.forall_mem_cons.1 hfresh
    obtain ⟨hnew, hkeys⟩ := List.nodup_cons.1 hkeys
    have hadd : Document.add ⟨[(name, .table .header fields)], [name]⟩ (.entry [key] v) =
        some ⟨[(name, .table .header (Table.put fields key v))], [name]⟩ := by
      simp [Document.add, Document.set, reach, Table.get?, Table.put, revised, assign, hkey]
    rw [List.map_cons, List.foldlM_cons, hadd]
    refine foldlM_entries name entries (Table.put fields key v) (fun e he => ?_) hkeys
    rw [Table.get?_put, if_neg, hfresh e he]
    rintro rfl
    exact hnew (List.mem_map.2 ⟨e, he, rfl⟩)

/-- A header and the fields of its table, no key twice, are read as the one table of the
document. -/
theorem ofText?_section {text name : String} {entries : List (String × Toml)}
    (h : Lines (.header [name] :: entries.map fun e => .entry [e.1] e.2) text.toList)
    (hkeys : (entries.map Prod.fst).Nodup) :
    ofText? text = some [(name, .table .header (Table.ofList entries))] := by
  have hlines := h.addLines_eq ⟨[], []⟩ text.toList.length (Nat.le_refl _)
  have hheader : Document.add ⟨[], []⟩ (.header [name]) =
      some ⟨[(name, .table .header [])], [name]⟩ := rfl
  rw [List.foldlM_cons, hheader] at hlines
  have hread := hlines.trans (foldlM_entries name entries [] (fun _ _ => rfl) hkeys)
  obtain ⟨tail, hhead⟩ : ∃ tail, text.toList = '[' :: tail := by
    generalize text.toList = cs at h
    cases h with
    | cons hline _ =>
      cases hline with
      | header _ => exact ⟨_, rfl⟩
  unfold ofText?
  dsimp only
  split
  · next heq =>
    rw [hhead] at heq
    exact absurd (List.cons.inj heq).1 (by decide)
  · rw [hread]
    rfl

end Placement.Toml
