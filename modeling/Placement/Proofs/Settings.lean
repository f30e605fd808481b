import Placement.Proofs.Toml.Written
import Placement.Settings

/-!
# Settings are read as they were written

Settings can be written where their numbers are numbers of TOML, which has 63 bits for those that
are not negative. What has been written is read as the same settings, and whatever has been read
from a text can be written again.
-/

namespace Placement.Settings

variable {s : Settings} {n : UInt64} {v : Toml} {text : String}

/-! ## Numbers -/

theorem wordOf?_toInt64 (h : n.toNat < 2 ^ 63) : wordOf? (.integer n.toInt64) = some n := by
  have hnonneg : 0 ≤ n.toInt64 := by
    rw [Int64.le_iff_toInt_le, ← UInt64.ofNat_toNat (x := n), UInt64.toInt64_ofNat',
      Int64.toInt_ofNat_of_lt h]
    exact Int.natCast_nonneg _
  unfold wordOf?
  dsimp only
  rw [if_pos hnonneg, UInt64.toUInt64_toInt64]

theorem toNat_lt_of_wordOf? (h : wordOf? v = some n) : n.toNat < 2 ^ 63 := by
  unfold wordOf? at h
  split at h
  · next i =>
    split at h
    · next hnonneg =>
      cases h
      have hbound := Int64.toInt_lt i
      rw [Int64.toNat_toUInt64_of_le hnonneg]
      unfold Int64.toNatClampNeg
      omega
    · cases h
  · cases h

/-! ## Writing -/

/-- The numbers that are set are numbers of TOML. -/
def Writable (s : Settings) : Prop :=
  ∀ n, s.deadlineSecs = some n ∨ s.randomSeed = some n → n.toNat < 2 ^ 63

/-- The field of a number, if it is set. -/
def numberEntry (key : String) (x : Option UInt64) : List (String × Toml) :=
  (x.map fun n => (key, Toml.integer n.toInt64)).toList

/-- The fields of the table `solver`. -/
def entries (s : Settings) : List (String × Toml) :=
  ("strategy", .string s.strategy.name) ::
    (numberEntry "deadline_secs" s.deadlineSecs ++ numberEntry "random_seed" s.randomSeed)

theorem exists_numberLine? {key : String} {x : Option UInt64} :
    (∃ line, numberLine? key x = some line) ↔ ∀ n, x = some n → n.toNat < 2 ^ 63 := by
  unfold numberLine?
  cases x with
  | none => simp
  | some n =>
    dsimp only
    split
    · next hn => simpa using hn
    · next hn => simpa using hn

theorem exists_toText? : (∃ text, s.toText? = some text) ↔ s.Writable := by
  have hlines : (∃ text, s.toText? = some text) ↔
      (∃ line, numberLine? "deadline_secs" s.deadlineSecs = some line) ∧
      ∃ line, numberLine? "random_seed" s.randomSeed = some line := by
    unfold toText?
    cases numberLine? "deadline_secs" s.deadlineSecs with
    | none => simp
    | some deadline =>
      cases numberLine? "random_seed" s.randomSeed with
      | none => simp
      | some seed => simp
  rw [hlines, exists_numberLine?, exists_numberLine?]
  constructor
  · rintro ⟨hdeadline, hseed⟩ n (hn | hn)
    · exact hdeadline n hn
    · exact hseed n hn
  · intro h
    exact ⟨fun n hn => h n (.inl hn), fun n hn => h n (.inr hn)⟩

/-- The line of a number holds its field, and there is no line for one that is not set. -/
theorem lines_of_numberLine? {key line : String} {x : Option UInt64} {cs : List Char}
    {ss : List Toml.Statement} (hkey : Toml.Bare key.toList) (h : numberLine? key x = some line)
    (hcs : Toml.Lines ss cs) :
    Toml.Lines ((numberEntry key x).map (fun e => .entry [e.1] e.2) ++ ss) (line.toList ++ cs) := by
  unfold numberLine? at h
  cases x with
  | none =>
    cases h
    exact hcs
  | some n =>
    dsimp only at h
    split at h
    · next hn =>
      cases h
      have hint : n.toInt64 = Int64.ofInt n.toNat := by
        rw [Int64.ofInt_eq_ofNat, ← UInt64.toInt64_ofNat', UInt64.ofNat_toNat]
      have hline := Toml.Lines.cons (.entry hkey (.integer hn)) hcs
      rw [String.ofList_toList, ← hint] at hline
      simpa [numberEntry, Decimal.toList_wholeText] using hline
    · cases h

theorem lines_of_toText? (h : s.toText? = some text) :
    Toml.Lines (.header ["solver"] :: s.entries.map fun e => .entry [e.1] e.2) text.toList := by
  obtain ⟨deadline, hdeadline, h⟩ := Option.bind_eq_some_iff.1 h
  obtain ⟨seed, hseed, h⟩ := Option.bind_eq_some_iff.1 h
  cases h
  have hbare : ∀ key ∈ ["solver", "strategy", "deadline_secs", "random_seed"],
      Toml.Bare key.toList := by decide
  have hnumbers := lines_of_numberLine? (hbare _ (by decide)) hdeadline
    (lines_of_numberLine? (hbare _ (by decide)) hseed .nil)
  have hplain : ∀ c ∈ s.strategy.name.toList, Toml.isPlain c = true :=
    List.all_eq_true.1 (by cases s.strategy <;> decide)
  have hlines := Toml.Lines.cons (.header (hbare "solver" (by decide)))
    (.cons (.entry (hbare "strategy" (by decide)) (.string hplain)) hnumbers)
  simpa [entries] using hlines

/-! ## Reading -/

theorem setting_entries {α : Type} {read : Toml → Option α} {key : String} {absent : α}
    (hkeys : (s.entries.map Prod.fst).Nodup) :
    setting (Table.ofList s.entries) key read absent =
      (s.entries.lookup key).elim (some absent) read := by
  unfold setting
  rw [Table.get?_ofList hkeys]
  cases s.entries.lookup key <;> rfl

theorem nodup_entries (s : Settings) : (s.entries.map Prod.fst).Nodup := by
  unfold entries numberEntry
  cases s.deadlineSecs <;> cases s.randomSeed <;> simp

theorem number_entry {x : Option UInt64} (h : ∀ n, x = some n → n.toNat < 2 ^ 63) :
    (x.map fun n => Toml.integer n.toInt64).elim (some none)
    (fun v => (wordOf? v).map some) = some x := by
  cases x with
  | none => rfl
  | some n =>
    change (wordOf? (.integer n.toInt64)).map some = _
    rw [wordOf?_toInt64 (h n rfl)]
    rfl

theorem ofFields?_entries (h : s.Writable) : ofFields? (Table.ofList s.entries) = some s := by
  have hstrategy : s.entries.lookup "strategy" = some (.string s.strategy.name) := rfl
  have hdeadline : s.entries.lookup "deadline_secs" =
      s.deadlineSecs.map fun n => .integer n.toInt64 := by
    unfold entries numberEntry
    cases s.deadlineSecs <;> cases s.randomSeed <;> rfl
  have hseed : s.entries.lookup "random_seed" = s.randomSeed.map fun n => .integer n.toInt64 := by
    unfold entries numberEntry
    cases s.deadlineSecs <;> cases s.randomSeed <;> rfl
  have hname : strategyOf? (.string s.strategy.name) = some s.strategy := by
    cases s.strategy <;> rfl
  unfold ofFields?
  rw [setting_entries s.nodup_entries, setting_entries s.nodup_entries,
    setting_entries s.nodup_entries, hstrategy, hdeadline, hseed,
    number_entry fun n hn => h n (.inl hn), number_entry fun n hn => h n (.inr hn),
    Option.elim_some, hname]
  rfl

theorem ofText?_of_toText? (h : s.toText? = some text) : ofText? text = some s := by
  have hread := Toml.ofText?_section (lines_of_toText? h) s.nodup_entries
  unfold ofText?
  rw [hread]
  exact ofFields?_entries (exists_toText?.1 ⟨text, h⟩)

theorem toNat_lt_of_setting {fields : Table Toml} {key : String} {x : Option UInt64}
    (h : setting fields key (fun v => (wordOf? v).map some) none = some x) :
    ∀ n, x = some n → n.toNat < 2 ^ 63 := by
  unfold setting at h
  rintro n rfl
  split at h
  · cases h
  · obtain ⟨m, hm, heq⟩ := Option.map_eq_some_iff.1 h
    cases heq
    exact toNat_lt_of_wordOf? hm

theorem writable_of_ofFields? {fields : Table Toml} (h : ofFields? fields = some s) :
    s.Writable := by
  obtain ⟨strategy, -, h⟩ := Option.bind_eq_some_iff.1 h
  obtain ⟨deadline, hdeadline, h⟩ := Option.bind_eq_some_iff.1 h
  obtain ⟨seed, hseed, h⟩ := Option.bind_eq_some_iff.1 h
  cases h
  rintro n (hn | hn)
  · exact toNat_lt_of_setting hdeadline n hn
  · exact toNat_lt_of_setting hseed n hn

theorem writable_of_ofItems? {items : List Toml} (h : ofItems? items = some s) : s.Writable := by
  unfold ofItems? at h
  split at h
  · obtain ⟨strategy, -, h⟩ := Option.bind_eq_some_iff.1 h
    obtain ⟨deadline, hdeadline, h⟩ := Option.bind_eq_some_iff.1 h
    obtain ⟨seed, hseed, h⟩ := Option.bind_eq_some_iff.1 h
    cases h
    rintro n (hn | hn)
    · cases hn
      exact toNat_lt_of_wordOf? hdeadline
    · cases hn
      exact toNat_lt_of_wordOf? hseed
  · cases h

theorem writable_default : Writable {} := by
  rintro n (hn | hn)
  · cases hn
  · cases hn

/-- A number that has been read is one of TOML, in whichever form the settings stand. -/
theorem writable_of_ofText? (h : ofText? text = some s) : s.Writable := by
  obtain ⟨document, -, h⟩ := Option.bind_eq_some_iff.1 h
  unfold ofDocument? at h
  split at h
  · cases h
    exact writable_default
  · unfold ofValue? at h
    split at h
    · exact writable_of_ofFields? h
    · exact writable_of_ofItems? h
    · cases h
      exact writable_default
    · cases h

/-- Settings can be written where the numbers that are set have at most 63 bits, and the text is
read as the same settings. What has been read from any text can be written. -/
theorem round_trip :
    (∀ s : Settings, (∃ text, s.toText? = some text) ↔ s.Writable) ∧
    (∀ (s : Settings) text, s.toText? = some text → ofText? text = some s) ∧
    ∀ text s, ofText? text = some s → ∃ text', s.toText? = some text' ∧ ofText? text' = some s := by
  refine ⟨fun _ => exists_toText?, fun _ _ => ofText?_of_toText?, fun text s h => ?_⟩
  obtain ⟨text', htext'⟩ := exists_toText?.2 (writable_of_ofText? h)
  exact ⟨text', htext', ofText?_of_toText? htext'⟩

/-- The longest deadline that can be written. -/
def longest : Settings :=
  { strategy := .randomPick, deadlineSecs := some 9223372036854775807, randomSeed := some 0 }

theorem round_trip_longest :
    (∃ text, longest.toText? = some text ∧ ofText? text = some longest) ∧
    ∃ text, Settings.toText? { deadlineSecs := some 16 } = some text ∧
      ofText? text = some { deadlineSecs := some 16 } := by
  obtain ⟨hwrites, hreads, hagain⟩ := round_trip
  have hwritable : longest.Writable := by
    rintro n (hn | hn)
    · cases hn
      decide
    · cases hn
      decide
  obtain ⟨text, htext⟩ := (hwrites longest).2 hwritable
  have hdotted : ofText? "solver.deadline_secs = 0x10 # seconds" =
      some { deadlineSecs := some 16 } := by rfl
  exact ⟨⟨text, htext, hreads longest text htext⟩, hagain _ _ hdotted⟩

end Placement.Settings
