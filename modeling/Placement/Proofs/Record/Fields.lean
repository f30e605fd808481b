import Placement.Proofs.Json.Written
import Placement.Record.Fields

/-!
# Records read from objects

What a record finds in an object depends on the value under each of its names, and not on where the
fields stand, if no key of the object stands twice. An open record leaves all other fields as they
are.
-/

namespace Placement

/-! ## Findings -/

namespace Finding

variable {α β : Type}

theorem both_eq_found {x : Finding α} {y : Finding β} {c : α × β} :
    x.both y = .found c ↔ x = .found c.1 ∧ y = .found c.2 := by
  obtain ⟨a, b⟩ := c
  cases x with
  | found a' => cases y <;> simp [both]
  | missing e => cases y <;> simp [both]
  | fault i e =>
    cases y with
    | found b' => simp [both]
    | missing e' => simp [both]
    | fault j e' => by_cases hji : j < i <;> simp [both, hji]

theorem map_eq_found {f : α → β} {x : Finding α} {b : β} :
    x.map f = .found b ↔ ∃ a, x = .found a ∧ f a = b := by
  cases x <;> simp [map]

theorem toExcept_eq_ok {x : Finding α} {a : α} : x.toExcept = .ok a ↔ x = .found a := by
  cases x <;> simp [toExcept]

end Finding

/-! ## Fields -/

namespace Record

variable {α : Type} {drafts : List (Except Break String × Draft)} {entries : List (String × Json)}
  {m : Medium} {i : Nat} {name : String} {r : Reader α} {a : α}

/-- The drafts under a name, in their order. -/
def under (name : String) (drafts : List (Except Break String × Draft)) : List Draft :=
  drafts.filterMap fun (key, d) =>
    match key with
    | .ok k => if k = name then some d else none
    | .error _ => none

theorem map_occurrences (name : String) (drafts : List (Except Break String × Draft)) :
    (occurrences [name] drafts).map Prod.snd = under name drafts := by
  unfold occurrences under
  conv_rhs => rw [← List.zipIdx_map_fst 0 drafts]
  rw [List.map_filterMap, List.filterMap_map]
  refine List.filterMap_congr fun f _ => ?_
  obtain ⟨⟨key, d⟩, i⟩ := f
  cases key with
  | error b => rfl
  | ok k =>
    by_cases hk : k = name
    · simp [hk]
    · simp [hk]

/-- Where no key stands twice, what stands under a name is the draft of the entry of that name. -/
theorem under_eq (name : String) :
    ∀ {drafts : List (Except Break String × Draft)} {entries : List (String × Json)},
    Draft.toFields drafts = .ok entries → (entries.map Prod.fst).Nodup →
      (entries.lookup name = none ∧ under name drafts = []) ∨
      ∃ v d, entries.lookup name = some v ∧ d.toJson = .ok v ∧ under name drafts = [d]
  | [], entries, h, _ => by
    cases h
    exact .inl ⟨rfl, rfl⟩
  | (.error b, d) :: drafts, entries, h, _ => by cases h
  | (.ok key, d) :: drafts, entries, h, hkeys => by
    obtain ⟨v, rest, hv, hrest, rfl⟩ := Draft.toFields_cons.1 h
    obtain ⟨hfresh, hkeys⟩ := List.nodup_cons.1 hkeys
    have ih := under_eq name hrest hkeys
    by_cases hname : key = name
    · subst hname
      -- The key does not stand again among the fields behind.
      have hnone : rest.lookup key = none := by
        rw [← Table.get?_eq_lookup, ← Option.not_isSome_iff_eq_none, Table.get?_isSome]
        exact hfresh
      rw [hnone] at ih
      obtain ⟨-, hunder⟩ := ih.resolve_right (by rintro ⟨v, d, ⟨⟩, -⟩)
      refine .inr ⟨v, d, by simp, hv, ?_⟩
      unfold under at hunder ⊢
      simp [hunder]
    · have hunder : under name ((.ok key, d) :: drafts) = under name drafts := by
        simp [under, hname]
      rw [List.lookup_cons, beq_false_of_ne (Ne.symm hname), hunder]
      exact ih

/-- A reader that reads a draft as what its value is read as by `reads`. -/
def Reads (r : Reader α) (reads : Json → α → Prop) : Prop :=
  ∀ {m : Medium} {d : Draft} {v : Json} {a : α}, d.toJson = .ok v → (r m d = .ok a ↔ reads v a)

theorem required_eq_found {reads : Json → α → Prop} (hr : Reads r reads)
    (h : Draft.toFields drafts = .ok entries) (hkeys : (entries.map Prod.fst).Nodup) :
    (required name r).find m i (.named drafts) = .found a ↔
      ∃ v, entries.lookup name = some v ∧ reads v a := by
  unfold required field
  dsimp only
  rcases under_eq name h hkeys with ⟨hnone, hunder⟩ | ⟨v, d, hsome, hd, hunder⟩
  · rw [← map_occurrences, List.map_eq_nil_iff] at hunder
    rw [hunder, hnone]
    simp [absentAs]
  · rw [← map_occurrences, List.map_eq_singleton_iff] at hunder
    obtain ⟨⟨j, d'⟩, hoccurrences, rfl⟩ := hunder
    rw [hoccurrences, hsome]
    simp only [Option.some.injEq, exists_eq_left', ← hr (m := m) hd]
    cases r m d' with
    | error e => simp
    | ok a' => simp

theorem restOf_go_eq (names : List String) :
    ∀ {drafts : List (Except Break String × Draft)} {entries : List (String × Json)} (i : Nat),
      Draft.toFields drafts = .ok entries →
        restOf.go names i drafts = .found (entries.filter fun e => e.1 ∉ names)
  | [], entries, i, h => by
    cases h
    rfl
  | (.error b, d) :: drafts, entries, i, h => by cases h
  | (.ok key, d) :: drafts, entries, i, h => by
    obtain ⟨v, rest, hv, hrest, rfl⟩ := Draft.toFields_cons.1 h
    rw [restOf.go, restOf_go_eq names (i + 1) hrest, hv]
    by_cases hkey : key ∈ names
    · simp [hkey]
    · simp [hkey, Finding.map]

/-- What an open record is read as is found in the fields that it knows, and the others are the
rest. -/
theorem readOpen_eq_ok {r : Record α} {rest : Table Json}
    (h : Draft.toFields drafts = .ok entries) :
    r.readOpen m (.object drafts none) = .ok (a, rest) ↔
      r.find m 0 (.named drafts) = .found a ∧
      rest = Table.ofList (entries.filter fun e => e.1 ∉ r.names) := by
  unfold readOpen
  dsimp only
  rw [Finding.toExcept_eq_ok, Finding.map_eq_found, restOf, restOf_go_eq r.names 0 h]
  constructor
  · rintro ⟨⟨⟨a', rest'⟩, ⟨⟩⟩, hfound, heq⟩
    cases heq
    obtain ⟨hfound, -⟩ := Finding.both_eq_found.1 hfound
    obtain ⟨hfound, hrest⟩ := Finding.both_eq_found.1 hfound
    cases hrest
    exact ⟨hfound, rfl⟩
  · rintro ⟨hfound, rfl⟩
    exact ⟨((a, _), ()), Finding.both_eq_found.2 ⟨Finding.both_eq_found.2 ⟨hfound, rfl⟩, rfl⟩, rfl⟩

theorem and_eq_found {β : Type} {r : Record α} {s : Record β} {ps : Parts} {c : α × β} :
    (r.and s).find m i ps = .found c ↔
      r.find m i ps = .found c.1 ∧ s.find m (i + r.arity) ps = .found c.2 :=
  Finding.both_eq_found

end Record

/-! ## Strings and numbers -/

/-- The draft of a value that holds no others is that value. -/
theorem Draft.eq_ofJson {d : Draft} {v : Json} (h : d.toJson = .ok v)
    (harray : ∀ items, v ≠ .array items) (hobject : ∀ fields, v ≠ .object fields) :
    d = ofJson v := by
  cases d with
  | array items stop =>
    obtain ⟨-, vs, -, rfl⟩ := toJson_array.1 h
    exact absurd rfl (harray vs)
  | object fields stop =>
    obtain ⟨-, vs, -, rfl⟩ := toJson_object.1 h
    exact absurd rfl (hobject _)
  | unusable content => cases h
  | broken halt => cases h
  | _ =>
    cases h
    rfl

theorem Reader.reads_string : Record.Reads Reader.string fun v s => v = .string s := by
  intro m d v s h
  constructor
  · intro hread
    cases d with
    | string t =>
      cases h
      cases hread
      rfl
    | _ => cases hread
  · rintro rfl
    rw [Draft.eq_ofJson h (by simp) (by simp)]
    rfl

theorem Reader.reads_float : Record.Reads Reader.float fun v x => ∃ n, v = .number n ∧
    n.toFloat = x := by
  intro m d v x h
  constructor
  · intro hread
    cases d with
    | number n =>
      cases h
      cases hread
      exact ⟨n, rfl, rfl⟩
    | _ => cases hread
  · rintro ⟨n, rfl, rfl⟩
    rw [Draft.eq_ofJson h (by simp) (by simp)]
    rfl

/-! ## Objects held in memory -/

mutual
/-- Passing over a value held in memory meets no fault. -/
theorem Draft.passed_ofJson : ∀ v : Json, (ofJson v).passed = none
  | .null => rfl
  | .bool _ => rfl
  | .number _ => rfl
  | .string _ => rfl
  | .array items => by rw [ofJson, passed, passedItems_ofItems items, Option.none_or]
  | .object fields => by rw [ofJson, passed, passedFields_ofFields fields, Option.none_or]

theorem Draft.passedItems_ofItems : ∀ items : List Json, passedItems (ofItems items) = none
  | [] => rfl
  | v :: items => by
    rw [ofItems, passedItems, passed_ofJson v, passedItems_ofItems items, Option.none_or]

theorem Draft.passedFields_ofFields :
    ∀ fields : List (String × Json), passedFields (ofFields fields) = none
  | [] => rfl
  | (_, v) :: fields => by
    rw [ofFields, passedFields, passed_ofJson v, passedFields_ofFields fields, Option.none_or]
end

namespace Record

variable {α : Type} {fields : Table Json} {m : Medium} {i : Nat} {name : String} {r : Reader α}
  {a : α}

theorem mem_ofFields {f : Except Break String × Draft} (h : f ∈ Draft.ofFields fields) :
    ∃ k v, f = (.ok k, Draft.ofJson v) := by
  induction fields with
  | nil => cases h
  | cons e fields ih =>
    obtain ⟨k, v⟩ := e
    rcases List.mem_cons.1 h with rfl | h
    · exact ⟨k, v, rfl⟩
    · exact ih h

theorem strayFault_ofFields (names : List String) (fields : Table Json) :
    strayFault names (Draft.ofFields fields) = .found () := by
  unfold strayFault
  rw [List.findSome?_eq_none_iff.2]
  rintro ⟨f, j⟩ hf
  obtain ⟨k, v, rfl⟩ := mem_ofFields (List.fst_mem_of_mem_zipIdx hf)
  simp [Draft.passed_ofJson]

theorem under_ofFields (name : String) (hkeys : (fields.map Prod.fst).Nodup) :
    under name (Draft.ofFields fields) = ((Table.get? fields name).map Draft.ofJson).toList := by
  induction fields with
  | nil => rfl
  | cons e fields ih =>
    obtain ⟨k, v⟩ := e
    obtain ⟨hfresh, hkeys⟩ := List.nodup_cons.1 hkeys
    have htail := ih hkeys
    rw [Table.get?]
    by_cases hk : name = k
    · have hnone : Table.get? fields name = none := by
        rw [← Option.not_isSome_iff_eq_none, Table.get?_isSome, hk]
        exact hfresh
      rw [hnone] at htail
      unfold under at htail ⊢
      rw [Draft.ofFields, List.filterMap_cons]
      simp [hk] at htail ⊢
      exact htail
    · unfold under at htail ⊢
      rw [Draft.ofFields, List.filterMap_cons]
      simp [hk, Ne.symm hk] at htail ⊢
      exact htail

/-- What a field finds in an object without repeated keys: what its reader makes of the value under
its name, or else the value that it has when it is absent. -/
theorem field_eq_found {absent : Option α} (hkeys : (fields.map Prod.fst).Nodup) :
    (field name [] r absent).find m i (.named (Draft.ofFields fields)) = .found a ↔
      (∃ v, Table.get? fields name = some v ∧ r m (Draft.ofJson v) = .ok a) ∨
      (Table.get? fields name = none ∧ absent = some a) := by
  have hunder := under_ofFields name hkeys
  rw [← map_occurrences] at hunder
  unfold field
  dsimp only
  cases hget : Table.get? fields name with
  | none =>
    rw [hget] at hunder
    rw [List.map_eq_nil_iff.1 hunder]
    cases absent with
    | none => simp [absentAs]
    | some a' => simp [absentAs]
  | some v =>
    rw [hget] at hunder
    obtain ⟨⟨j, d⟩, hoccurrences, rfl⟩ := List.map_eq_singleton_iff.1 hunder
    rw [hoccurrences]
    cases hread : r m (Draft.ofJson v) with
    | error e => simp [hread]
    | ok a' => simp [hread]

/-- A record is read from an object in memory as what it finds there, whatever other fields the
object has. -/
theorem value_eq_ok {r : Record α} :
    Reader.value r.read (.object fields) = .ok a ↔
      r.find .memory 0 (.named (Draft.ofFields fields)) = .found a := by
  unfold Reader.value read
  rw [Draft.ofJson]
  dsimp only
  rw [Finding.toExcept_eq_ok, strayFault_ofFields, Finding.map_eq_found]
  constructor
  · rintro ⟨⟨a', _⟩, hread, rfl⟩
    obtain ⟨hread, -⟩ := Finding.both_eq_found.1 hread
    obtain ⟨c, hfound, hc⟩ := Finding.map_eq_found.1 hread
    obtain ⟨hfound, -⟩ := Finding.both_eq_found.1 hfound
    rwa [hc] at hfound
  · intro hfound
    exact ⟨(a, ()), Finding.both_eq_found.2
      ⟨Finding.map_eq_found.2 ⟨(a, ()), Finding.both_eq_found.2 ⟨hfound, rfl⟩, rfl⟩, rfl⟩, rfl⟩

end Record

/-! ## Texts of objects -/

theorem Draft.toFields_keys :
    ∀ {drafts : List (Except Break String × Draft)} {entries : List (String × Json)},
    toFields drafts = .ok entries → drafts.map Prod.fst = (entries.map Prod.fst).map .ok
  | [], entries, h => by
    cases h
    rfl
  | (.error b, d) :: drafts, entries, h => by cases h
  | (.ok key, d) :: drafts, entries, h => by
    obtain ⟨v, rest, -, hrest, rfl⟩ := toFields_cons.1 h
    rw [List.map_cons, List.map_cons, List.map_cons, toFields_keys hrest]

/-- The draft of an object is one of its fields. -/
theorem Draft.exists_of_toJson_object {d : Draft} {fields : List (String × Json)}
    (h : d.toJson = .ok (.object fields)) :
    ∃ drafts entries, d = .object drafts none ∧ toFields drafts = .ok entries ∧
      fields = Table.ofList entries := by
  cases d with
  | object drafts stop =>
    obtain ⟨rfl, entries, hentries, h⟩ := toJson_object.1 h
    cases h
    exact ⟨drafts, entries, rfl, hentries, rfl⟩
  | array items stop =>
    obtain ⟨-, vs, -, h⟩ := toJson_array.1 h
    cases h
  | _ => cases h

/-- The text spells an object, and no key of it twice. -/
structure Json.Spells (text : String) (fields : Table Json) : Prop where
  value : ofText text = .ok (.object fields)
  keys : ∀ drafts stop, (Draft.ofText text).1 = .object drafts stop → (drafts.map Prod.fst).Nodup

end Placement
