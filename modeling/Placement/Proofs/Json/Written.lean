import Placement.Json.Text
import Placement.Proofs.Checks
import Placement.Proofs.Table

/-!
# Values that can be written

The numbers of JSON are finite. A text that spells a number beyond the doubles has no value, so no
infinity and no NaN is in a value that has been read, nor in any part of it; and a whole number of
more than 64 bits has been read as a double.
-/

namespace Placement

/-- The value can be written in JSON, which has neither infinities nor a NaN. -/
inductive Json.Writable : Json → Prop
  | null : Writable .null
  | bool (b : Bool) : Writable (.bool b)
  | int (i : Int) : Writable (.number (.int i))
  | real {x : Float} (hx : x.isFinite = true) : Writable (.number (.real x))
  | string (s : String) : Writable (.string s)
  | array {items : List Json} (h : ∀ v ∈ items, Writable v) : Writable (.array items)
  | object {fields : List (String × Json)} (h : ∀ f ∈ fields, Writable f.2) :
      Writable (.object fields)

/-- A whole number of at most 64 bits, or a finite double. -/
def Number.Proper : Number → Prop
  | .int i => Int64.minValue.toInt ≤ i ∧ i < UInt64.size
  | .real x => x.isFinite = true

namespace Json

/-- The value is as JSON holds it: its numbers are proper, and the keys of its objects ascend. -/
inductive Proper : Json → Prop
  | null : Proper .null
  | bool (b : Bool) : Proper (.bool b)
  | number {n : Number} (h : n.Proper) : Proper (.number n)
  | string (s : String) : Proper (.string s)
  | array {items : List Json} (h : ∀ v ∈ items, Proper v) : Proper (.array items)
  | object {fields : List (String × Json)} (hkeys : Table.Sorted fields)
      (h : ∀ f ∈ fields, Proper f.2) :
      Proper (.object fields)

theorem Proper.writable {v : Json} (h : v.Proper) : v.Writable := by
  induction h with
  | null => exact .null
  | bool b => exact .bool b
  | @number n h =>
    cases n with
    | int i => exact .int i
    | real x => exact .real h
  | string s => exact .string s
  | array _ ih => exact .array ih
  | object _ _ ih => exact .object ih

theorem Proper.keys {fields : Table Json} (h : (Json.object fields).Proper) :
    (fields.map Prod.fst).Nodup := by
  cases h with
  | object hkeys _ => exact hkeys.nodup_keys

theorem Proper.get? {fields : Table Json} {name : String} {v : Json}
    (h : (Json.object fields).Proper) (hget : Table.get? fields name = some v) : v.Proper := by
  cases h with
  | object _ hfields => exact hfields _ (Table.mem_of_get? hget)

end Json

namespace Draft

/-- The numbers in the draft are proper, apart from what has no value anyway. -/
inductive Proper : Draft → Prop
  | null : Proper .null
  | bool (b : Bool) : Proper (.bool b)
  | number {n : Number} (h : n.Proper) : Proper (.number n)
  | string (s : String) : Proper (.string s)
  | array {items : List Draft} {stop : Option Break} (h : ∀ d ∈ items, Proper d) :
      Proper (.array items stop)
  | object {fields : List (Except Break String × Draft)} {stop : Option Break}
      (h : ∀ f ∈ fields, Proper f.2) : Proper (.object fields stop)
  | unusable {content : Draft} : Proper (.unusable content)
  | broken {halt : Halt} : Proper (.broken halt)

variable {d fault value : Draft} {cs word : List Char}

/-! ## Values of drafts -/

theorem toJson_array {items : List Draft} {stop : Option Break} {v : Json} :
    (Draft.array items stop).toJson = .ok v ↔
      stop = none ∧ ∃ vs, toItems items = .ok vs ∧ v = .array vs := by
  rw [Draft.toJson, except_bind_ok]
  cases stop with
  | some b => simp
  | none => simp [eq_comm]

theorem toJson_object {fields : List (Except Break String × Draft)} {stop : Option Break}
    {v : Json} :
    (Draft.object fields stop).toJson = .ok v ↔
      stop = none ∧ ∃ vs, toFields fields = .ok vs ∧ v = .object (Table.ofList vs) := by
  rw [Draft.toJson, except_bind_ok]
  cases stop with
  | some b => simp
  | none => simp [eq_comm]

theorem toItems_cons {d : Draft} {ds : List Draft} {vs : List Json} :
    toItems (d :: ds) = .ok vs ↔ ∃ v rest, d.toJson = .ok v ∧ toItems ds = .ok rest ∧
      vs = v :: rest := by
  simp only [toItems, except_bind_ok, Except.ok.injEq, exists_and_left, @eq_comm _ _ vs]

theorem toFields_cons {k : String} {d : Draft} {fs : List (Except Break String × Draft)}
    {vs : List (String × Json)} :
    toFields ((.ok k, d) :: fs) = .ok vs ↔
      ∃ v rest, d.toJson = .ok v ∧ toFields fs = .ok rest ∧ vs = (k, v) :: rest := by
  simp only [toFields, except_bind_ok, Except.ok.injEq, exists_and_left, @eq_comm _ _ vs]

/-- The items of a value are the values of items. -/
theorem exists_of_toItems : ∀ {ds : List Draft} {vs : List Json}, toItems ds = .ok vs →
    ∀ v ∈ vs, ∃ d ∈ ds, d.toJson = .ok v
  | [], vs, h, v, hv => by
    cases h
    cases hv
  | d :: ds, vs, h, v, hv => by
    obtain ⟨w, ws, hw, hws, rfl⟩ := toItems_cons.1 h
    rcases List.mem_cons.1 hv with rfl | hv
    · exact ⟨d, List.mem_cons_self, hw⟩
    · obtain ⟨d', hd', hv⟩ := exists_of_toItems hws v hv
      exact ⟨d', List.mem_cons_of_mem d hd', hv⟩

/-- The fields of a value are the values of fields. -/
theorem exists_of_toFields :
    ∀ {fs : List (Except Break String × Draft)} {vs : List (String × Json)},
    toFields fs = .ok vs → ∀ e ∈ vs, ∃ f ∈ fs, f.2.toJson = .ok e.2
  | [], vs, h, e, he => by
    cases h
    cases he
  | (.error b, d) :: fs, vs, h, e, he => by cases h
  | (.ok k, d) :: fs, vs, h, e, he => by
    obtain ⟨w, ws, hw, hws, rfl⟩ := toFields_cons.1 h
    rcases List.mem_cons.1 he with rfl | he
    · exact ⟨(.ok k, d), List.mem_cons_self, hw⟩
    · obtain ⟨f, hf, he⟩ := exists_of_toFields hws e he
      exact ⟨f, List.mem_cons_of_mem _ hf, he⟩

theorem Proper.toJson (h : d.Proper) : ∀ {v : Json}, d.toJson = .ok v → v.Proper := by
  induction h with
  | null => exact fun hv => by cases hv; exact .null
  | bool b => exact fun hv => by cases hv; exact .bool b
  | number h => exact fun hv => by cases hv; exact .number h
  | string s => exact fun hv => by cases hv; exact .string s
  | array _ ih =>
    intro v hv
    obtain ⟨-, vs, hvs, rfl⟩ := toJson_array.1 hv
    refine .array fun w hw => ?_
    obtain ⟨d, hd, hw⟩ := exists_of_toItems hvs w hw
    exact ih d hd hw
  | object _ ih =>
    intro v hv
    obtain ⟨-, vs, hvs, rfl⟩ := toJson_object.1 hv
    refine .object (Table.sorted_ofList vs) fun e he => ?_
    obtain ⟨f, hf, he⟩ := exists_of_toFields hvs e (Table.mem_of_mem_ofList he)
    exact ih f hf he
  | unusable => exact fun hv => by cases hv
  | broken => exact fun hv => by cases hv

/-! ## Scanned numbers -/

theorem proper_wholeNumber {minus : Bool} {i : Int} (h : wholeNumber minus cs = .int i) :
    (Number.int i).Proper := by
  have hleast : Int64.minValue.toInt = -(Nat.pow 2 63 : Nat) := by decide
  unfold wholeNumber at h
  dsimp only at h
  split at h
  · split at h
    · next hbound =>
      obtain ⟨hpos, hlimit⟩ := hbound
      cases h
      refine ⟨?_, ?_⟩
      · rw [hleast]
        omega
      · omega
    · cases h
  · split at h
    · next hlimit =>
      cases h
      refine ⟨?_, Int.ofNat_lt.2 hlimit⟩
      rw [hleast]
      omega
    · cases h

theorem proper_ofNumber {n : Number} (h : ∀ i, n = .int i → (Number.int i).Proper) :
    (ofNumber n).Proper := by
  unfold ofNumber
  cases n with
  | int i => exact .number (h i rfl)
  | real x =>
    dsimp only
    split
    · next hx => exact .number hx
    · exact .unusable

theorem proper_of_scanExponent (h : scanExponent cs = .error fault) : fault.Proper := by
  unfold scanExponent at h
  dsimp only at h
  split at h
  · cases h
    exact .broken
  · cases h

theorem proper_of_scanTail (h : scanTail cs = .error fault) : fault.Proper := by
  unfold scanTail at h
  split at h
  · exact proper_of_scanExponent ((except_map_error _ _ _).1 h)
  · exact proper_of_scanExponent ((except_map_error _ _ _).1 h)
  · cases h

theorem proper_of_scanFraction (h : scanFraction cs = .error fault) : fault.Proper := by
  unfold scanFraction at h
  split at h
  · split at h
    · cases h
      exact .broken
    · exact proper_of_scanTail ((except_map_error _ _ _).1 h)
  · exact proper_of_scanTail ((except_map_error _ _ _).1 h)

theorem proper_scanNumber (minus : Bool) (cs : List Char) : (scanNumber minus cs).1.Proper := by
  unfold scanNumber
  split
  · exact .broken
  · exact .broken
  · split
    · next hfault => exact proper_of_scanFraction hfault
    · exact proper_ofNumber fun i => proper_wholeNumber
    · exact proper_ofNumber (n := .real _) fun i h => nomatch h

/-! ## Scanned values -/

theorem proper_scanWord (h : value.Proper) : (scanWord word value cs).1.Proper := by
  unfold scanWord
  split
  · exact h
  · split
    · exact .broken
    · exact .broken

theorem Proper.atDepth (h : d.Proper) (depth : Nat) : (Draft.atDepth depth d).Proper := by
  unfold Draft.atDepth
  split
  · exact .unusable
  · exact h

mutual
theorem proper_scanValue : ∀ (fuel depth : Nat) (cs : List Char), (scanValue fuel depth cs).1.Proper
  | 0, depth, cs => by
    unfold scanValue
    exact .broken
  | fuel + 1, depth, cs => by
    unfold scanValue
    split
    · exact .broken
    · split
      · exact .string _
      · exact .unusable
      · exact .broken
    · exact .atDepth (.array (proper_scanItems fuel (depth + 1) true _)) (depth + 1)
    · exact .atDepth (.object (proper_scanFields fuel (depth + 1) true _)) (depth + 1)
    · exact proper_scanWord .null
    · exact proper_scanWord (.bool true)
    · exact proper_scanWord (.bool false)
    · exact proper_scanNumber true _
    · split
      · exact proper_scanNumber false _
      · exact .broken

theorem proper_scanItems : ∀ (fuel depth : Nat) (first : Bool) (cs : List Char),
    ∀ d ∈ (scanItems fuel depth first cs).1, d.Proper
  | 0, depth, first, cs => by
    unfold scanItems
    exact List.forall_mem_nil _
  | fuel + 1, depth, first, cs => by
    unfold scanItems
    split
    · exact List.forall_mem_nil _
    · exact List.forall_mem_nil _
    · exact List.forall_mem_singleton.2 .broken
    · next rest _ =>
      have hvalue := proper_scanValue fuel depth rest
      split
      · next hscan =>
        rw [hscan] at hvalue
        exact List.forall_mem_singleton.2 hvalue
      · next rest' hscan =>
        rw [hscan] at hvalue
        exact List.forall_mem_cons.2 ⟨hvalue, proper_scanItems fuel depth false rest'⟩

theorem proper_scanFields : ∀ (fuel depth : Nat) (first : Bool) (cs : List Char),
    ∀ f ∈ (scanFields fuel depth first cs).1, f.2.Proper
  | 0, depth, first, cs => by
    unfold scanFields
    exact List.forall_mem_nil _
  | fuel + 1, depth, first, cs => by
    unfold scanFields
    split
    · exact List.forall_mem_nil _
    · exact List.forall_mem_nil _
    · exact List.forall_mem_singleton.2 .broken
    · split
      · exact List.forall_mem_singleton.2 .broken
      · exact proper_scanField fuel depth _ _
      · exact proper_scanField fuel depth _ _
    · exact List.forall_mem_singleton.2 .broken

theorem proper_scanField : ∀ (fuel depth : Nat) (key : Except Break String) (cs : List Char),
    ∀ f ∈ (scanField fuel depth key cs).1, f.2.Proper
  | 0, depth, key, cs => by
    unfold scanField
    exact List.forall_mem_nil _
  | fuel + 1, depth, key, cs => by
    unfold scanField
    split
    · exact List.forall_mem_singleton.2 .broken
    · next rest _ =>
      have hvalue := proper_scanValue fuel depth rest
      split
      · next hscan =>
        rw [hscan] at hvalue
        exact List.forall_mem_singleton.2 hvalue
      · next rest' hscan =>
        rw [hscan] at hvalue
        exact List.forall_mem_cons.2 ⟨hvalue, proper_scanFields fuel depth false rest'⟩
    · exact List.forall_mem_singleton.2 .broken
end

/-- However far a text can be read, the numbers in it are proper. -/
theorem proper_ofText (text : String) : (ofText text).1.Proper := by
  have h := proper_scanValue (4 * text.toList.length + 4) 0 text.toList
  unfold ofText
  dsimp only
  split
  · next hscan =>
    rw [hscan] at h
    exact h
  · next hscan =>
    rw [hscan] at h
    exact h

/-! ## Values held in memory -/

theorem toItems_ofItems : ∀ {items : List Json}, (∀ v ∈ items, (ofJson v).toJson = .ok v) →
    toItems (ofItems items) = .ok items
  | [], _ => rfl
  | v :: items, h => by
    obtain ⟨hv, hitems⟩ := List.forall_mem_cons.1 h
    exact toItems_cons.2 ⟨v, items, hv, toItems_ofItems hitems, rfl⟩

theorem toFields_ofFields :
    ∀ {fields : List (String × Json)}, (∀ f ∈ fields, (ofJson f.2).toJson = .ok f.2) →
    toFields (ofFields fields) = .ok fields
  | [], _ => rfl
  | (k, v) :: fields, h => by
    obtain ⟨hv, hfields⟩ := List.forall_mem_cons.1 h
    exact toFields_cons.2 ⟨v, fields, hv, toFields_ofFields hfields, rfl⟩

/-- Nothing is lost of a value on the way through a draft. -/
theorem toJson_ofJson {v : Json} (h : v.Proper) : (ofJson v).toJson = .ok v := by
  induction h with
  | null => rfl
  | bool b => rfl
  | number h => rfl
  | string s => rfl
  | array _ ih => exact toJson_array.2 ⟨rfl, _, toItems_ofItems ih, rfl⟩
  | object hkeys _ ih =>
    refine toJson_object.2 ⟨rfl, _, toFields_ofFields ih, ?_⟩
    rw [Table.ofList_of_sorted hkeys]

end Draft

namespace Json

variable {text : String} {v : Json}

/-- What has been read from a text is as JSON holds it. -/
theorem proper_of_ofText (h : ofText text = .ok v) : v.Proper := by
  unfold ofText at h
  generalize hd : Draft.ofText text = read at h
  obtain ⟨w, hw, h⟩ := (except_bind_ok _ _ _).1 h
  split at h
  · cases h
  · cases h
    exact (hd ▸ Draft.proper_ofText text).toJson hw

/-- What has been read from a text can be written. -/
theorem writable_of_ofText (h : ofText text = .ok v) : v.Writable := (proper_of_ofText h).writable

end Json

end Placement
