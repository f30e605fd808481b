import Mathlib.Data.List.Nodup
import Placement.Table

/-!
# What a table holds

A table whose keys ascend holds an entry exactly where the look-up finds it. Made from entries whose
keys differ, it holds these entries and no others.
-/

namespace Placement.Table

variable {β : Type} {t : Table β} {k : String} {v : β} {entries : List (String × β)}

theorem get?_isSome : (get? t k).isSome = true ↔ k ∈ t.map Prod.fst := by
  induction t with
  | nil => simp
  | cons e t ih =>
    obtain ⟨j, w⟩ := e
    rw [get?, List.map_cons, List.mem_cons]
    by_cases hk : k = j
    · simp [hk]
    · simp [hk, ih]

theorem mem_of_get? (h : get? t k = some v) : (k, v) ∈ t := by
  induction t with
  | nil => cases h
  | cons e t ih =>
    obtain ⟨j, w⟩ := e
    rw [get?] at h
    split at h
    · next hk =>
      cases h
      rw [hk]
      exact List.mem_cons_self
    · exact List.mem_cons_of_mem _ (ih h)

theorem get?_of_mem (ht : Sorted t) (h : (k, v) ∈ t) : get? t k = some v := by
  induction t with
  | nil => cases h
  | cons e t ih =>
    obtain ⟨j, w⟩ := e
    obtain ⟨hj, ht⟩ := List.pairwise_cons.1 ht
    rw [get?]
    rcases List.mem_cons.1 h with heq | h
    · cases heq
      exact if_pos rfl
    · have hlt : j < k := hj (k, v) h
      have hne : k ≠ j := fun heq => String.lt_irrefl j (heq ▸ hlt)
      rw [if_neg hne]
      exact ih ht h

theorem sorted_ofList (entries : List (String × β)) : Sorted (ofList entries) := by
  have hfold : ∀ t : Table β, Sorted t → Sorted (entries.foldl (fun t e => put t e.1 e.2) t) := by
    induction entries with
    | nil => exact fun t ht => ht
    | cons e entries ih => exact fun t ht => ih _ (sorted_put ht e.1 e.2)
  exact hfold [] List.Pairwise.nil

theorem mem_of_mem_ofList {e : String × β} (h : e ∈ ofList entries) :
    e ∈ entries := by
  have hfold : ∀ t : Table β, e ∈ entries.foldl (fun t e => put t e.1 e.2) t →
      e ∈ entries ∨ e ∈ t := by
    clear h
    induction entries with
    | nil => exact fun t => .inr
    | cons f entries ih =>
      intro t he
      rcases ih _ he with he | he
      · exact .inl (List.mem_cons_of_mem f he)
      · rcases mem_put he with rfl | he
        · exact .inl List.mem_cons_self
        · exact .inr he
  exact (hfold [] h).resolve_right List.not_mem_nil

theorem get?_ofList (h : (entries.map Prod.fst).Nodup) (k : String) :
    get? (ofList entries) k = entries.lookup k := by
  have hfold : ∀ t : Table β,
      get? (entries.foldl (fun t e => put t e.1 e.2) t) k = (entries.lookup k).or (get? t k) := by
    induction entries with
    | nil => intro t; simp
    | cons e entries ih =>
      intro t
      obtain ⟨hfresh, hnodup⟩ := List.nodup_cons.1 h
      rw [List.foldl_cons, ih hnodup, get?_put, List.lookup_cons]
      by_cases hk : k = e.1
      · have hnone : entries.lookup k = none := by
          rw [List.lookup_eq_none_iff]
          intro f hf
          simpa using fun heq : k = f.1 => hfresh (hk ▸ heq ▸ List.mem_map_of_mem hf)
        rw [hnone, if_pos hk, hk, beq_self_eq_true]
        rfl
      · rw [if_neg hk, beq_false_of_ne hk]
  rw [ofList, hfold, get?_nil, Option.or_none]

/-- Where the keys differ, looking a key up finds the one entry under it. -/
theorem lookup_eq_some (h : (entries.map Prod.fst).Nodup) :
    entries.lookup k = some v ↔ (k, v) ∈ entries := by
  induction entries with
  | nil => simp
  | cons e entries ih =>
    obtain ⟨j, w⟩ := e
    obtain ⟨hfresh, hnodup⟩ := List.nodup_cons.1 h
    rw [List.lookup_cons, List.mem_cons, Prod.mk.injEq]
    by_cases hk : k = j
    · subst hk
      have hnot : (k, v) ∉ entries := fun hm => hfresh (List.mem_map.2 ⟨(k, v), hm, rfl⟩)
      simp [hnot, eq_comm]
    · rw [beq_false_of_ne hk]
      simp [hk, ih hnodup]

/-! ## Tables are determined by what they hold -/

theorem get?_eq_lookup (t : Table β) (k : String) : get? t k = t.lookup k := by
  induction t with
  | nil => rfl
  | cons e t ih =>
    obtain ⟨j, w⟩ := e
    rw [get?, List.lookup_cons, ih]
    by_cases hk : k = j
    · simp [hk]
    · rw [if_neg hk, beq_false_of_ne hk]

theorem Sorted.nodup_keys (h : Sorted t) : (t.map Prod.fst).Nodup := by
  refine List.pairwise_map.2 (List.Pairwise.imp (fun {a b} hlt heq => ?_) h)
  rw [heq] at hlt
  exact String.lt_irrefl _ hlt

theorem eq_of_get? {t' : Table β} (h : Sorted t) (h' : Sorted t')
    (heq : ∀ k, get? t k = get? t' k) : t = t' := by
  have hmem : ∀ e, e ∈ t ↔ e ∈ t' := by
    rintro ⟨k, v⟩
    constructor
    · exact fun he => mem_of_get? (heq k ▸ get?_of_mem h he)
    · exact fun he => mem_of_get? ((heq k).symm ▸ get?_of_mem h' he)
  have hperm := (List.perm_ext_iff_of_nodup h.nodup_keys.of_map h'.nodup_keys.of_map).2 hmem
  exact hperm.eq_of_pairwise (fun a b _ _ hab hba => absurd hba (String.lt_asymm hab)) h h'

theorem ofList_of_sorted (h : Sorted t) : ofList t = t :=
  eq_of_get? (sorted_ofList t) h fun k => by rw [get?_ofList h.nodup_keys, get?_eq_lookup]

theorem get?_filter (q : String → Bool) (t : Table β) (k : String) :
    get? (t.filter fun e => q e.1) k = if q k then get? t k else none := by
  induction t with
  | nil => simp
  | cons e t ih =>
    obtain ⟨j, w⟩ := e
    by_cases hk : k = j
    · subst hk
      cases hq : q k <;> simp [get?, hq, ih]
    · cases hq : q j <;> simp [get?, hq, hk, ih]

theorem ofList_filter (h : (entries.map Prod.fst).Nodup) (q : String → Bool) :
    ofList (entries.filter fun e => q e.1) = (ofList entries).filter fun e => q e.1 := by
  refine eq_of_get? (sorted_ofList _) ((sorted_ofList entries).filter _) fun k => ?_
  have hfilter : ((entries.filter fun e => q e.1).map Prod.fst).Nodup :=
    h.sublist (List.filter_sublist.map Prod.fst)
  rw [get?_ofList hfilter, ← get?_eq_lookup, get?_filter, get?_filter, get?_ofList h,
    get?_eq_lookup]

theorem get?_map {γ : Type} (f : String → β → γ) (t : Table β) (k : String) :
    get? (t.map fun e => (e.1, f e.1 e.2)) k = (get? t k).map (f k) := by
  induction t with
  | nil => rfl
  | cons e t ih =>
    obtain ⟨j, w⟩ := e
    by_cases hk : k = j
    · simp [get?, hk]
    · simp [get?, hk, ih]

end Placement.Table
