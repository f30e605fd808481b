/-!
# Tables

A table is a list of entries in strictly ascending order of their keys, so it is determined by what
it holds.
-/

namespace Placement

abbrev Table (β : Type) := List (String × β)

namespace Table

variable {β : Type}

def get? (t : Table β) (k : String) : Option β :=
  match t with
  | [] => none
  | (k', v) :: t => if k = k' then some v else get? t k

/-- Puts a value under a key, in place of what was there. -/
def put (t : Table β) (k : String) (v : β) : Table β :=
  match t with
  | [] => [(k, v)]
  | (k', v') :: t =>
    if k = k' then (k, v) :: t
    else if k < k' then (k, v) :: (k', v') :: t
    else (k', v') :: put t k v

/-- The table of some entries; of two under one key the later one counts. -/
def ofList (entries : List (String × β)) : Table β :=
  entries.foldl (fun t e => put t e.1 e.2) []

/-- The keys ascend strictly. -/
def Sorted (t : Table β) : Prop :=
  t.Pairwise fun a b => a.1 < b.1

@[simp] theorem get?_nil (k : String) : get? ([] : Table β) k = none := rfl

theorem get?_put (t : Table β) (k k' : String) (v : β) :
    get? (put t k v) k' = if k' = k then some v else get? t k' := by
  induction t with
  | nil => simp [put, get?]
  | cons e t ih =>
    obtain ⟨j, w⟩ := e
    by_cases hk : k = j
    · subst hk
      by_cases h : k' = k <;> simp [put, get?, h]
    · by_cases hlt : k < j
      · by_cases h : k' = k <;> simp [put, get?, hk, hlt, h]
      · by_cases h : k' = j
        · subst h
          simp [put, get?, hk, hlt, Ne.symm hk]
        · simp [put, get?, hk, hlt, h, ih]

theorem get?_put_self (t : Table β) (k : String) (v : β) : get? (put t k v) k = some v := by
  simp [get?_put]

theorem mem_put {t : Table β} {k : String} {v : β} {e : String × β} (h : e ∈ put t k v) :
    e = (k, v) ∨ e ∈ t := by
  induction t with
  | nil => simpa [put] using h
  | cons d t ih =>
    obtain ⟨j, w⟩ := d
    simp only [put] at h
    split at h
    · rcases List.mem_cons.1 h with h | h
      · exact .inl h
      · exact .inr (List.mem_cons_of_mem _ h)
    · split at h
      · simpa using h
      · rcases List.mem_cons.1 h with h | h
        · exact .inr (h ▸ List.mem_cons_self)
        · exact (ih h).imp id (List.mem_cons_of_mem _)

theorem sorted_put {t : Table β} (h : Sorted t) (k : String) (v : β) : Sorted (put t k v) := by
  induction t with
  | nil => simp [put, Sorted]
  | cons d t ih =>
    obtain ⟨j, w⟩ := d
    obtain ⟨hj, ht⟩ := List.pairwise_cons.1 h
    simp only [put]
    split
    · next hk => subst hk; exact List.pairwise_cons.2 ⟨hj, ht⟩
    · split
      · next hlt =>
        refine List.pairwise_cons.2 ⟨fun e he => ?_, h⟩
        rcases List.mem_cons.1 he with he | he
        · exact he ▸ hlt
        · exact String.lt_trans hlt (hj e he)
      · next hne hlt =>
        refine List.pairwise_cons.2 ⟨fun e he => ?_, ih ht⟩
        rcases mem_put he with he | he
        · subst he
          exact Decidable.byContradiction fun hge =>
            hne (String.le_antisymm (String.not_lt.1 hge) (String.not_lt.1 hlt))
        · exact hj e he

end Table

end Placement
