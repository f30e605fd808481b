/-!
# Checks and their faults

A composition of computations has a value only through the values of its parts. A check succeeds
exactly where something holds, and otherwise says what is wrong. `Decides x Good Fault` states both
at once: `Good` is when `x` succeeds, and `Fault` are the errors with which it ends. Checks in a row
decide that all is good, and the fault is that of the first one that is not content; `FirstOf` says
the same of a list.
-/

namespace Placement

variable {ε α β : Type}

/-! ## Values -/

theorem except_bind_ok (x : Except ε α) (f : α → Except ε β) (b : β) :
    x >>= f = .ok b ↔ ∃ a, x = .ok a ∧ f a = .ok b := by
  rcases x with e | a
  · exact ⟨fun h => (nomatch h), fun ⟨_, h, _⟩ => (nomatch h)⟩
  · exact ⟨fun h => ⟨a, rfl, h⟩, fun ⟨_, h, h'⟩ => by cases h; exact h'⟩

theorem except_map_ok (x : Except ε α) (f : α → β) (b : β) :
    x.map f = .ok b ↔ ∃ a, x = .ok a ∧ f a = b := by
  rcases x with e | a
  · exact ⟨fun h => (nomatch h), fun ⟨_, h, _⟩ => (nomatch h)⟩
  · exact ⟨fun h => ⟨a, rfl, Except.ok.inj h⟩,
      fun ⟨_, h, h'⟩ => by cases h; exact congrArg Except.ok h'⟩

theorem except_map_error (x : Except ε α) (f : α → β) (e : ε) :
    x.map f = .error e ↔ x = .error e := by
  rcases x with e' | a
  · exact ⟨fun h => congrArg Except.error (Except.error.inj h),
      fun h => congrArg Except.error (Except.error.inj h)⟩
  · exact ⟨fun h => (nomatch h), fun h => (nomatch h)⟩

/-! ## Decisions -/

structure Decides (x : Except ε α) (Good : Prop) (Fault : ε → Prop) : Prop where
  ok : (∃ a, x = .ok a) ↔ Good
  error : ∀ e, x = .error e ↔ Fault e

/-- An element has the fault, and those before it are good. -/
def FirstOf (Good : α → Prop) (Fault : α → ε → Prop) (as : List α) (e : ε) : Prop :=
  ∃ before a rest, as = before ++ a :: rest ∧ (∀ b ∈ before, Good b) ∧ Fault a e

section

variable {Good : α → Prop} {Fault : α → ε → Prop} {a : α} {as : List α} {e : ε}

@[simp] theorem not_firstOf_nil : ¬FirstOf Good Fault [] e := fun ⟨_, _, _, h, _⟩ =>
  List.append_ne_nil_of_right_ne_nil _ (List.cons_ne_nil _ _) h.symm

theorem firstOf_cons : FirstOf Good Fault (a :: as) e ↔
    Fault a e ∨ Good a ∧ FirstOf Good Fault as e := by
  constructor
  · rintro ⟨before, b, rest, h, hbefore, hb⟩
    cases before with
    | nil =>
      cases h
      exact .inl hb
    | cons c before =>
      cases h
      obtain ⟨hc, hbefore⟩ := List.forall_mem_cons.1 hbefore
      exact .inr ⟨hc, before, b, rest, rfl, hbefore, hb⟩
  · rintro (ha | ⟨ha, before, b, rest, rfl, hbefore, hb⟩)
    · exact ⟨[], a, as, rfl, List.forall_mem_nil _, ha⟩
    · exact ⟨a :: before, b, rest, rfl, List.forall_mem_cons.2 ⟨ha, hbefore⟩, hb⟩

end

namespace Decides

variable {x : Except ε α} {f : α → Except ε β} {Good Good' : Prop} {Fault Fault' : ε → Prop}

theorem congr (h : Decides x Good Fault) (hgood : Good ↔ Good') (hfault : ∀ e, Fault e ↔ Fault' e) :
    Decides x Good' Fault' :=
  ⟨h.ok.trans hgood, fun e => (h.error e).trans (hfault e)⟩

theorem of_ok (a : α) : Decides (.ok a : Except ε α) True fun _ => False :=
  ⟨iff_true_intro ⟨a, rfl⟩, fun _ => iff_of_false (fun h => nomatch h) id⟩

theorem of_error (e : ε) : Decides (.error e : Except ε α) False fun e' => e' = e :=
  ⟨iff_of_false (fun ⟨_, h⟩ => nomatch h) id,
    fun _ => ⟨fun h => (Except.error.inj h).symm, fun h => h ▸ rfl⟩⟩

theorem ite {c : Prop} [Decidable c] (a : α) (e : ε) :
    Decides (if c then .ok a else .error e : Except ε α) c fun e' => ¬c ∧ e' = e := by
  by_cases hc : c
  · rw [if_pos hc]
    exact (of_ok a).congr (iff_of_true trivial hc) fun _ => iff_of_false id fun h => h.1 hc
  · rw [if_neg hc]
    exact (of_error e).congr (iff_of_false id hc) fun _ => (and_iff_right hc).symm

theorem ite_error {c : Prop} [Decidable c] (a : α) (e : ε) :
    Decides (if c then .error e else .ok a : Except ε α) (¬c) fun e' => ¬¬c ∧ e' = e := by
  rw [← ite_not]
  exact ite a e

theorem map (h : Decides x Good Fault) (g : α → β) : Decides (x.map g) Good Fault := by
  refine ⟨Iff.trans ?_ h.ok, fun e => Iff.trans ?_ (h.error e)⟩
  · cases x <;> simp [Except.map]
  · cases x <;> simp [Except.map]

theorem mapError {δ : Type} (h : Decides x Good Fault) (g : ε → δ) :
    Decides (x.mapError g) Good fun e => ∃ e', Fault e' ∧ e = g e' := by
  cases x with
  | error e =>
    have hgood : ¬Good := fun hg => nomatch (h.ok.2 hg).choose_spec
    refine ⟨iff_of_false (fun ⟨_, hb⟩ => nomatch hb) hgood, fun e' => ⟨fun he => ?_, ?_⟩⟩
    · cases he
      exact ⟨e, (h.error e).1 rfl, rfl⟩
    · rintro ⟨e'', he, rfl⟩
      cases (h.error e'').2 he
      rfl
  | ok a =>
    refine ⟨iff_of_true ⟨a, rfl⟩ (h.ok.1 ⟨a, rfl⟩), fun e => iff_of_false (fun he => nomatch he) ?_⟩
    rintro ⟨e', he, -⟩
    exact nomatch (h.error e').2 he

/-- A check and a second one that is only made when the first is content. -/
theorem bind (h : Decides x Good Fault) (hf : ∀ a, x = .ok a → Decides (f a) Good' Fault') :
    Decides (x >>= f) (Good ∧ Good') fun e => Fault e ∨ Good ∧ Fault' e := by
  cases x with
  | error e =>
    have hgood : ¬Good := fun hg => nomatch (h.ok.2 hg).choose_spec
    refine ⟨iff_of_false (fun ⟨_, hb⟩ => nomatch hb) fun hg => hgood hg.1, fun e' => ?_⟩
    rw [or_iff_left fun hg => hgood hg.1]
    refine Iff.trans ⟨fun he => ?_, fun he => ?_⟩ (h.error e')
    · cases he
      rfl
    · cases he
      rfl
  | ok a =>
    have hgood : Good := h.ok.1 ⟨a, rfl⟩
    have hfault : ∀ e, ¬Fault e := fun e he => nomatch (h.error e).2 he
    refine (hf a rfl).congr (and_iff_right hgood).symm fun e => ?_
    rw [or_iff_right (hfault e), and_iff_right hgood]

theorem bind_pure (h : Decides x Good Fault) (g : α → β) :
    Decides (x >>= fun a => .ok (g a)) Good Fault :=
  (h.bind fun a _ => of_ok (g a)).congr (and_iff_left trivial) fun _ => or_iff_left fun h => h.2

/-! ### Lists and options -/

variable {Goods : α → Prop} {Faults : α → ε → Prop}

theorem nil (b : β) : Decides (.ok b : Except ε β) (∀ a ∈ [], Goods a) (FirstOf Goods Faults []) :=
  (of_ok b).congr (iff_of_true trivial (List.forall_mem_nil _)) fun _ =>
    (iff_false_intro not_firstOf_nil).symm

theorem cons {γ : Type} {x : Except ε β} {f : β → Except ε γ} {a : α} {as : List α}
    (h : Decides x (Goods a) (Faults a))
    (hf : ∀ b, x = .ok b → Decides (f b) (∀ a ∈ as, Goods a) (FirstOf Goods Faults as)) :
    Decides (x >>= f) (∀ b ∈ a :: as, Goods b) (FirstOf Goods Faults (a :: as)) :=
  (h.bind hf).congr List.forall_mem_cons.symm fun _ => firstOf_cons.symm

/-- What is not there is in order. -/
theorem option {x : α → Except ε Unit} (h : ∀ a, Decides (x a) (Goods a) (Faults a))
    (o : Option α) :
    Decides (o.elim (.ok ()) x) (∀ a ∈ o, Goods a) fun e => ∃ a ∈ o, Faults a e := by
  cases o with
  | none => exact (of_ok ()).congr (by simp) (by simp)
  | some a => exact (h a).congr (by simp) (by simp)

end Decides

/-! ## Names -/

/-- Where no two values answer to one description, a search among all of them finds the one that
does. -/
theorem find?_eq_some_of_unique {all : List α} {p : α → Bool} {a : α} (hall : ∀ a, a ∈ all)
    (hunique : ∀ a b, p a = true → p b = true → a = b) : all.find? p = some a ↔ p a = true := by
  constructor
  · exact List.find?_some
  · intro ha
    cases hfind : all.find? p with
    | none => exact absurd ha (List.find?_eq_none.1 hfind a (hall a))
    | some b => exact congrArg some (hunique b a (List.find?_some hfind) ha)

theorem find?_eq_none_of_all {all : List α} {p : α → Bool} (hall : ∀ a, a ∈ all) :
    all.find? p = none ↔ ∀ a, p a = false := by
  rw [List.find?_eq_none]
  exact ⟨fun h a => Bool.eq_false_iff.2 (h a (hall a)), fun h a _ => Bool.eq_false_iff.1 (h a)⟩

end Placement
