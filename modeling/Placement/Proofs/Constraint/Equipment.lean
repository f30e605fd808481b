import Mathlib.Data.List.Forall2
import Placement.Constraint.Filter
import Placement.Proofs.Engine.Calls
import Placement.Proofs.Engine.Flavor
import Placement.Proofs.Engine.Stateless

/-!
# Hardware requirements one after the other

Against the engine that answers from the records, each requirement leaves the candidates that suit
it, each with its choice recorded, and the first requirement that none of those left suits is the
last to be asked about. As no choice bears on a later one, the requirements met are the longest
beginning of the list that a single candidate meets, and the candidates left are those of the pool
that meet all of them.
-/

namespace Placement

open Solving

namespace Recorded

/-- The candidate suits all requirements. -/
def SuitsAll (rs : List HpaRequirement) (x : Candidate) : Prop := ∀ r ∈ rs, Suits r x

instance (rs : List HpaRequirement) (x : Candidate) : Decidable (SuitsAll rs x) :=
  inferInstanceAs (Decidable (∀ r ∈ rs, Suits r x))

/-- The first `k` requirements are the most that a single candidate of the pool suits; none are, if
the first one suits none. -/
structure Furthest (rs : List HpaRequirement) (pool : List Candidate) (k : Nat) : Prop where
  le : k ≤ rs.length
  reached : k ≠ 0 → ∃ x ∈ pool, SuitsAll (rs.take k) x
  most : ∀ j ≤ rs.length, (∃ x ∈ pool, SuitsAll (rs.take j) x) → j ≤ k

/-- The candidates that suit all requirements, in the order of the pool, with their choices. -/
def EquipsAll (rs : List HpaRequirement) (pool out : List Candidate) : Prop :=
  List.Forall₂ (Equipped rs) (pool.filter fun x => SuitsAll rs x) out

section

variable {r : HpaRequirement} {rs : List HpaRequirement} {pool out : List Candidate}
  {x y : Candidate}

/-! ## One requirement -/

theorem suitsAll_cons : SuitsAll (r :: rs) x ↔ Suits r x ∧ SuitsAll rs x := List.forall_mem_cons

theorem suitsAll_equipped (h : Equipped [r] x y) : SuitsAll rs y ↔ SuitsAll rs x :=
  forall₂_congr fun _ _ => h.suits_iff

theorem forall₂_withHpa (r : HpaRequirement) :
    ∀ pool : List Candidate, List.Forall₂ (Equipped [r]) (pool.filter fun x => Suits r x)
      (withHpa r pool)
  | [] => .nil
  | x :: pool => by
    have ih := forall₂_withHpa r pool
    unfold withHpa at ih ⊢
    rw [List.filter_cons, List.filterMap_cons]
    cases hflavor : flavor? r x with
    | none =>
      have hsuits : ¬Suits r x := fun h => by
        rw [← flavor?_isSome, hflavor] at h
        cases h
      simpa [hsuits] using ih
    | some name =>
      have hchooses : Chooses r x name := flavor?_eq_some.1 hflavor
      have hsuits : Suits r x := ⟨name, hchooses⟩
      simpa [hsuits] using ⟨equipped_annotate hchooses, ih⟩

/-- What is met by a candidate equipped for one requirement is met by a candidate that suits this
one as well. -/
theorem exists_withHpa_iff : (∃ y ∈ withHpa r pool, SuitsAll rs y) ↔
    ∃ x ∈ pool, SuitsAll (r :: rs) x := by
  unfold withHpa
  constructor
  · rintro ⟨y, hy, hsuits⟩
    obtain ⟨x, hx, hmap⟩ := List.mem_filterMap.1 hy
    obtain ⟨name, hname, rfl⟩ := Option.map_eq_some_iff.1 hmap
    have hchooses : Chooses r x name := flavor?_eq_some.1 hname
    exact ⟨x, hx,
      suitsAll_cons.2 ⟨⟨name, hchooses⟩, (suitsAll_equipped (equipped_annotate hchooses)).1 hsuits⟩⟩
  · rintro ⟨x, hx, hsuits⟩
    obtain ⟨⟨name, hchooses⟩, hsuits⟩ := suitsAll_cons.1 hsuits
    refine ⟨annotate r name x, List.mem_filterMap.2 ⟨x, hx, ?_⟩,
      (suitsAll_equipped (equipped_annotate hchooses)).2 hsuits⟩
    rw [flavor?_eq_some.2 hchooses]
    rfl

/-! ## The longest beginning -/

/-- Where no candidate suits the first requirement, none is met. -/
theorem Furthest.zero (h : withHpa r pool = []) : Furthest (r :: rs) pool 0 := by
  refine ⟨Nat.zero_le _, fun hne => absurd rfl hne, fun j _ hj => ?_⟩
  cases j with
  | zero => exact Nat.le_refl 0
  | succ j =>
    obtain ⟨y, hy, -⟩ := exists_withHpa_iff.2 hj
    rw [h] at hy
    cases hy

theorem Furthest.succ {k : Nat} (hne : withHpa r pool ≠ []) (h : Furthest rs (withHpa r pool) k) :
    Furthest (r :: rs) pool (k + 1) := by
  refine ⟨Nat.succ_le_succ h.le, fun _ => ?_, fun j hj hsuits => ?_⟩
  · rw [List.take_succ_cons, ← exists_withHpa_iff]
    -- Where no further requirement is met, any candidate equipped for the first one will do.
    by_cases hk : k = 0
    · obtain ⟨y, hy⟩ := List.exists_mem_of_ne_nil _ hne
      rw [hk, List.take_zero]
      exact ⟨y, hy, List.forall_mem_nil _⟩
    · exact h.reached hk
  · cases j with
    | zero => exact Nat.zero_le _
    | succ j =>
      exact Nat.succ_le_succ (h.most j (Nat.le_of_succ_le_succ hj) (exists_withHpa_iff.2 hsuits))

/-! ## The candidates left -/

theorem EquipsAll.nil (pool : List Candidate) : EquipsAll [] pool pool := by
  have hall : (pool.filter fun x => SuitsAll [] x) = pool :=
    List.filter_eq_self.2 fun x _ => decide_eq_true (List.forall_mem_nil _)
  unfold EquipsAll
  rw [hall]
  exact List.forall₂_same.2 fun x _ => .refl x

theorem forall₂_equipped_trans {rs' : List HpaRequirement} {l₁ l₂ l₃ : List Candidate}
    (h : List.Forall₂ (Equipped rs) l₁ l₂) (h' : List.Forall₂ (Equipped rs') l₂ l₃) :
    List.Forall₂ (Equipped (rs ++ rs')) l₁ l₃ := by
  induction h generalizing l₃ with
  | nil =>
    cases h'
    exact .nil
  | cons hxy _ ih =>
    cases h' with
    | cons hyz h' => exact .cons (hxy.trans hyz) (ih h')

theorem ids_of_forall₂_equipped (h : List.Forall₂ (Equipped rs) pool out) :
    out.map Candidate.id = pool.map Candidate.id := by
  rw [eq_comm, ← List.forall₂_eq_eq_eq, List.forall₂_map_left_iff, List.forall₂_map_right_iff]
  exact h.imp fun x y hxy => hxy.annotates.id_eq.symm

/-- What suits the candidates equipped for one requirement suits them as they were. -/
theorem EquipsAll.cons (h : EquipsAll rs (withHpa r pool) out) : EquipsAll (r :: rs) pool out := by
  -- The filter for the later requirements picks the same candidates before the first choice is
  -- entered.
  have hfilter : List.Forall₂ (Equipped [r]) (pool.filter fun x => SuitsAll (r :: rs) x)
      ((withHpa r pool).filter fun y => SuitsAll rs y) := by
    have hone :=
      List.rel_filter (p := fun x => decide (SuitsAll rs x)) (q := fun y => decide (SuitsAll rs y))
      (fun x y hxy => by simpa using (suitsAll_equipped hxy).symm) (forall₂_withHpa r pool)
    rw [List.filter_filter] at hone
    simpa only [suitsAll_cons, Bool.decide_and, Bool.and_comm] using hone
  exact forall₂_equipped_trans hfilter h

end

/-! ## Parts of a pool -/

/-- Some candidates of the pool, in the order of the pool, with the flavors that they choose for the
requirements. -/
def Leaves (rs : List HpaRequirement) (pool out : List Candidate) : Prop :=
  ∃ kept, kept.Sublist pool ∧ List.Forall₂ (Equipped rs) kept out

namespace Leaves

variable {rs rs' : List HpaRequirement} {pool kept out : List Candidate}

theorem of_sublist (h : out.Sublist pool) : Leaves [] pool out :=
  ⟨out, h, List.forall₂_same.2 fun x _ => .refl x⟩

theorem of_equipsAll (h : EquipsAll rs pool out) : Leaves rs pool out := ⟨_, List.filter_sublist, h⟩

/-- A part of what stands in a relation to the pool stands so to a part of the pool. -/
theorem exists_sublist {R : Candidate → Candidate → Prop} (h : out.Sublist kept) :
    ∀ {pool : List Candidate}, List.Forall₂ R pool kept →
      ∃ pool', pool'.Sublist pool ∧ List.Forall₂ R pool' out := by
  induction h with
  | slnil => exact fun _ => ⟨[], List.nil_sublist _, .nil⟩
  | cons y _ ih =>
    intro pool hpool
    cases hpool with
    | cons _ hpool =>
      obtain ⟨pool', hsub, hall⟩ := ih hpool
      exact ⟨pool', hsub.cons _, hall⟩
  | cons_cons y _ ih =>
    intro pool hpool
    cases hpool with
    | @cons x _ _ _ hxy hpool =>
      obtain ⟨pool', hsub, hall⟩ := ih hpool
      exact ⟨x :: pool', hsub.cons_cons _, .cons hxy hall⟩

theorem trans (h : Leaves rs pool kept) (h' : Leaves rs' kept out) :
    Leaves (rs ++ rs') pool out := by
  obtain ⟨pool₁, hpool₁, hkept⟩ := h
  obtain ⟨kept₁, hkept₁, hout⟩ := h'
  obtain ⟨pool₂, hpool₂, hall⟩ := exists_sublist hkept₁ hkept
  exact ⟨pool₂, hpool₂.trans hpool₁, forall₂_equipped_trans hall hout⟩

theorem ids (h : Leaves rs pool out) : (out.map Candidate.id).Sublist (pool.map Candidate.id) := by
  obtain ⟨kept, hkept, hout⟩ := h
  rw [ids_of_forall₂_equipped hout]
  exact hkept.map _

theorem exists_mem (h : Leaves rs pool out) {y : Candidate} (hy : y ∈ out) :
    ∃ x ∈ pool, Equipped rs x y := by
  obtain ⟨kept, hkept, hout⟩ := h
  obtain ⟨i, hi, rfl⟩ := List.mem_iff_getElem.1 hy
  have hlength : kept.length = out.length := hout.length_eq
  exact ⟨kept[i], hkept.subset (List.getElem_mem _), hout.get (hlength ▸ hi) hi⟩

theorem sublist_of_nil (h : Leaves [] pool out) : out.Sublist pool := by
  obtain ⟨kept, hkept, hout⟩ := h
  have heq : List.Forall₂ (fun x y => x = y) kept out := hout.imp fun x y hxy => hxy.eq_of_nil.symm
  rw [List.forall₂_eq_eq_eq] at heq
  rwa [← heq]

end Leaves

end Recorded

/-! ## All requirements -/

namespace Constraint

open Recorded

/-- One question to the records after the other: the requirements asked about are those met and the
first one that is not. -/
theorem run_keepEquipped :
    ∀ (rs : List HpaRequirement) (pool : List Candidate), ∃ k out, Furthest rs pool k ∧
      (keepEquipped rs pool).outcome Engine.recorded () = some (.ok out) ∧
      EquipsAll (rs.take k) pool out ∧
      List.Forall₂ (fun r q => ∃ given, q = .hpa r given) (rs.take (k + 1))
        ((keepEquipped rs pool).calls Engine.recorded ())
  | [], pool =>
    ⟨0, pool, ⟨Nat.le_refl 0, fun hne => absurd rfl hne, fun j hj _ => hj⟩, rfl, .nil pool, .nil⟩
  | r :: rs, pool => by
    have hask : (ask (.hpa r pool)).outcome Engine.recorded () =
        some (.ok (matched (withHpa r pool))) := rfl
    cases hpool : withHpa r pool with
    | nil =>
      rw [hpool] at hask
      have hcalls : (keepEquipped (r :: rs) pool).calls Engine.recorded () = [.hpa r pool] :=
        calls_bind_of_ok hask
      refine ⟨0, pool, .zero hpool, outcome_bind_of_ok hask, .nil pool, ?_⟩
      rw [hcalls]
      exact .cons ⟨pool, rfl⟩ .nil
    | cons x xs =>
      obtain ⟨k, out, hfurthest, hout, hequips, hasked⟩ := run_keepEquipped rs (x :: xs)
      rw [hpool] at hask
      rw [← hpool] at hfurthest hequips
      have hne : withHpa r pool ≠ [] := hpool ▸ List.cons_ne_nil x xs
      have hcalls : (keepEquipped (r :: rs) pool).calls Engine.recorded () =
          .hpa r pool :: (keepEquipped rs (x :: xs)).calls Engine.recorded () :=
        calls_bind_of_ok hask
      refine ⟨k + 1, out, .succ hne hfurthest, (outcome_bind_of_ok hask).trans hout,
        hequips.cons, ?_⟩
      rw [hcalls]
      exact .cons ⟨pool, rfl⟩ hasked

theorem leaves_keepEquipped {rs : List HpaRequirement} {pool out : List Candidate}
    {log : List Exchange} (h : Ends (keepEquipped rs pool) log (.ok out))
    (ha : Engine.recorded.Answers log) :
    ∃ k, Leaves (rs.take k) pool out := by
  obtain ⟨k, out', -, hout', hequips, -⟩ := run_keepEquipped rs pool
  have hout := (outcome_iff Engine.stateless_recorded (s := ())).2 ⟨log, h, ha⟩
  cases hout.symm.trans hout'
  exact ⟨k, .of_equipsAll hequips⟩

/-- The requirements of a constraint on hardware; no other constraint has any. -/
def requirements (c : Constraint) : List HpaRequirement :=
  match c.rule with
  | .hpa rs => rs
  | _ => []

/-- The first candidate is lost to the second requirement, and nothing is recorded for the third,
which no candidate suits. -/
example :
    let needs (id architecture : String) : HpaRequirement :=
      ⟨id, "vnfc", [], [⟨"basic", none, some architecture, []⟩]⟩
    let flavor (name architecture : String) :=
      (name, Json.object [("architecture", .string architecture)])
    let site (id : String) (attributes : Table Json) : Candidate :=
      ⟨id, "inventory", "cloud", 0.0, attributes⟩
    let flavors := [flavor "big" "arm", flavor "tiny" "riscv"]
    (keepEquipped [needs "vm" "arm", needs "vm" "riscv", needs "db" "x86"]
        [site "a1" [("flavors", .object [flavor "big" "arm"])],
          site "a2" [("flavors", .object flavors)]]).outcome
      Engine.recorded () =
    some (.ok [site "a2"
      [("all_directives",
        .array [directive (needs "vm" "arm") "big", directive (needs "vm" "riscv") "tiny"]),
        ("flavor_map", .object [("vm", .string "tiny")]), ("flavors", .object flavors)]]) := by
  rfl

end Constraint

end Placement
