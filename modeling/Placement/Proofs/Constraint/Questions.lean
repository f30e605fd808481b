import Placement.Problem
import Placement.Proofs.Engine.Prompt

/-!
# What constraints ask

A constraint that is given candidates asks about candidates: the list with a question is empty only
where the pool was empty, and then it is the first question of a constraint on attributes, hardware
or capacity. The pipeline goes on from a constraint only with the candidates that are left, so it
passes an empty list to none but the first constraint.
-/

namespace Placement

open Solving

namespace Constraint

/-- The question about an empty pool that the constraint puts, if its kind is one that puts it. -/
def emptyQuestion? (c : Constraint) (demand : String) : Option Query :=
  match c.rule with
  | .attributes evaluate => some (.attributes demand evaluate [])
  | .hpa (r :: _) => some (.hpa r [])
  | .vimFit request => some (.vim request [])
  | _ => none

theorem given_of_emptyQuestion? {c : Constraint} {demand : String} {q : Query}
    (h : c.emptyQuestion? demand = some q) :
    q.given = [] := by
  unfold emptyQuestion? at h
  split at h
  · cases h; rfl
  · cases h; rfl
  · cases h; rfl
  · cases h

/-- The question is about some candidate, or it is the one that the constraint puts about an empty
pool. -/
def Poses (c : Constraint) (path : Path) (pool : List Candidate) (q : Query) : Prop :=
  q.given = [] → pool = [] ∧ c.emptyQuestion? (demandName path) = some q

variable {c : Constraint} {path : Path} {pool : List Candidate} {P : Query → Prop}

theorem builtFrom_locate (hP : ∀ q, q.given ≠ [] → P q) (x : Candidate) : BuiltFrom P (locate x) :=
  .ask (hP _ (List.cons_ne_nil _ _))

theorem builtFrom_siblingLocations (hP : ∀ q, q.given ≠ [] → P q) :
    ∀ siblings : List (String × Candidate), BuiltFrom P (siblingLocations siblings)
  | [] => .pure _
  | (d, x) :: rest => by
    unfold siblingLocations
    refine .bind (builtFrom_locate hP x) fun place => ?_
    cases place with
    | none => exact .throw _
    | some l => exact .bind (builtFrom_siblingLocations hP rest) fun ls => .pure _

theorem builtFrom_keepNear (hP : ∀ q, q.given ≠ [] → P q) (r : DistanceRule)
    (others : List Location) :
    ∀ pool : List Candidate, BuiltFrom P (keepNear r others pool)
  | [] => .pure _
  | x :: xs => by
    unfold keepNear
    refine .bind (builtFrom_locate hP x) fun place =>
      .bind (builtFrom_keepNear hP r others xs) fun rest => ?_
    cases place with
    | none => exact .pure _
    | some l => exact .pure _

theorem builtFrom_keepDistant (hP : ∀ q, q.given ≠ [] → P q) (r : DistanceRule) :
    BuiltFrom P (c.keepDistant r path pool) := by
  unfold keepDistant
  split
  · exact .pure _
  · exact .bind (builtFrom_siblingLocations hP _) fun others => builtFrom_keepNear hP r others pool

/-- An answer that takes the place of the candidates is not empty, so the requirements after the
first one are asked about some candidate. -/
theorem builtFrom_keepEquipped (hP : ∀ q, q.given ≠ [] → P q) :
    ∀ {rs : List HpaRequirement} {pool : List Candidate},
    (∀ r ∈ rs.head?, P (.hpa r pool)) → BuiltFrom P (keepEquipped rs pool)
  | [], pool, _ => .pure _
  | r :: rs, pool, hhead => by
    unfold keepEquipped
    refine .bind (.ask (hhead r rfl)) fun matched => ?_
    rcases matched with _ | _ | ⟨x, xs⟩
    · exact .pure _
    · exact .pure _
    · exact builtFrom_keepEquipped hP fun r' _ => hP _ (List.cons_ne_nil _ _)

theorem builtFrom_keepServed (hP : ∀ q, q.given ≠ [] → P q) (controller inventoryType : String)
    (request : Json) (cost : Float) :
    BuiltFrom P (c.keepServed controller inventoryType request cost path pool) := by
  unfold keepServed
  split
  · exact .pure _
  · next toCheck hne => exact .bind (.ask (hP _ hne)) fun confirmed => .pure _

theorem builtFrom_filter (c : Constraint) (path : Path) (pool : List Candidate) :
    BuiltFrom (c.Poses path pool) (c.filter path pool) := by
  have hP : ∀ q : Query, q.given ≠ [] → c.Poses path pool q := fun q hne hnil => absurd hnil hne
  unfold filter
  cases hrule : c.rule with
  | attributes evaluate =>
    refine .bind (.ask fun hnil => ?_) fun matched => .pure _
    cases (hnil : pool = [])
    exact ⟨rfl, by rw [emptyQuestion?, hrule]⟩
  | threshold key operator bound => exact .pure _
  | distance r => exact builtFrom_keepDistant hP r
  | aggregation rules => exact .pure _
  | hpa requirements =>
    refine builtFrom_keepEquipped hP fun r hr hnil => ?_
    cases (hnil : pool = [])
    cases requirements with
    | nil => cases hr
    | cons r' rs =>
      cases hr
      exact ⟨rfl, by rw [emptyQuestion?, hrule]⟩
  | vimFit request =>
    refine .bind (.ask fun hnil => ?_) fun fitting => ?_
    · cases (hnil : pool = [])
      exact ⟨rfl, by rw [emptyQuestion?, hrule]⟩
    · rcases fitting with _ | _ | ⟨x, xs⟩
      · exact .pure _
      · exact .pure _
      · exact .pure _
  | service controller inventoryType request cost =>
    exact builtFrom_keepServed hP controller inventoryType request cost
  | zone qualifier category => exact .pure _

/-- The question about an empty pool is put. -/
theorem mem_calls_filter {σ : Type} {engine : Engine σ} {s : σ} {q : Query}
    (h : c.emptyQuestion? (demandName path) = some q) : q ∈ (c.filter path []).calls engine s := by
  unfold emptyQuestion? at h
  unfold filter
  split at h
  · next evaluate hrule =>
    cases h
    rw [hrule]
    exact mem_calls_bind.2 (.inl mem_calls_ask)
  · next r rs hrule =>
    cases h
    rw [hrule]
    exact mem_calls_bind.2 (.inl mem_calls_ask)
  · next request hrule =>
    cases h
    rw [hrule]
    exact mem_calls_bind.2 (.inl mem_calls_ask)
  · cases h

end Constraint

/-! ## The pipeline -/

variable {path : Path} {cs cs₁ cs₂ : List Constraint} {pool : List Candidate} {q : Query}

/-- The question is about some candidate, or it is the one that the first of the constraints puts
about an empty pool. -/
def PosesFirst (path : Path) (cs : List Constraint) (pool : List Candidate) (q : Query) : Prop :=
  q.given = [] → pool = [] ∧ ∃ c ∈ cs.head?, c.emptyQuestion? (Constraint.demandName path) = some q

theorem builtFrom_narrow (path : Path) : ∀ (cs : List Constraint) (pool : List Candidate),
    BuiltFrom (PosesFirst path cs pool) (narrow path cs pool)
  | [], pool => .pure _
  | c :: cs, pool => by
    unfold narrow
    refine .bind ((c.builtFrom_filter path pool).mono fun q hq hnil => ?_) fun kept => ?_
    · obtain ⟨hpool, hquestion⟩ := hq hnil
      exact ⟨hpool, c, rfl, hquestion⟩
    · cases kept with
      | nil => exact .pure _
      | cons x xs => exact (builtFrom_narrow path cs (x :: xs)).mono fun q hq hnil =>
        nomatch (hq hnil).1

/-- Where one of the first constraints leaves nothing, the pipeline ends there. -/
theorem narrow_append (h : cs₁ = [] → cs₂ = []) : narrow path (cs₁ ++ cs₂) pool =
    narrow path cs₁ pool >>= fun kept =>
      match kept with
      | [] => pure []
      | x :: xs => narrow path cs₂ (x :: xs) := by
  induction cs₁ generalizing pool with
  | nil =>
    -- Nothing is appended, so the pool may be empty from the start.
    cases h rfl
    cases pool with
    | nil => rfl
    | cons x xs => rfl
  | cons c cs₁ ih =>
    rw [List.cons_append, narrow, narrow, bind_assoc]
    refine congrArg _ (funext fun kept => ?_)
    cases kept with
    | nil => rfl
    | cons x xs =>
      cases cs₁ with
      | nil => rfl
      | cons c' cs₁ => exact ih fun h => nomatch h

end Placement
