import Placement.Engine.Rehearsed
import Placement.Proofs.Constraint.Origin
import Placement.Proofs.Engine.Calls
import Placement.Proofs.Problem

/-!
# What a controller confirms

A constraint on services puts one question at most: it names the candidates of its inventory type in
their order, and it is not put where there are none. The answer may be any list of records. Of those
with one id the last one counts, and it counts for the candidates of the type only.
-/

namespace Placement

open Solving

variable {c : Constraint} {p : Path} {pool out records : List Candidate} {x y : Candidate}
  {id controller inventoryType : String} {request : Json} {cost : Float}

/-- Of the records with an id, `y` is the last. -/
def IsLastRecord (records : List Candidate) (id : String) (y : Candidate) : Prop :=
  ∃ before after, records = before ++ y :: after ∧ y.id = id ∧ ∀ z ∈ after, z.id ≠ id

/-- The candidates in their order: those of another type untouched, and each of the type replaced by
the last record with its id, or dropped if there is none. -/
inductive Merges (inventoryType : String) (records : List Candidate) :
    List Candidate → List Candidate → Prop
  | nil : Merges inventoryType records [] []
  | other {x : Candidate} {pool out : List Candidate} (htype : x.inventoryType ≠ inventoryType)
      (h : Merges inventoryType records pool out) :
      Merges inventoryType records (x :: pool) (x :: out)
  | confirmed {x y : Candidate} {pool out : List Candidate}
      (htype : x.inventoryType = inventoryType)
      (hy : IsLastRecord records x.id y) (h : Merges inventoryType records pool out) :
      Merges inventoryType records (x :: pool) (y :: out)
  | dropped {x : Candidate} {pool out : List Candidate} (htype : x.inventoryType = inventoryType)
      (hnone : ∀ z ∈ records, z.id ≠ x.id) (h : Merges inventoryType records pool out) :
      Merges inventoryType records (x :: pool) out

/-! ## Records by their ids -/

namespace Constraint

theorem lastRecord?_eq_some_iff : lastRecord? records id = some y ↔ IsLastRecord records id y := by
  unfold lastRecord? Candidate.find? IsLastRecord
  rw [List.find?_eq_some_iff_append]
  constructor
  · rintro ⟨hid, after, before, hrecords, hafter⟩
    refine ⟨before.reverse, after.reverse, ?_, eq_of_beq hid, fun z hz => ?_⟩
    · rw [← List.reverse_reverse records, hrecords]
      simp
    · simpa using hafter z (List.mem_reverse.1 hz)
  · rintro ⟨before, after, rfl, hid, hafter⟩
    refine ⟨beq_iff_eq.2 hid, after.reverse, before.reverse, by simp, fun z hz => ?_⟩
    simpa using hafter z (List.mem_reverse.1 hz)

theorem lastRecord?_eq_none_iff : lastRecord? records id = none ↔ ∀ z ∈ records, z.id ≠ id := by
  unfold lastRecord? Candidate.find?
  simp

theorem merges_takeConfirmed (inventoryType : String) (records : List Candidate) :
    ∀ pool : List Candidate, Merges inventoryType records pool
      (takeConfirmed inventoryType records pool)
  | [] => .nil
  | x :: pool => by
    have hrest := merges_takeConfirmed inventoryType records pool
    unfold takeConfirmed at hrest ⊢
    rw [List.filterMap_cons]
    by_cases htype : x.inventoryType = inventoryType
    · rw [if_pos htype]
      cases hlast : lastRecord? records x.id with
      | none => exact .dropped htype (lastRecord?_eq_none_iff.1 hlast) hrest
      | some y => exact .confirmed htype (lastRecord?_eq_some_iff.1 hlast) hrest
    · rw [if_neg htype]
      exact .other htype hrest

/-! ## The question -/

/-- The candidates that the controller is asked about. -/
def toCheck (inventoryType : String) (pool : List Candidate) : List Candidate :=
  pool.filter fun x => x.inventoryType == inventoryType

/-- What the controller is asked on behalf of the constraint and of the demand under resolution. -/
def lookup (c : Constraint) (controller inventoryType : String) (request : Json) (cost : Float)
    (p : Path) : ServiceLookup :=
  { constraint := c.name, kind := Kind.service.tag, controller, inventoryType, request, cost,
    demand := p.current.getD "" }

theorem filter_of_no_service (hrule : c.rule = .service controller inventoryType request cost)
    (hnone : toCheck inventoryType pool = []) : c.filter p pool = pure pool := by
  unfold toCheck at hnone
  unfold filter
  rw [hrule]
  simp only
  unfold keepServed
  rw [hnone]

theorem filter_of_services (hrule : c.rule = .service controller inventoryType request cost)
    (hsome : toCheck inventoryType pool ≠ []) :
    c.filter p pool =
      ask (.service (c.lookup controller inventoryType request cost p)
        (toCheck inventoryType pool)) >>= fun answer =>
        pure (takeConfirmed inventoryType (Option.getD answer []) pool) := by
  have hkind : c.kind = .service := congrArg Rule.kind hrule
  unfold toCheck lookup at *
  unfold filter
  rw [hrule]
  simp only
  unfold keepServed demandName
  rw [hkind]
  split
  · next hnone => exact absurd hnone hsome
  · rfl

/-- Let the engine answer what it may. Without candidates of its inventory type a constraint on
services asks nothing and lets through the pool as it is. Otherwise it asks once, about the
candidates of the type in their order; without a response there is no result, a failure of the
engine is the error, and no match is an answer without records. Into the result come, in the order
of the pool, the candidates of other types as they are and, for each candidate of the type, the last
record with its id, and nothing else. -/
theorem filter_by_controller {σ : Type}
    (hrule : c.rule = .service controller inventoryType request cost) (p : Path)
    (pool : List Candidate) (engine : Engine σ) (s : σ) :
    (toCheck inventoryType pool = [] →
      (c.filter p pool).calls engine s = [] ∧
      (c.filter p pool).outcome engine s = some (.ok pool)) ∧
    (toCheck inventoryType pool ≠ [] →
      let q :=
        Query.service (c.lookup controller inventoryType request cost p)
          (toCheck inventoryType pool)
      (c.filter p pool).calls engine s = [q] ∧
      ((engine.reply q s).1 = .silence → (c.filter p pool).outcome engine s = none) ∧
      (∀ e, (engine.reply q s).1 = .response (.error e) →
        (c.filter p pool).outcome engine s = some (.error (.engine e))) ∧
      ∀ answer : Option (List Candidate), (engine.reply q s).1 = .response (.ok answer) →
        ∃ out, (c.filter p pool).outcome engine s = some (.ok out) ∧
          Merges inventoryType (answer.getD []) pool out) := by
  refine ⟨fun hnone => ?_, fun hsome => ?_⟩
  · rw [filter_of_no_service hrule hnone]
    exact ⟨rfl, rfl⟩
  · rw [filter_of_services hrule hsome, outcome_ask_bind_pure]
    refine ⟨calls_ask_bind_pure _ _, fun h => ?_, fun e h => ?_, fun answer h => ?_⟩
    · rw [h]
    · rw [h]
      rfl
    · rw [h]
      exact ⟨_, rfl, merges_takeConfirmed inventoryType (answer.getD []) pool⟩

end Constraint

/-! ## An answer with repeats, with ids that were not asked about and with records of another
type -/

def Candidate.typed (id inventoryType : String) (cost : Float) : Candidate :=
  ⟨id, "aai", inventoryType, cost, []⟩

/-- Two services among two clouds. -/
def Candidate.mixedPool : List Candidate :=
  [.typed "c1" "cloud" 1.0, .typed "s1" "service" 1.0, .typed "s2" "service" 1.0,
    .typed "c2" "cloud" 1.0]

def Candidate.confirmedRecords : List Candidate :=
  [.typed "s1" "service" 5.0, .typed "c1" "service" 6.0, .typed "x" "service" 0.0,
    .typed "s1" "cloud" 7.0]

def Constraint.serviced : Constraint := ⟨"serviced", ["a"], 3, .service "sdnc" "service" .null 0.0⟩

/-- It confirms the same records whatever it is asked. -/
def Engine.confirming : Engine Unit :=
  .ofResponses fun
    | .service _ _ => .ok (some Candidate.confirmedRecords)
    | q => .ok (Recorded.answer q)

theorem Constraint.filter_by_controller_mixed :
    let out : List Candidate :=
      [.typed "c1" "cloud" 1.0, .typed "s1" "cloud" 7.0, .typed "c2" "cloud" 1.0]
    (serviced.filter {} Candidate.mixedPool).calls Engine.confirming () =
      [.service ⟨"serviced", "service", "sdnc", "service", .null, 0.0, ""⟩
        [.typed "s1" "service" 1.0, .typed "s2" "service" 1.0]] ∧
    (serviced.filter {} Candidate.mixedPool).outcome Engine.confirming () = some (.ok out) ∧
    Merges "service" Candidate.confirmedRecords Candidate.mixedPool out := by
  intro out
  obtain ⟨-, hasks⟩ :=
    filter_by_controller (c := serviced) rfl {} Candidate.mixedPool Engine.confirming ()
  obtain ⟨hcalls, -, -, hanswer⟩ := hasks (List.cons_ne_nil _ _)
  obtain ⟨out', hout', hmerges⟩ := hanswer (some Candidate.confirmedRecords) rfl
  have hout : (serviced.filter {} Candidate.mixedPool).outcome Engine.confirming () =
      some (.ok out) := rfl
  cases hout'.symm.trans hout
  exact ⟨hcalls, hout, hmerges⟩

end Placement
