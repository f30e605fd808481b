import Placement.Proofs.Constraint.Passes
import Placement.Proofs.Engine.Stateless
import Placement.Proofs.Folds
import Placement.Proofs.Problem

/-!
# Demands that a scope repeats

A descriptor may name a demand twice. What a constraint on zones or distances lets through depends
on which siblings there are and on which of them comes first in the scope, and a repeat changes
neither. An aggregation walks its scope as it stands: a demand under resolution that the scope
repeats is never seen as the last one, so nothing is aggregated at all, and another demand that the
scope repeats enters a sum or an average once for each time.
-/

namespace Placement

open Solving

/-! ## Aggregates that do not see repeats -/

/-- The aggregate is the same however often a value is given. -/
def Aggregate.ignoresRepeats : Aggregate → Bool
  | sum => false
  | average => false
  | min => true
  | max => true
  | first => true

theorem Aggregate.apply_eraseDups {a : Aggregate} (ha : a.ignoresRepeats = true)
    (v : String → Float) (ds : List String) :
    a.apply (ds.eraseDups.map v) = a.apply (ds.map v) := by
  cases ds with
  | nil => rfl
  | cons d ds =>
    have hleast := Folds.least_eraseDups v (d :: ds)
    have hgreatest := Folds.greatest_eraseDups v (d :: ds)
    rw [List.eraseDups_cons, List.map_cons, List.map_cons] at *
    unfold apply
    cases a with
    | sum => cases ha
    | average => cases ha
    | min => rw [hleast]
    | max => rw [hgreatest]
    | first => rfl

theorem numbersOf?_map (key : String) (m : String → Candidate) : ∀ ds : List String,
    numbersOf? key (ds.map m) =
      if ∀ d ∈ ds, ((m d).number? key).isSome =
        true then some (ds.map fun d => ((m d).number? key).getD 0.0) else none
  | [] => by simp [numbersOf?]
  | d :: ds => by
    rw [List.map_cons, numbersOf?, numbersOf?_map key m ds]
    cases hd : (m d).number? key with
    | none => simp [hd]
    | some x =>
      by_cases hds : ∀ d ∈ ds, ((m d).number? key).isSome = true
      · have hall : ∀ e ∈ d :: ds, ((m e).number? key).isSome = true :=
          List.forall_mem_cons.2 ⟨by simp [hd], hds⟩
        rw [if_pos hds, if_pos hall]
        simp [hd]
      · have hall : ¬ ∀ e ∈ d :: ds, ((m e).number? key).isSome = true :=
          fun h => hds (List.forall_mem_cons.1 h).2
        rw [if_neg hds, if_neg hall]
        rfl

theorem AggregationRule.accepts_eraseDups {r : AggregationRule}
    (hr : r.function.ignoresRepeats = true) (m : String → Candidate) (ds : List String) :
    r.accepts (ds.eraseDups.map m) = r.accepts (ds.map m) := by
  unfold accepts
  rw [numbersOf?_map, numbersOf?_map]
  by_cases hall : ∀ d ∈ ds, ((m d).number? r.key).isSome = true
  · rw [if_pos hall, if_pos fun d hd => hall d (List.mem_eraseDups.1 hd), Option.bind_some,
      Option.bind_some, Aggregate.apply_eraseDups hr]
  · rw [if_neg hall, if_neg fun h => hall fun d hd => h d (List.mem_eraseDups.2 hd)]

/-! ## Scopes without repeats -/

/-- The descriptor with every demand in its scope once, where it stands first. -/
def ConstraintSpec.once (spec : ConstraintSpec) : ConstraintSpec :=
  { spec with demands := spec.demands.eraseDups }

namespace Constraint

variable {σ : Type} {engine : Engine σ} {s : σ} {c c' : Constraint} {spec : ConstraintSpec}
  {p : Path} {d : String} {x : Candidate} {l : Location} {pool : List Candidate}

/-- The constraint with every demand in its scope once, where it stands first. -/
def once (c : Constraint) : Constraint := { c with demands := c.demands.eraseDups }

theorem build_once (h : Constraint.build spec = .ok c) :
    Constraint.build spec.once = .ok c.once := by
  obtain ⟨kind, rule, hkind, hscope, hrule, rfl⟩ := build_iff.1 h
  have hspans := (kind.decides_checkScope _).ok.1 ⟨_, hscope⟩
  obtain ⟨d, hd⟩ := List.exists_mem_of_ne_nil _ hspans.some
  have honce : kind.Spans spec.demands.eraseDups := by
    refine ⟨List.ne_nil_of_mem (List.mem_eraseDups.2 hd), fun hk => ?_⟩
    obtain ⟨d, hd, e, he, hne⟩ := hspans.two hk
    exact ⟨d, List.mem_eraseDups.2 hd, e, List.mem_eraseDups.2 he, hne⟩
  obtain ⟨⟨⟩, hscope'⟩ := (kind.decides_checkScope _).ok.2 honce
  exact build_iff.2 ⟨kind, rule, hkind, hscope', hrule, rfl⟩

/-! ## Siblings -/

theorem sameFirsts_decidedSiblings (c : Constraint) (p : Path) :
    SameFirsts (c.decidedSiblings p) (c.once.decidedSiblings p) := by
  intro q
  unfold decidedSiblings once
  simp only [List.find?_filterMap, List.find?_filter, find?_eraseDups]

/-! ### Zones -/

theorem keepZoned_congr (h : SameFirsts (c.decidedSiblings p) (c'.decidedSiblings p))
    (q : Qualifier) (category : String) :
    c.keepZoned q category p pool = c'.keepZoned q category p pool := by
  unfold keepZoned
  generalize c.decidedSiblings p = siblings at h
  generalize c'.decidedSiblings p = siblings' at h
  have hfits : ∀ x : Candidate, x.fitsZones q category (siblings.map Prod.snd) =
      x.fitsZones q category (siblings'.map Prod.snd) := by
    intro x
    unfold Candidate.fitsZones
    simp only [List.all_map, h.all_eq]
  cases siblings with
  | nil => rw [h.eq_nil]
  | cons y ys =>
    cases siblings' with
    | nil => cases h.symm.eq_nil
    | cons y' ys' =>
      simp only [List.map_cons] at hfits ⊢
      simp only [hfits]

/-! ### Distances -/

theorem keepNear_congr {r : DistanceRule} {others others' : List Location}
    (h : ∀ l, r.fits l others = r.fits l others') :
    ∀ pool, keepNear r others pool = keepNear r others' pool
  | [] => rfl
  | x :: xs => by
    unfold keepNear
    simp only [keepNear_congr h xs, h]

/-- Where the engine says that a candidate is, if it does. -/
def place? (engine : Engine σ) (s : σ) (x : Candidate) : Option Location :=
  match (locate x).outcome engine s with
  | some (.ok place) => place
  | _ => none

theorem place?_eq_some : place? engine s x = some l ↔
    (locate x).outcome engine s = some (.ok (some l)) := by
  unfold place?
  rcases (locate x).outcome engine s with _ | _ | place <;> simp

section

variable (he : engine.Stateless)
include he

theorem outcome_siblingLocations_of_place {rest : List (String × Candidate)}
    (h : place? engine s x = some l) :
    (siblingLocations ((d, x) :: rest)).outcome engine s =
      ((siblingLocations rest).outcome engine s).map fun r => r.map fun ls => l :: ls := by
  rw [siblingLocations, outcome_bind_ok he (place?_eq_some.1 h), outcome_bind he]
  rcases (siblingLocations rest).outcome engine s with _ | _ | ls <;> rfl

/-- The first sibling without a place ends the search for places, whatever comes after it. -/
theorem outcome_siblingLocations_of_no_place {rest : List (String × Candidate)}
    (h : place? engine s x = none) :
    (siblingLocations ((d, x) :: rest)).outcome engine s =
      (siblingLocations [(d, x)]).outcome engine s := by
  unfold place? at h
  rw [siblingLocations, siblingLocations, outcome_bind he, outcome_bind he]
  rcases hx : (locate x).outcome engine s with _ | _ | place
  · rfl
  · rfl
  · rw [hx] at h
    cases h
    rfl

theorem outcome_siblingLocations_ne_ok (h : place? engine s x = none) (ls : List Location) :
    (siblingLocations [(d, x)]).outcome engine s ≠ some (.ok ls) := by
  unfold place? at h
  rw [siblingLocations, outcome_bind he]
  rcases hx : (locate x).outcome engine s with _ | _ | place
  · exact nofun
  · exact nofun
  · rw [hx] at h
    cases h
    exact nofun

theorem outcome_siblingLocations : ∀ siblings : List (String × Candidate),
    (siblingLocations siblings).outcome engine s =
      match siblings.find? fun e => (place? engine s e.2).isNone with
      | none => some (.ok (siblings.filterMap fun e => place? engine s e.2))
      | some e => (siblingLocations [e]).outcome engine s
  | [] => rfl
  | (d, x) :: rest => by
    cases hx : place? engine s x with
    | none =>
      rw [outcome_siblingLocations_of_no_place he hx, List.find?_cons_of_pos (by simp [hx])]
    | some l =>
      rw [outcome_siblingLocations_of_place he hx, outcome_siblingLocations rest,
        List.find?_cons_of_neg (by simp [hx]), List.filterMap_cons, hx]
      cases hrest : rest.find? fun e => (place? engine s e.2).isNone with
      | none => rfl
      | some e =>
        have hplace : (place? engine s e.2).isNone = true := by simpa using List.find?_some hrest
        simp only
        rcases ho : (siblingLocations [e]).outcome engine s with _ | _ | ls
        · rfl
        · rfl
        · exact absurd ho
            (outcome_siblingLocations_ne_ok he (Option.isNone_iff_eq_none.1 hplace) ls)

theorem outcome_keepDistant_congr (h : SameFirsts (c.decidedSiblings p) (c'.decidedSiblings p))
    (r : DistanceRule) :
    (c.keepDistant r p pool).outcome engine s = (c'.keepDistant r p pool).outcome engine s := by
  unfold keepDistant
  generalize c.decidedSiblings p = siblings at h
  generalize c'.decidedSiblings p = siblings' at h
  -- Where all siblings have places, the lists of places differ in their repeats, which a distance
  -- rule does not see.
  have hnear : keepNear r (siblings.filterMap fun e => place? engine s e.2) pool =
      keepNear r (siblings'.filterMap fun e => place? engine s e.2) pool := by
    refine keepNear_congr (fun l => ?_) pool
    unfold DistanceRule.fits
    simp only [List.all_filterMap, h.all_eq]
  cases siblings with
  | nil => rw [h.eq_nil]
  | cons y ys =>
    cases siblings' with
    | nil => cases h.symm.eq_nil
    | cons y' ys' =>
      simp only
      rw [outcome_bind he, outcome_bind he, outcome_siblingLocations he,
        outcome_siblingLocations he, h]
      cases (y' :: ys').find? fun e => (place? engine s e.2).isNone with
      | none =>
        simp only [Option.bind_some]
        rw [hnear]
      | some e => rfl

/-- No constraint but an aggregation sees that its scope repeats a demand. -/
theorem outcome_filter_once (h : c.kind ≠ .aggregation) (p : Path) (pool : List Candidate) :
    (c.filter p pool).outcome engine s = (c.once.filter p pool).outcome engine s := by
  have hsame := c.sameFirsts_decidedSiblings p
  unfold kind at h
  unfold filter
  rw [show c.once.rule = c.rule from rfl]
  cases hrule : c.rule with
  | attributes evaluate => rfl
  | threshold key operator bound => rfl
  | distance r => exact outcome_keepDistant_congr he hsame r
  | aggregation rules =>
    rw [hrule] at h
    exact absurd rfl h
  | hpa requirements => rfl
  | vimFit request => rfl
  | service controller inventoryType request cost => rfl
  | zone qualifier category =>
    simp only
    rw [keepZoned_congr hsame]

end

/-! ## Aggregations -/

/-- The demand is in scope, and it is the only one there left to decide. -/
structure Closes (c : Constraint) (p : Path) (d : String) : Prop where
  mem : d ∈ c.demands
  undecided : p.isDecided d = false
  others : ∀ e ∈ c.demands, e ≠ d → p.isDecided e = true

theorem completes_once : c.once.Completes p d ↔ c.Closes p d := by
  have hcount : c.demands.eraseDups.count d = 1 ↔ d ∈ c.demands := by
    rw [← List.mem_eraseDups]
    constructor
    · intro h
      exact List.count_pos_iff.1 (by omega)
    · exact List.count_eq_one_of_mem (nodup_eraseDups _)
  unfold Completes once
  rw [hcount]
  simp only [List.mem_eraseDups]
  exact ⟨fun ⟨hd, hopen, hothers⟩ => ⟨hd, hopen, hothers⟩, fun h => ⟨h.mem, h.undecided, h.others⟩⟩

/-- Seen with its repeats, a scope is completed only by a demand that it does not repeat. -/
theorem completes_iff_closes : c.Completes p d ↔ c.Closes p d ∧ c.demands.count d = 1 := by
  constructor
  · rintro ⟨hcount, hopen, hothers⟩
    exact ⟨⟨List.count_pos_iff.1 (by omega), hopen, hothers⟩, hcount⟩
  · rintro ⟨h, hcount⟩
    exact ⟨hcount, h.undecided, h.others⟩

theorem keepAggregated_of_completes {rules : List AggregationRule} (hcurrent : p.current = some d)
    (h : c.Completes p d) :
    c.keepAggregated rules p pool =
      pool.filter fun x => rules.all fun r => r.accepts (c.members p d x) := by
  unfold keepAggregated
  rw [(lastToResolve_eq_some hcurrent).2 ⟨rfl, h⟩]

theorem keepAggregated_of_not_completes {rules : List AggregationRule}
    (hcurrent : p.current = some d) (h : ¬ c.Completes p d) :
    c.keepAggregated rules p pool = pool := by
  have hlast : c.lastToResolve p = none := by
    rw [Option.eq_none_iff_forall_ne_some]
    exact fun e he => h ((lastToResolve_eq_some hcurrent).1 he).2
  unfold keepAggregated
  rw [hlast]

/-- The members are the candidates for those demands in scope that are the one under resolution or
committed. -/
theorem members_eq_map (c : Constraint) (p : Path) (d : String) (x : Candidate) :
    c.members p d x = (c.demands.filter fun e => e == d || (p.decided e).isSome).map fun e =>
      if e = d then x else (p.decided e).getD x := by
  unfold members
  rw [← List.filterMap_eq_map, List.filterMap_filter]
  refine List.filterMap_congr fun e _ => ?_
  by_cases hed : e = d
  · simp [hed]
  · cases hx : p.decided e with
    | none => simp [hed]
    | some y => simp [hed, hx]

/-- Rules whose aggregates do not depend on repeats accept the same candidates. -/
theorem accepts_members_once {r : AggregationRule} (hr : r.function.ignoresRepeats = true)
    (p : Path) (d : String) (x : Candidate) :
    r.accepts (c.once.members p d x) = r.accepts (c.members p d x) := by
  rw [members_eq_map, members_eq_map, show c.once.demands = c.demands.eraseDups from rfl,
    ← eraseDups_filter]
  exact AggregationRule.accepts_eraseDups hr _ _

/-- A constraint that was built can be built with every demand in its scope once, where it stands
first. Unless it aggregates, both let through the same candidates or fail alike, whatever the path.
If it aggregates, both let through every candidate for a demand that is not the only one in scope
left to decide. For the one that is, the constraint without repeats counts every demand once; the
other one lets through every candidate if its scope repeats the demand, and else counts the others
as often as the scope names them, which makes no difference to rules that neither sum nor
average. -/
theorem filter_with_repeats (h : Constraint.build spec = .ok c) (he : engine.Stateless) (s : σ)
    (p : Path) (pool : List Candidate) :
    Constraint.build spec.once = .ok c.once ∧ c.once.demands.Nodup ∧
    (c.kind ≠ .aggregation →
      (c.filter p pool).outcome engine s = (c.once.filter p pool).outcome engine s) ∧
    ∀ rules d, c.rule = .aggregation rules → p.current = some d →
      (¬ c.Closes p d → c.filter p pool = pure pool ∧ c.once.filter p pool = pure pool) ∧
      (c.Closes p d →
        c.once.filter p pool =
          pure (pool.filter fun x => rules.all fun r => r.accepts (c.once.members p d x)) ∧
        (c.demands.count d ≠ 1 → c.filter p pool = pure pool) ∧
        (c.demands.count d = 1 →
          c.filter p pool =
            pure (pool.filter fun x => rules.all fun r => r.accepts (c.members p d x)) ∧
          ((∀ r ∈ rules, r.function.ignoresRepeats = true) →
            c.filter p pool = c.once.filter p pool))) := by
  refine ⟨build_once h, nodup_eraseDups _, fun hkind => outcome_filter_once he hkind p pool,
    fun rules d hrule hcurrent => ?_⟩
  have hfilter : c.filter p pool = pure (c.keepAggregated rules p pool) := by
    unfold filter
    rw [hrule]
  have honce : c.once.filter p pool = pure (c.once.keepAggregated rules p pool) := by
    unfold filter
    rw [show c.once.rule = .aggregation rules from hrule]
  rw [hfilter, honce]
  refine ⟨fun hopen => ?_, fun hcloses => ?_⟩
  · rw [keepAggregated_of_not_completes hcurrent fun hc => hopen (completes_iff_closes.1 hc).1,
      keepAggregated_of_not_completes hcurrent fun hc => hopen (completes_once.1 hc)]
    exact ⟨rfl, rfl⟩
  · rw [keepAggregated_of_completes hcurrent (completes_once.2 hcloses)]
    refine ⟨rfl, fun hcount => ?_, fun hcount => ?_⟩
    · rw [keepAggregated_of_not_completes hcurrent fun hc => hcount (completes_iff_closes.1 hc).2]
    · rw [keepAggregated_of_completes hcurrent (completes_iff_closes.2 ⟨hcloses, hcount⟩)]
      refine ⟨rfl, fun hrules => congrArg pure (List.filter_congr fun x _ => ?_)⟩
      rw [Bool.eq_iff_iff, List.all_eq_true, List.all_eq_true]
      exact forall₂_congr fun r hr => by rw [accepts_members_once (hrules r hr)]

end Constraint

/-! ## A bound on the total cost of two demands -/

/-- The total cost of the demands in scope is four at most. -/
def ConstraintSpec.affordable (demands : List String) : ConstraintSpec where
  name := "affordable"
  kind := "aggregation"
  demands := demands
  priority := none
  properties := .object
    [("evaluate", .array [.object [("attribute", .string "cost"), ("function", .string "sum"),
      ("operator", .string "lte"), ("threshold", .int 4)]])]

def Constraint.affordable (demands : List String) : Constraint where
  name := "affordable"
  demands := demands
  priority := 8
  rule := .aggregation [⟨"cost", .sum, .lte, 4.0⟩]

/-- The first site is left to decide, and the second costs three. -/
def Path.secondDecided : Path := { holding [("b", .eastern "b1" 3.0)] with current := some "a" }

/-- The second site is left to decide, and the first costs one. -/
def Path.firstDecided : Path := { holding [("a", .eastern "a2" 1.0)] with current := some "b" }

namespace Constraint

theorem build_affordable :
    Constraint.build (.affordable ["a", "b", "a"]) = .ok (affordable ["a", "b", "a"]) := rfl

theorem filter_with_repeats_affordable :
    (affordable ["a", "b", "a"]).Closes .secondDecided "a" ∧
    (affordable ["a", "b", "a"]).filter .secondDecided [.eastern "a1" 3.0] =
      pure [.eastern "a1" 3.0] ∧
    (affordable ["a", "b", "a"]).once.filter .secondDecided [.eastern "a1" 3.0] = pure [] ∧
    (affordable ["a", "b", "a"]).Closes .firstDecided "b" ∧
    (affordable ["a", "b", "a"]).filter .firstDecided [.eastern "b1" 3.0] = pure [] ∧
    (affordable ["a", "b", "a"]).once.filter .firstDecided [.eastern "b1" 3.0] =
      pure [.eastern "b1" 3.0] := by
  have hsecond : (affordable ["a", "b", "a"]).Closes .secondDecided "a" :=
    ⟨by decide, rfl, by decide⟩
  have hfirst : (affordable ["a", "b", "a"]).Closes .firstDecided "b" := ⟨by decide, rfl, by decide⟩
  obtain ⟨-, -, -, hrepeated⟩ := filter_with_repeats build_affordable Engine.stateless_recorded ()
    .secondDecided [.eastern "a1" 3.0]
  obtain ⟨-, -, -, hcounted⟩ := filter_with_repeats build_affordable Engine.stateless_recorded ()
    .firstDecided [.eastern "b1" 3.0]
  obtain ⟨honce, hall, -⟩ := (hrepeated _ "a" rfl rfl).2 hsecond
  obtain ⟨honce', -, htwice⟩ := (hcounted _ "b" rfl rfl).2 hfirst
  exact ⟨hsecond, hall (by decide), honce, hfirst, (htwice rfl).1, honce'⟩

/-- A bound on the total is not judged, or judged against twice the cost of a site, where the scope
repeats the site. -/
theorem aggregation_sees_repeats :
    Constraint.build (.affordable ["a", "b", "a"]) = .ok (affordable ["a", "b", "a"]) ∧
    Constraint.build (ConstraintSpec.affordable ["a", "b", "a"]).once =
      .ok (affordable ["a", "b"]) ∧
    ((affordable ["a", "b", "a"]).filter .secondDecided [.eastern "a1" 3.0]).outcome
      Engine.recorded () =
      some (.ok [.eastern "a1" 3.0]) ∧
    ((affordable ["a", "b"]).filter .secondDecided [.eastern "a1" 3.0]).outcome Engine.recorded () =
      some (.ok []) ∧
    ((affordable ["a", "b", "a"]).filter .firstDecided [.eastern "b1" 3.0]).outcome
      Engine.recorded () =
      some (.ok []) ∧
    ((affordable ["a", "b"]).filter .firstDecided [.eastern "b1" 3.0]).outcome Engine.recorded () =
      some (.ok [.eastern "b1" 3.0]) :=
  ⟨rfl, rfl, rfl, rfl, rfl, rfl⟩

end Constraint

end Placement
