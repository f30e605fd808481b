import Placement.Proofs.Constraint.Verdict
import Placement.Proofs.Search.Run

/-!
# What survivors keep of their records

Against the engine that answers from the records, the constraints on a demand drop candidates and
annotate those that they let through, and nothing else: `Leaves rs pool out` says that `out` is a
part of the pool, in its order, with the flavors for the requirements `rs`. A constraint on hardware
leaves candidates with the flavors for its own requirements, any other constraint for none, and what
one constraint after the other leaves is so with the requirements of all of them.
-/

namespace Placement

open Solving Recorded

/-! ## Records with annotations -/

/-- The second record is the first one, but for a flavor map that is absent or an object and
directives that are absent or an array; to an array they are added at the end. -/
structure Framed (x y : Candidate) : Prop where
  rest : y = { x with attributes := y.attributes }
  others : ∀ key, key ∉ annotationKeys → Table.get? y.attributes key = Table.get? x.attributes key
  flavorMap : ∀ v, Table.get? x.attributes "flavor_map" = some v → (∀ m, v ≠ .object m) →
    Table.get? y.attributes "flavor_map" = some v
  directives : ∀ v, Table.get? x.attributes "all_directives" = some v → (∀ ds, v ≠ .array ds) →
    Table.get? y.attributes "all_directives" = some v
  appended : ∀ ds, Table.get? x.attributes "all_directives" = some (.array ds) →
    ∃ more, Table.get? y.attributes "all_directives" = some (.array (ds ++ more))

theorem Recorded.Equipped.framed {rs : List HpaRequirement} {x y : Candidate}
    (h : Equipped rs x y) : Framed x y := by
  obtain ⟨picks, -, -, hxy⟩ := h
  have hmap := hxy.flavorMap
  have hdirectives := hxy.directives
  refine ⟨hxy.rest, hxy.others, fun v hv hno => ?_, fun v hv hno => ?_, fun ds hds => ?_⟩
  · rw [hv] at hmap
    exact hmap.of_not_object hno
  · rw [hv] at hdirectives
    exact hdirectives.of_not_array hno
  · rw [hds] at hdirectives
    exact hdirectives.of_array

/-! ## Survivors and commitments -/

namespace Problem

variable {plan : Plan} {p : Problem} {path : Path} {d : Demand} {done : List Demand}
  {out : List Candidate} {log : List Exchange}

/-- The requirements of all constraints on a demand, in the order in which they are asked about. -/
def requirementsOn (p : Problem) (d : Demand) : List HpaRequirement :=
  (p.constraintsFor d.name).flatMap Constraint.requirements

/-- The record is one of the demand's pool, with flavors for requirements of constraints on the
demand. -/
def Stems (p : Problem) (d : Demand) (y : Candidate) : Prop :=
  ∃ x ∈ d.candidates, ∃ rs, rs.Sublist (p.requirementsOn d) ∧ Equipped rs x y ∧ Framed x y

theorem leaves_survivors (hp : p.WellFormed) (hd : d ∈ p.demands)
    (h : Ends (p.survivors path d) log (.ok out)) (ha : Engine.recorded.Answers log) :
    ∃ rs, rs.Sublist (p.requirementsOn d) ∧ Leaves rs d.candidates out :=
  (admits_of_narrow (hp.pools d hd) h ha).1

/-- Without a constraint on hardware the records stay as they are. -/
theorem requirementsOn_eq_nil (h : ∀ c ∈ p.constraintsFor d.name, c.kind ≠ .hpa) :
    p.requirementsOn d = [] := by
  refine List.flatMap_eq_nil_iff.2 fun c hc => ?_
  have hkind := h c hc
  unfold Constraint.kind at hkind
  unfold Constraint.requirements
  split
  · next rs hrule =>
    rw [hrule] at hkind
    exact absurd rfl hkind
  · rfl

theorem Stems.of_leaves {rs : List HpaRequirement} {y : Candidate}
    (hrs : rs.Sublist (p.requirementsOn d)) (h : Leaves rs d.candidates out) (hy : y ∈ out) :
    p.Stems d y := by
  obtain ⟨x, hx, hxy⟩ := h.exists_mem hy
  exact ⟨x, hx, rs, hrs, hxy, hxy.framed⟩

/-- Wherever a run gets, it has committed a candidate from the pool of each demand. -/
theorem stems_of_reaches (hp : p.WellFormed) (h : Greedy.Reaches p done log path)
    (hdone : done ⊆ p.demands) (ha : Engine.recorded.Answers log) :
    List.Forall₂ (fun d e => e.1 = d.name ∧ p.Stems d e.2) done path.committed := by
  induction h with
  | start => exact .nil
  | @round done d log log' path path' _ hround ih =>
    obtain ⟨hdone, hd⟩ := List.append_subset.1 hdone
    obtain ⟨ha₀, ha₁⟩ := Engine.answers_append.1 ha
    obtain ⟨log₁, log₂, pool, r, w, rfl, hpool, -, -, hw, hcommits⟩ :=
      Greedy.commits_of_round hround
    obtain ⟨rs, hrs, hleaves⟩ :=
      leaves_survivors hp (hd List.mem_cons_self) hpool (Engine.answers_append.1 ha₁).1
    have hlast : List.Forall₂ (fun d e => e.1 = d.name ∧ p.Stems d e.2) [d] [(d.name, w)] :=
      .cons ⟨rfl, .of_leaves hrs hleaves hw⟩ .nil
    have hcommitted : (Greedy.resting path').committed = path.committed ++ [(d.name, w)] :=
      hcommits.committed
    rw [hcommitted]
    exact List.rel_append (ih hdone ha₀) hlast

/-- Against the engine that answers from the records, the survivors of a demand on whatever path are
candidates of its pool, in the order of the pool and no two with one id, each with its own record
but for the flavors chosen for the requirements of constraints on the demand, and without such a
constraint the very records. So every candidate that a search commits, in however many rounds, is
one of the pool of its demand up to these annotations. -/
theorem survivors_annotated (hp : ofPlan plan = .ok p) :
    (∀ d ∈ p.demands, ∀ path out, (p.survivors path d).outcome Engine.recorded () = some (.ok out) →
      (out.map Candidate.id).Sublist (d.candidates.map Candidate.id) ∧
      (out.map Candidate.id).Nodup ∧
      (∃ rs kept, rs.Sublist (p.requirementsOn d) ∧ kept.Sublist d.candidates ∧
        List.Forall₂ (fun x y => Equipped rs x y ∧ Framed x y) kept out) ∧
      ((∀ c ∈ p.constraintsFor d.name, c.kind ≠ .hpa) → out.Sublist d.candidates)) ∧
    (∀ k path, (p.greedyUpTo k).outcome Engine.recorded () = some (.ok (some path)) →
      List.Forall₂ (fun d e => e.1 = d.name ∧ p.Stems d e.2) (p.demands.take k) path.committed) ∧
    ∀ path, p.greedy.outcome Engine.recorded () = some (.ok (some path)) →
      List.Forall₂ (fun d e => e.1 = d.name ∧ p.Stems d e.2) p.demands path.committed := by
  have hwf := ofPlan_wellFormed hp
  have hcommitted : ∀ k path, (p.greedyUpTo k).outcome Engine.recorded () = some (.ok (some path)) →
      List.Forall₂ (fun d e => e.1 = d.name ∧ p.Stems d e.2) (p.demands.take k) path.committed := by
    intro k path h
    obtain ⟨log, h, ha⟩ := (outcome_iff Engine.stateless_recorded).1 h
    exact stems_of_reaches hwf (Greedy.ends_rounds_some.1 h) (List.take_subset k p.demands) ha
  refine ⟨fun d hd path out h => ?_, hcommitted, fun path h => ?_⟩
  · obtain ⟨log, h, ha⟩ := (outcome_iff Engine.stateless_recorded).1 h
    obtain ⟨rs, hrs, hleaves⟩ := leaves_survivors hwf hd h ha
    refine ⟨hleaves.ids, (hwf.pools d hd).sublist hleaves.ids, ?_, fun hkinds => ?_⟩
    · obtain ⟨kept, hkept, hout⟩ := hleaves
      exact ⟨rs, kept, hrs, hkept, hout.imp fun x y hxy => ⟨hxy, hxy.framed⟩⟩
    · rw [requirementsOn_eq_nil hkinds] at hrs
      rw [List.sublist_nil.1 hrs] at hleaves
      exact hleaves.sublist_of_nil
  · rw [← greedyUpTo_length] at h
    have hall := hcommitted p.demands.length path h
    rwa [List.take_length] at hall

theorem survivors_annotated_twoSites :
    ∃ path, Problem.twoSites.greedy.outcome Engine.recorded () = some (.ok (some path)) ∧
      path.trace = "a:a2>b:b1>" ∧
      List.Forall₂ (fun d e => e.1 = d.name ∧ Problem.twoSites.Stems d e.2) Problem.twoSites.demands
        path.committed := by
  obtain ⟨-, -, hcommitted⟩ := survivors_annotated ofPlan_twoSites
  obtain ⟨path, h, htrace⟩ :=
    Greedy.exists_path (o := Problem.twoSites.greedy.outcome Engine.recorded ())
    (fun path => path.trace == "a:a2>b:b1>") (by decide +kernel)
  exact ⟨path, h, eq_of_beq htrace, hcommitted path h⟩

end Problem

end Placement
