import Placement.Proofs.Problem
import Placement.Proofs.Search.Round

/-!
# Runs of the greedy search

`Reaches p done log path`: with the exchanges `log`, the rounds for the demands `done` all commit
and leave the search at `path`. A search that returns a path has reached it with all demands done;
any other search has reached the path on which one of its rounds ends the search. What one round
preserves therefore holds wherever a search gets.
-/

namespace Placement

open Solving

/-- The first rounds of the greedy search, as a search of its own. -/
def Problem.greedyUpTo (p : Problem) (k : Nat) : Solving (Option Path) :=
  Greedy.rounds p {} (p.demands.take k)

theorem Problem.demands_split {p : Problem} {k : Nat} {d : Demand} (hd : p.demands[k]? = some d) :
    p.demands = p.demands.take k ++ d :: p.demands.drop (k + 1) := by
  obtain ⟨hk, rfl⟩ := List.getElem?_eq_some_iff.1 hd
  rw [List.getElem_cons_drop, List.take_append_drop]

theorem Problem.demand_of_split {p : Problem} {d : Demand} {ds es : List Demand}
    (h : p.demands = ds ++ d :: es) :
    p.demands[ds.length]? = some d := by
  rw [h, List.getElem?_append_right (Nat.le_refl _), Nat.sub_self]
  rfl

namespace Greedy

variable {p : Problem} {path path' q : Path} {d : Demand} {ds es done : List Demand}
  {log log₁ log₂ : List Exchange} {e : SolveError}

/-- The path with no demand under resolution. -/
def resting (path : Path) : Path := { path with current := none }

inductive Reaches (p : Problem) : List Demand → List Exchange → Path → Prop where
  | start : Reaches p [] [] {}
  | round {done : List Demand} {d : Demand} {log log' : List Exchange} {path path' : Path} :
      Reaches p done log path → Ends (round p path d) log' (.ok (some path')) →
        Reaches p (done ++ [d]) (log ++ log') (resting path')

/-! ## Rounds one after the other -/

theorem rounds_resting (p : Problem) (path : Path) (ds : List Demand) :
    rounds p (resting path) ds = rounds p path ds := by
  cases ds with
  | nil => rfl
  | cons d ds => rfl

theorem rounds_append (p : Problem) (path : Path) (ds es : List Demand) :
    rounds p path (ds ++ es) = rounds p path ds >>= fun o =>
      match o with
      | none => pure none
      | some path => rounds p path es := by
  induction ds generalizing path with
  | nil =>
    rw [List.nil_append, rounds, pure_bind]
    exact (rounds_resting p path es).symm
  | cons d ds ih =>
    rw [List.cons_append, rounds, rounds, bind_assoc]
    congr 1
    funext o
    cases o with
    | none => rw [pure_bind]
    | some path => exact ih path

/-- The rounds of a run either all commit, or one of them ends the run as it ends itself. -/
theorem ends_rounds {r : Except SolveError (Option Path)} :
    ∀ {ds done : List Demand} {log log₀ : List Exchange} {path : Path},
      Reaches p done log₀ (resting path) →
      Ends (rounds p path ds) log r →
        (∃ path', r = .ok (some path') ∧ Reaches p (done ++ ds) (log₀ ++ log) path') ∨
          (∀ path', r ≠ .ok (some path')) ∧ ∃ ds₁ d ds₂ log₁ log₂ path', ds = ds₁ ++ d :: ds₂ ∧
            log = log₁ ++ log₂ ∧
            Reaches p (done ++ ds₁) (log₀ ++ log₁) path' ∧ Ends (round p path' d) log₂ r
  | [], done, log, log₀, path, hpath, h => by
    obtain ⟨rfl, rfl⟩ := ends_pure.1 h
    rw [List.append_nil, List.append_nil]
    exact .inl ⟨_, rfl, hpath⟩
  | d :: ds, done, log, log₀, path, hpath, h => by
    unfold rounds at h
    rcases ends_bind.1 h with ⟨e, rfl, hd⟩ | ⟨log₁, log₂, o, rfl, hd, h⟩
    · refine .inr ⟨by simp, [], d, ds, [], log, resting path, rfl, rfl, ?_, hd⟩
      rw [List.append_nil, List.append_nil]
      exact hpath
    · cases o with
      | none =>
        obtain ⟨rfl, rfl⟩ := ends_pure.1 h
        rw [List.append_nil]
        refine .inr ⟨by simp, [], d, ds, [], log₁, resting path, rfl, rfl, ?_, hd⟩
        rw [List.append_nil, List.append_nil]
        exact hpath
      | some path' =>
        rcases ends_rounds (.round hpath hd) h with
          ⟨q, rfl, hq⟩ | ⟨hr, ds₁, e, ds₂, log₃, log₄, q, rfl, rfl, hq, he⟩
        · rw [List.append_assoc, List.append_assoc] at hq
          exact .inl ⟨q, rfl, hq⟩
        · refine .inr ⟨hr, d :: ds₁, e, ds₂, log₁ ++ log₃, log₄, q, rfl,
            (List.append_assoc _ _ _).symm, ?_, he⟩
          rw [List.append_assoc, List.append_assoc] at hq
          exact hq

theorem Reaches.ends (h : Reaches p done log path) :
    Ends (rounds p {} done) log (.ok (some path)) := by
  induction h with
  | start => exact ends_pure.2 ⟨rfl, rfl⟩
  | round _ hd ih =>
    rw [rounds_append]
    refine ends_bind_ok.2 ⟨_, _, _, rfl, ih, ?_⟩
    exact ends_bind_ok.2 ⟨_, [], _, (List.append_nil _).symm, hd, ends_pure.2 ⟨rfl, rfl⟩⟩

theorem ends_rounds_some : Ends (rounds p {} ds) log (.ok (some path)) ↔ Reaches p ds log path := by
  constructor
  · intro h
    rcases ends_rounds .start h with ⟨path', hr, hreaches⟩ | ⟨hr, -⟩
    · cases hr
      exact hreaches
    · exact absurd rfl (hr path)
  · exact Reaches.ends

/-- A run that comes to no path has come to the round that ends it. -/
theorem ends_rounds_stop {r : Except SolveError (Option Path)} (hr : ∀ path, r ≠ .ok (some path)) :
    Ends (rounds p {} ds) log r ↔ ∃ ds₁ d ds₂ log₁ log₂ path, ds = ds₁ ++ d :: ds₂ ∧
      log = log₁ ++ log₂ ∧
      Reaches p ds₁ log₁ path ∧ Ends (round p path d) log₂ r := by
  constructor
  · intro h
    rcases ends_rounds .start h with ⟨path', rfl, -⟩ | ⟨-, hstop⟩
    · exact absurd rfl (hr path')
    · exact hstop
  · rintro ⟨ds₁, d, ds₂, log₁, log₂, path, rfl, rfl, hreaches, hd⟩
    rw [rounds_append]
    refine ends_bind.2 (.inr ⟨log₁, log₂, some path, rfl, hreaches.ends, ?_⟩)
    refine ends_bind.2 ?_
    rcases r with e | _ | path'
    · exact .inl ⟨e, rfl, hd⟩
    · exact .inr ⟨log₂, [], none, (List.append_nil _).symm, hd, ends_pure.2 ⟨rfl, rfl⟩⟩
    · exact absurd rfl (hr path')

/-! ## Where a run gets -/

/-- A path whose parts agree, on which some demands are committed, in their order, and nothing is
assumed. -/
structure Stands (done : List Demand) (path : Path) : Prop where
  agrees : path.Agrees
  names : path.committed.map Prod.fst = done.map Demand.name
  decisions : path.decisions = path.committed
  heuristicValue : path.heuristicValue = 0.0

theorem Stands.assumed (h : Stands done path) : path.assumed = [] := by
  unfold Path.assumed
  rw [List.filter_eq_nil_iff, h.decisions]
  intro e he
  rw [h.agrees.isDecided_iff.2 (List.mem_map_of_mem he)]
  exact Bool.false_ne_true

/-- What a round commits comes last among the decisions as well. -/
theorem Stands.commits {w : Candidate} {score : Float} (h : Stands done path)
    (hcommits : Commits d.name w score path path') : Stands (done ++ [d]) path' := by
  have hnew : d.name ∉ path.committed.map Prod.fst :=
    h.agrees.isDecided_eq_false.1 hcommits.undecided
  refine ⟨hcommits.agrees h.agrees, ?_, ?_, hcommits.heuristicValue.trans h.heuristicValue⟩
  · rw [hcommits.committed, List.map_append, List.map_append, h.names]
    rfl
  · rw [hcommits.decisions, h.decisions, Path.put_of_not_mem hnew, hcommits.committed]

theorem Reaches.stands (h : Reaches p done log path) : Stands done path := by
  induction h with
  | start => exact ⟨Path.agrees_empty, rfl, rfl, rfl⟩
  | @round done d log log' path path' _ hd ih =>
    obtain ⟨log₁, log₂, pool, r, w, rfl, -, -, -, -, hcommits⟩ := commits_of_round hd
    obtain ⟨hagrees, hnames, hdecisions, hheuristic⟩ := ih.commits hcommits
    exact ⟨hagrees.congr rfl rfl rfl, hnames, hdecisions, hheuristic⟩

/-- A demand whose round has not come yet is not decided. -/
theorem Reaches.undecided (hp : p.WellFormed) (h : Reaches p done log path)
    (hds : p.demands = done ++ d :: ds) :
    path.isDecided d.name = false := by
  have hnodup := hp.names
  unfold Problem.names at hnodup
  rw [hds, List.map_append, List.map_cons] at hnodup
  rw [← h.stands.names] at hnodup
  exact h.stands.agrees.not_isDecided_of_nodup hnodup

/-! ## Runs by the number of rounds -/

variable {σ : Type} {engine : Engine σ} {s : σ} {k : Nat}

theorem reaches_of_greedyUpTo (h : (p.greedyUpTo k).outcome engine s = some (.ok (some path))) :
    ∃ log, Reaches p (p.demands.take k) log path ∧ engine.Gives s log := by
  obtain ⟨hends, hgives⟩ := ends_of_outcome h
  exact ⟨_, ends_rounds_some.1 hends, hgives⟩

theorem Reaches.greedyUpTo (h : Reaches p done log path) (hg : engine.Gives s log)
    (hds : p.demands = done ++ ds) :
    (p.greedyUpTo done.length).outcome engine s = some (.ok (some path)) := by
  unfold Problem.greedyUpTo
  rw [hds, List.take_left]
  exact outcome_of_ends h.ends hg

/-- An outcome of which a test of the returned path can be evaluated. -/
theorem exists_path {o : Option (Except SolveError (Option Path))} (test : Path → Bool)
    (h : (match o with
      | some (.ok (some path)) => test path
      | _ => false) = true) : ∃ path, o = some (.ok (some path)) ∧ test path = true := by
  rcases o with _ | _ | _ | path
  · cases h
  · cases h
  · cases h
  · exact ⟨path, rfl, h⟩

/-- An outcome of which it can be evaluated that there is no path. -/
theorem outcome_eq_none {o : Option (Except SolveError (Option Path))}
    (h : (match o with
      | some (.ok none) => true
      | _ => false) = true) : o = some (.ok none) := by
  rcases o with _ | _ | _ | path
  · cases h
  · cases h
  · rfl
  · cases h

end Greedy

/-! ## The first rounds and those after them -/

namespace Problem

variable {p : Problem} {d : Demand} {k : Nat}

/-- The search is its first rounds and what follows them. -/
theorem greedy_eq_bind (p : Problem) (k : Nat) : p.greedy = p.greedyUpTo k >>= fun o =>
    match o with
    | none => pure none
    | some path => Greedy.rounds p path (p.demands.drop k) := by
  have happend := Greedy.rounds_append p {} (p.demands.take k) (p.demands.drop k)
  rw [List.take_append_drop] at happend
  exact happend

/-- What follows the first rounds starts with the round for the next demand. -/
theorem greedy_eq_bind_round (hd : p.demands[k]? = some d) : p.greedy = p.greedyUpTo k >>= fun o =>
    match o with
    | none => pure none
    | some path => Greedy.round p path d >>= fun o =>
      match o with
      | none => pure none
      | some path => Greedy.rounds p path (p.demands.drop (k + 1)) := by
  obtain ⟨hk, rfl⟩ := List.getElem?_eq_some_iff.1 hd
  rw [greedy_eq_bind p k, List.drop_eq_getElem_cons hk]
  rfl

/-- The round for one more demand. -/
theorem greedyUpTo_succ (p : Problem) (k : Nat) : p.greedyUpTo (k + 1) = p.greedyUpTo k >>= fun o =>
    match o with
    | none => pure none
    | some path => Greedy.rounds p path p.demands[k]?.toList := by
  unfold greedyUpTo
  rw [List.take_add_one, Greedy.rounds_append]

theorem greedyUpTo_length (p : Problem) : p.greedyUpTo p.demands.length = p.greedy := by
  unfold greedyUpTo greedy
  rw [List.take_length]

end Problem

end Placement
