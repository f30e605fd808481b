import Placement.Proofs.Engine.Prompt
import Placement.Proofs.Objective.Frame

/-!
# What an objective asks

The distances of an objective ask for the locations of candidates; nothing else in it asks anything.
-/

namespace Placement

open Solving

/-- The question is where some candidate is. -/
def Query.IsLocation (q : Query) : Prop := ∃ x, q = .location x

theorem Query.IsLocation.given_ne_nil {q : Query} (h : q.IsLocation) : q.given ≠ [] := by
  obtain ⟨x, rfl⟩ := h
  exact List.cons_ne_nil _ _

namespace Measure

theorem builtFrom_places (path : Path) :
    ∀ ds : List String, BuiltFrom Query.IsLocation (places path ds)
  | [] => .pure _
  | d :: ds => by
    unfold places
    refine .bind (.ofExcept _) fun c => .bind (.ask ⟨c, rfl⟩) fun place => ?_
    cases place with
    | none => exact .throw _
    | some l => exact .bind (builtFrom_places path ds) fun ls => .pure _

theorem builtFrom_value (f : Measure) (a : Atlas) (path : Path) (ps : Params) :
    BuiltFrom Query.IsLocation (f.value a path ps) := by
  unfold value
  refine .bind ?_ fun args => .ofExcept _
  cases f with
  | distance =>
    exact .bind (builtFrom_places path _) fun ls => .bind (.ofExcept _) fun named => .pure _
  | latency => exact .ofExcept _
  | field => exact .ofExcept _
  | cost => exact .ofExcept _

end Measure

namespace Term

mutual

theorem builtFrom_evaluate (a : Atlas) (path : Path) :
    ∀ t : Term, BuiltFrom Query.IsLocation (evaluate a path t)
  | leaf f ps scale => by
    unfold evaluate
    split
    · exact .bind (f.builtFrom_value a path ps) fun x => .pure _
    · exact .pure _
  | node o ts scale => by
    unfold evaluate
    exact .bind (builtFrom_values a path ts) fun xs => .pure _

theorem builtFrom_values (a : Atlas) (path : Path) :
    ∀ ts : List Term, BuiltFrom Query.IsLocation (values a path ts)
  | [] => .pure _
  | t :: ts => by
    unfold values
    exact .bind (builtFrom_evaluate a path t) fun x =>
      .bind (builtFrom_values a path ts) fun xs => .pure _

end

end Term

theorem Problem.builtFrom_score (p : Problem) (path : Path) :
    BuiltFrom Query.IsLocation (p.score path) := by
  unfold Problem.score
  rw [Objective.score_eq]
  unfold Objective.evaluate
  exact .bind (.bind (Term.builtFrom_values _ _ _) fun xs => .pure _) fun x => .pure _

end Placement
