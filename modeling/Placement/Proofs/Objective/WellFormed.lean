import Placement.Objective.Basic
import Placement.Proofs.Checks
import Placement.Proofs.Table

/-!
# Well-formed descriptors of objectives

A tree of operations is well formed if each operator is known and has an operand, and each operand
is scaled properly and is either a function that takes its parameters, all of which are in scope, or
a well-formed operation. The first fault of a tree is met depth-first: an operator before its
operands, an operand before those after it, and the scale of an operand before what it scales.
-/

namespace Placement

variable {s : Scope}

/-! ## Names -/

namespace Operator

theorem decides_resolve (name : String) :
    Decides (resolve name) (∃ o : Operator, name ∈ o.spellings) fun e =>
      (¬∃ o : Operator, name ∈ o.spellings) ∧ e = .unknownOperator name := by
  unfold resolve
  cases hfind : ofName? name with
  | some o =>
    have ho : name ∈ o.spellings := by simpa using List.find?_some hfind
    exact (Decides.of_ok _).congr (iff_of_true trivial ⟨o, ho⟩) fun e =>
      iff_of_false id fun h => h.1 ⟨o, ho⟩
  | none =>
    have hnone : ¬∃ o : Operator, name ∈ o.spellings := by
      rintro ⟨o, ho⟩
      exact List.find?_eq_none.1 hfind o (by cases o <;> decide) (List.contains_iff_mem.2 ho)
    exact (Decides.of_error _).congr (iff_of_false id hnone) fun e => (and_iff_right hnone).symm

end Operator

namespace Measure

variable {f : Measure} {name : String} {ps : Params}

theorem ofName?_eq_some : ofName? name = some f ↔ f.name = name := by
  have hdistinct : ∀ f ∈ all, ∀ f' ∈ all, f.name = f'.name → f = f' := by decide
  have hall : ∀ f : Measure, f ∈ all := fun f => by cases f <;> decide
  unfold ofName?
  rw [find?_eq_some_of_unique hall, beq_iff_eq]
  intro f f' h h'
  exact hdistinct f (hall f) f' (hall f') ((beq_iff_eq.1 h).trans (beq_iff_eq.1 h').symm)

theorem ofName?_eq_none : ofName? name = none ↔ ∀ f : Measure, f.name ≠ name := by
  unfold ofName?
  rw [find?_eq_none_of_all fun f => by cases f <;> decide]
  exact forall_congr' fun f => by simp

/-- The parameters are those that the measure takes. -/
def Takes (f : Measure) (ps : Params) : Prop :=
  match f with
  | distance => ps.referenced.length + ps.location.toList.length = 2
  | latency => ps.demand ≠ none ∧ ps.demands = [] ∧ ps.location ≠ none
  | field => ps.demand ≠ none ∧ ps.demands = [] ∧ ps.key ≠ none
  | cost => ps.demand ≠ none ∧ ps.demands = []

theorem accepts_iff : f.accepts ps = true ↔ f.Takes ps := by
  cases f <;> simp [accepts, Takes, Option.isSome_iff_ne_none, and_assoc]

theorem decides_validate (f : Measure) (ps : Params) :
    Decides (f.validate ps) (f.Takes ps) fun e => ¬f.Takes ps ∧ e = f.misuse f.expected := by
  rw [← accepts_iff]
  exact .ite _ _

end Measure

/-! ## Leaves -/

/-- A function of this name takes the parameters, and the demands and the place that they name are
in scope. -/
structure Scope.Resolves (s : Scope) (name : String) (ps : Params) : Prop where
  function : ∃ f : Measure, f.name = name ∧ f.Takes ps
  demands : ∀ d ∈ ps.referenced, d ∈ s.demands
  location : ∀ l ∈ ps.location, l ∈ s.locations.map Prod.fst

inductive Scope.FirstFault (s : Scope) (name : String) (ps : Params) : SolveError → Prop
  | function (h : ∀ f : Measure, f.name ≠ name) : FirstFault s name ps (.unknownFunction name)
  | shape {f : Measure} (hname : f.name = name) (h : ¬f.Takes ps) :
      FirstFault s name ps (.invalidObjective (.wrongShape f.name f.expected))
  | demand {f : Measure} {before rest : List String} {d : String} (hname : f.name = name)
      (hshape : f.Takes ps) (hdemands : ps.referenced = before ++ d :: rest)
      (hbefore : ∀ b ∈ before, b ∈ s.demands) (hd : d ∉ s.demands) :
      FirstFault s name ps (.unknownDemand d)
  | location {f : Measure} {l : String} (hname : f.name = name) (hshape : f.Takes ps)
      (hdemands : ∀ d ∈ ps.referenced, d ∈ s.demands) (hlocation : ps.location = some l)
      (hl : l ∉ s.locations.map Prod.fst) : FirstFault s name ps (.unknownLocation l)

namespace Scope

theorem decides_checkDemands (s : Scope) : ∀ ds : List String,
    Decides (s.checkDemands ds) (∀ d ∈ ds, d ∈ s.demands)
      (FirstOf (· ∈ s.demands) (fun d e => d ∉ s.demands ∧ e = .unknownDemand d) ds)
  | [] => .nil _
  | d :: ds => by
    have hcheck : s.checkDemands (d :: ds) =
        (if d ∈ s.demands then .ok () else .error (.unknownDemand d)) >>=
        fun _ => s.checkDemands ds := by
      rw [checkDemands]
      split <;> rfl
    rw [hcheck]
    exact (Decides.ite _ _).cons fun _ _ => s.decides_checkDemands ds

theorem decides_checkLocation (s : Scope) (location : Option String) :
    Decides (s.checkLocation location) (∀ l ∈ location, l ∈ s.locations.map Prod.fst) fun e =>
      ∃ l ∈ location, l ∉ s.locations.map Prod.fst ∧ e = .unknownLocation l := by
  have hplace : ∀ l,
      Decides (if (Table.get? s.locations l).isSome then .ok ()
        else .error (SolveError.unknownLocation l))
        (l ∈ s.locations.map Prod.fst) fun e => l ∉ s.locations.map Prod.fst ∧
          e = .unknownLocation l := by
    intro l
    rw [← Table.get?_isSome]
    exact .ite _ _
  cases location with
  | none => exact .option hplace none
  | some l => exact .option hplace (some l)

theorem decides_buildLeaf (name : String) (ps : Params) (scale : Scale) :
    Decides (Term.buildLeaf s name ps scale) (s.Resolves name ps) (s.FirstFault name ps) := by
  unfold Term.buildLeaf Measure.resolve
  cases hfind : Measure.ofName? name with
  | none =>
    have hnone := Measure.ofName?_eq_none.1 hfind
    refine (Decides.of_error _).congr (iff_of_false id fun h => ?_) fun e => ⟨?_, fun h => ?_⟩
    · obtain ⟨f, hf, -⟩ := h.function
      exact hnone f hf
    · rintro rfl
      exact .function hnone
    · cases h with
      | function => rfl
      | shape hname => exact absurd hname (hnone _)
      | demand hname => exact absurd hname (hnone _)
      | location hname => exact absurd hname (hnone _)
  | some f =>
    have hname := Measure.ofName?_eq_some.1 hfind
    -- One measure has the name, so a fault of the shape is a fault of this one.
    have hunique : ∀ {f' : Measure}, f'.name = name → f' = f := fun h =>
      Option.some.inj ((Measure.ofName?_eq_some.2 h).symm.trans hfind)
    have hdecides :=
      (f.decides_validate ps).bind fun _ _ => (s.decides_checkDemands ps.referenced).bind fun _ _ =>
      (s.decides_checkLocation ps.location).bind_pure fun _ => Term.leaf f ps scale
    refine hdecides.congr ⟨?_, fun h => ?_⟩ fun e => ⟨?_, fun h => ?_⟩
    · rintro ⟨hshape, hdemands, hlocation⟩
      exact ⟨⟨f, hname, hshape⟩, hdemands, hlocation⟩
    · obtain ⟨f', hf', hshape⟩ := h.function
      cases hunique hf'
      exact ⟨hshape, h.demands, h.location⟩
    · rintro (⟨hshape, rfl⟩ | ⟨hshape, ⟨before, d, rest, hdemands, hbefore, hd, rfl⟩ |
        ⟨hdemands, l, hlocation, hl, rfl⟩⟩)
      · exact .shape hname hshape
      · exact .demand hname hshape hdemands hbefore hd
      · exact .location hname hshape hdemands hlocation hl
    · cases h with
      | function hnone => exact absurd hname (hnone f)
      | shape hf' hshape =>
        cases hunique hf'
        exact .inl ⟨hshape, rfl⟩
      | demand hf' hshape hdemands hbefore hd =>
        cases hunique hf'
        exact .inr ⟨hshape, .inl ⟨_, _, _, hdemands, hbefore, hd, rfl⟩⟩
      | location hf' hshape hdemands hlocation hl =>
        cases hunique hf'
        exact .inr ⟨hshape, .inr ⟨hdemands, _, hlocation, hl, rfl⟩⟩

end Scope

/-! ## Scales -/

/-- The bounds are finite and differ. -/
structure Normalization.Proper (n : Normalization) : Prop where
  start : n.start.isFinite = true
  stop : n.stop.isFinite = true
  differ : (n.start == n.stop) = false

theorem Normalization.isProper_iff {n : Normalization} : n.isProper = true ↔ n.Proper := by
  unfold isProper
  rw [Bool.and_eq_true, Bool.and_eq_true, Bool.not_eq_true']
  exact ⟨fun ⟨⟨h, h'⟩, h''⟩ => ⟨h, h', h''⟩, fun h => ⟨⟨h.start, h.stop⟩, h.differ⟩⟩

structure Scale.Proper (c : Scale) : Prop where
  normalization : ∀ n ∈ c.normalization, n.Proper
  weight : ∀ w ∈ c.weight, w.isFinite = true

inductive Scale.FirstFault (c : Scale) : SolveError → Prop
  | normalization {n : Normalization} (hn : c.normalization = some n) (h : ¬n.Proper) :
      FirstFault c (.invalidObjective (.emptyRange n.start n.stop))
  | weight {w : Float} (hn : ∀ n ∈ c.normalization, n.Proper) (hw : c.weight = some w)
      (h : ¬w.isFinite = true) :
      FirstFault c (.invalidObjective .infiniteWeight)

theorem Scale.decides_check (c : Scale) : Decides c.check c.Proper c.FirstFault := by
  have hrange : ∀ n : Normalization,
      Decides (if n.isProper then .ok ()
        else .error (SolveError.invalidObjective (.emptyRange n.start n.stop)))
        n.Proper fun e => ¬n.Proper ∧ e = .invalidObjective (.emptyRange n.start n.stop) := by
    intro n
    rw [← Normalization.isProper_iff]
    exact .ite _ _
  have hweight : ∀ w : Float,
      Decides (if w.isFinite then .ok () else .error (SolveError.invalidObjective .infiniteWeight))
        (w.isFinite = true) fun e => ¬w.isFinite = true ∧ e = .invalidObjective .infiniteWeight :=
    fun w => .ite _ _
  have hdecides :=
    (Decides.option hrange c.normalization).bind fun _ _ => Decides.option hweight c.weight
  have hcheck : c.check =
      (do
        c.normalization.elim (.ok ()) fun n =>
          if n.isProper then .ok () else .error (.invalidObjective (.emptyRange n.start n.stop))
        c.weight.elim (.ok ()) fun w =>
          if w.isFinite then .ok () else .error (.invalidObjective .infiniteWeight)) := by
    unfold check
    cases c.weight <;> cases c.normalization with
    | none => rfl
    | some n =>
      simp only [Option.elim_some]
      split <;> rfl
  rw [hcheck]
  refine hdecides.congr ⟨fun h => ⟨h.1, h.2⟩, fun h => ⟨h.normalization, h.weight⟩⟩ fun e =>
    ⟨?_, fun h => ?_⟩
  · rintro (⟨n, hn, h, rfl⟩ | ⟨hn, w, hw, h, rfl⟩)
    · exact .normalization hn h
    · exact .weight hn hw h
  · cases h with
    | normalization hn h => exact .inl ⟨_, hn, h, rfl⟩
    | weight hn hw h => exact .inr ⟨hn, _, hw, h, rfl⟩

/-! ## Trees -/

mutual
inductive OperationSpec.WellFormed (s : Scope) : OperationSpec → Prop
  | mk {operator : String} {operands : List OperandSpec}
      (hoperator : ∃ o : Operator, operator ∈ o.spellings) (hsome : operands ≠ [])
      (hoperands : ∀ t ∈ operands, OperandSpec.WellFormed s t) :
      OperationSpec.WellFormed s (.mk operator operands)

inductive OperandSpec.WellFormed (s : Scope) : OperandSpec → Prop
  | leaf {name : String} {params : Option Params} {scale : Scale} (hscale : scale.Proper)
      (h : s.Resolves name (params.getD {})) :
      OperandSpec.WellFormed s (.mk (some name) params none scale)
  | node {params : Option Params} {operation : OperationSpec} {scale : Scale}
      (hscale : scale.Proper) (h : OperationSpec.WellFormed s operation) :
      OperandSpec.WellFormed s (.mk none params (some operation) scale)
end

mutual
inductive OperationSpec.FirstFault (s : Scope) : OperationSpec → SolveError → Prop
  | operator {operator : String} {operands : List OperandSpec}
      (h : ¬∃ o : Operator, operator ∈ o.spellings) :
      OperationSpec.FirstFault s (.mk operator operands) (.unknownOperator operator)
  | noOperands {operator : String} (hoperator : ∃ o : Operator, operator ∈ o.spellings) :
      OperationSpec.FirstFault s (.mk operator []) (.invalidObjective (.noOperands operator))
  | operand {operator : String} {operands before rest : List OperandSpec} {t : OperandSpec}
      {e : SolveError} (hoperator : ∃ o : Operator, operator ∈ o.spellings)
      (hoperands : operands = before ++ t :: rest)
      (hbefore : ∀ b ∈ before, OperandSpec.WellFormed s b) (h : OperandSpec.FirstFault s t e) :
      OperationSpec.FirstFault s (.mk operator operands) e

inductive OperandSpec.FirstFault (s : Scope) : OperandSpec → SolveError → Prop
  | scale {function : Option String} {params : Option Params} {operation : Option OperationSpec}
      {scale : Scale} {e : SolveError} (h : scale.FirstFault e) :
      OperandSpec.FirstFault s (.mk function params operation scale) e
  | notOneKind {function : Option String} {params : Option Params}
      {operation : Option OperationSpec} {scale : Scale} (hscale : scale.Proper)
      (h : function.isSome = operation.isSome) :
      OperandSpec.FirstFault s (.mk function params operation scale) (.invalidObjective .notOneKind)
  | leaf {name : String} {params : Option Params} {scale : Scale} {e : SolveError}
      (hscale : scale.Proper) (h : s.FirstFault name (params.getD {}) e) :
      OperandSpec.FirstFault s (.mk (some name) params none scale) e
  | node {params : Option Params} {operation : OperationSpec} {scale : Scale} {e : SolveError}
      (hscale : scale.Proper) (h : OperationSpec.FirstFault s operation e) :
      OperandSpec.FirstFault s (.mk none params (some operation) scale) e
end

namespace Term

/-- An operand that is a function and an operation, or neither, is at fault whatever they are. -/
theorem decides_notOneKind {function : Option String} {params : Option Params}
    {operation : Option OperationSpec} {scale : Scale} (h : function.isSome = operation.isSome) :
    Decides (scale.check >>= fun _ =>
      throw (.invalidObjective .notOneKind) : Except SolveError Term)
      (OperandSpec.WellFormed s (.mk function params operation scale))
      (OperandSpec.FirstFault s (.mk function params operation scale)) := by
  refine (scale.decides_check.bind fun _ _ => Decides.of_error _).congr
    (iff_of_false And.right fun hgood => ?_)
    fun e => ⟨?_, fun hfault => ?_⟩
  · cases hgood <;> cases h
  · rintro (hscale | ⟨hscale, rfl⟩)
    · exact .scale hscale
    · exact .notOneKind hscale h
  · cases hfault with
    | scale hscale => exact .inl hscale
    | notOneKind hscale _ => exact .inr ⟨hscale, rfl⟩
    | leaf => cases h
    | node => cases h

mutual
theorem decides_buildOperation : ∀ spec : OperationSpec,
    Decides (buildOperation s spec) (spec.WellFormed s) (spec.FirstFault s)
  | .mk operator operands => by
    have hoperator := Operator.decides_resolve operator
    have hoperands := decides_buildOperands operands
    rw [buildOperation]
    cases operands with
    | nil =>
      refine (hoperator.bind fun o _ => Decides.of_error _).congr
        (iff_of_false And.right fun h => ?_)
        fun e => ⟨?_, fun h => ?_⟩
      · cases h with
        | mk _ hsome => exact hsome rfl
      · rintro (⟨h, rfl⟩ | ⟨h, rfl⟩)
        · exact .operator h
        · exact .noOperands h
      · cases h with
        | operator h => exact .inl ⟨h, rfl⟩
        | noOperands h => exact .inr ⟨h, rfl⟩
        | operand _ hnil =>
          exact absurd hnil.symm (List.append_ne_nil_of_right_ne_nil _ (List.cons_ne_nil _ _))
    | cons t ts =>
      refine (hoperator.bind fun o _ => hoperands.bind_pure _).congr ⟨?_, fun h => ?_⟩ fun e =>
        ⟨?_, fun h => ?_⟩
      · rintro ⟨h, hts⟩
        exact .mk h (List.cons_ne_nil _ _) hts
      · cases h with
        | mk h _ hts => exact ⟨h, hts⟩
      · rintro (⟨h, rfl⟩ | ⟨h, before, t', rest, hsplit, hbefore, ht'⟩)
        · exact .operator h
        · exact .operand h hsplit hbefore ht'
      · cases h with
        | operator h => exact .inl ⟨h, rfl⟩
        | operand h hsplit hbefore ht' => exact .inr ⟨h, _, _, _, hsplit, hbefore, ht'⟩

theorem decides_buildOperands : ∀ specs : List OperandSpec,
    Decides (buildOperands s specs) (∀ t ∈ specs, t.WellFormed s)
      (FirstOf (OperandSpec.WellFormed s) (OperandSpec.FirstFault s) specs)
  | [] => .nil _
  | spec :: specs => (decides_build spec).cons fun _ _ => (decides_buildOperands specs).bind_pure _

theorem decides_build : ∀ spec : OperandSpec, Decides (build s spec) (spec.WellFormed s)
    (spec.FirstFault s)
  | .mk function params operation scale => by
    have hscale := scale.decides_check
    unfold build
    cases function with
    | none =>
      cases operation with
      | none => exact decides_notOneKind rfl
      | some nested =>
        have hnested := decides_buildOperation nested
        refine (hscale.bind fun _ _ => hnested.bind_pure _).congr ⟨?_, fun h => ?_⟩ fun e =>
          ⟨?_, fun h => ?_⟩
        · exact fun h => .node h.1 h.2
        · cases h with
          | node hscale h => exact ⟨hscale, h⟩
        · rintro (h | ⟨hscale, h⟩)
          · exact .scale h
          · exact .node hscale h
        · cases h with
          | scale h => exact .inl h
          | notOneKind _ h => cases h
          | node hscale h => exact .inr ⟨hscale, h⟩
    | some name =>
      cases operation with
      | none =>
        refine (hscale.bind fun _ _ => Scope.decides_buildLeaf name (params.getD {}) scale).congr
          ⟨?_, fun h => ?_⟩
          fun e => ⟨?_, fun h => ?_⟩
        · exact fun h => .leaf h.1 h.2
        · cases h with
          | leaf hscale h => exact ⟨hscale, h⟩
        · rintro (h | ⟨hscale, h⟩)
          · exact .scale h
          · exact .leaf hscale h
        · cases h with
          | scale h => exact .inl h
          | notOneKind _ h => cases h
          | leaf hscale h => exact .inr ⟨hscale, h⟩
      | some nested => exact decides_notOneKind rfl
end

end Term

end Placement
