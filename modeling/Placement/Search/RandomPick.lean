import Placement.Problem

/-!
# Random picks

The baseline to compare other searches with: one candidate from each pool, whatever the constraints
say. The objective is evaluated once, at the end. Where the choices come from does not matter to the
search, and all that is stated about it is stated for any choices; `Choices.seeded` makes some from
a seed.
-/

namespace Placement

/-! ### Choices -/

/-- The choice for each demand in turn, to be taken modulo the number of candidates. -/
abbrev Choices := Nat → Nat

namespace Choices

/-- Scrambles a word so that every bit of the result depends on every bit of the word. -/
def scramble (x : UInt64) : UInt64 :=
  let y := (x ^^^ (x >>> 30)) * 0xbf58476d1ce4e5b9
  let z := (y ^^^ (y >>> 27)) * 0x94d049bb133111eb
  z ^^^ (z >>> 31)

/-- Evenly scattered choices, the same for the same seed. The generator is one of its own: a seed
does not lead to the picks that the source makes from it with its standard generator, and nothing is
stated about which picks it leads to. -/
def seeded (seed : UInt64) : Choices := fun i =>
  (scramble (seed + (UInt64.ofNat i + 1) * 0x9e3779b97f4a7c15)).toNat

end Choices

/-! ### The search -/

namespace RandomPick

/-- Commits each demand to the candidate chosen for it, `i` being the number of demands before. -/
def picks (choices : Choices) (i : Nat) (path : Path) :
    List Demand → Except SolveError (Option Path)
  | [] => .ok (some path)
  | d :: ds =>
    match d.candidates[choices i % d.candidates.length]? with
    | none => .ok none
    | some x => do
      let path ← path.commit d.name x
      picks choices (i + 1) path ds

/-- The path with its score, or with zero where it cannot be scored. -/
def scored (p : Problem) (path : Path) : Solving Path := do
  match ← ExceptT.lift (p.compute path) with
  | .ok _ path => pure path
  | .error _ path => pure (path.withScore 0.0)

end RandomPick

/-- A path with one candidate for each demand, or nothing if some pool is empty. -/
def Problem.randomPick (p : Problem) (choices : Choices) : Solving (Option Path) := do
  match ← Solving.ofExcept (RandomPick.picks choices 0 {} p.demands) with
  | none => pure none
  | some path => some <$> RandomPick.scored p path

end Placement
