/-!
# The fewest digits that read back

A positive double is `m · 2 ^ q`. The reals that round to it form an interval around it, whose ends
belong to it when `m` is even. `shortest` looks for the coarsest decimal grid with a point in that
interval, trying grids of one, two, … significant digits, and takes of the grid's two neighbours of
the value the nearer one in the interval.
-/

namespace Placement.Decimal

/-! ### Doubles as whole multiples of a power of two -/

/-- A positive double, `mantissa · 2 ^ exponent`; `narrow` says that the gap below it is half the
gap above. -/
structure Binary where
  mantissa : Nat
  exponent : Int
  narrow : Bool
  deriving DecidableEq, Repr

/-- The magnitude of a finite double that is not zero. -/
def Binary.ofFloat (x : Float) : Binary :=
  let bits : Nat := x.toBits.toNat
  let fraction : Nat := bits % Nat.pow 2 52
  let field : Nat := bits / Nat.pow 2 52 % Nat.pow 2 11
  if field = 0 then ⟨fraction, -1074, false⟩
  else ⟨Nat.pow 2 52 + fraction, (field : Int) - 1075, fraction = 0 && 1 < field⟩

/-! ### Positions on a decimal grid -/

/-- The fraction `num / den` for `n · 2 ^ q · 10 ^ (-k)`. -/
def scaledBy (n : Nat) (q k : Int) : Nat × Nat :=
  let num := n * Nat.pow 2 q.toNat * Nat.pow 10 (-k).toNat
  let den := Nat.pow 2 (-q).toNat * Nat.pow 10 k.toNat
  (num, den)

/-- A value and the interval of what rounds to it, as numerators over one denominator, on a grid of
unit steps. -/
structure Window where
  low : Nat
  value : Nat
  high : Nat
  unit : Nat
  closed : Bool
  deriving DecidableEq, Repr

/-- The window of a double on the grid of the multiples of `10 ^ k`. -/
def Binary.window (b : Binary) (k : Int) : Window :=
  let (num, den) := scaledBy 1 (b.exponent - 2) k
  { low := (4 * b.mantissa - (if b.narrow then 1 else 2)) * num
    value := 4 * b.mantissa * num
    high := (4 * b.mantissa + 2) * num
    unit := den
    closed := b.mantissa % 2 == 0 }

/-- The grid point `n` lies in the window. -/
def Window.holds (w : Window) (n : Nat) : Bool :=
  let p := n * w.unit
  if w.closed then w.low ≤ p && p ≤ w.high else w.low < p && p < w.high

/-- Which of two equally near grid points is taken. -/
inductive Tie where
  | even
  | up
  deriving DecidableEq, Repr

/-- The grid point in the window that is nearest to the value, of the value's two neighbours. -/
def Window.pick (w : Window) (tie : Tie) : Option Nat :=
  let below := w.value / w.unit
  let gap := w.value % w.unit
  match w.holds below && below != 0, w.holds (below + 1) with
  | false, false => none
  | true, false => some below
  | false, true => some (below + 1)
  | true, true =>
    if 2 * gap < w.unit then some below
    else if w.unit < 2 * gap then some (below + 1)
    else if tie = .even ∧ below % 2 = 0 then some below
    else some (below + 1)

/-! ### Search over the grids -/

/-- The position of the decimal point: `10 ^ (p - 1) ≤ value < 10 ^ p`, searched upward from `p`. -/
def pointFrom (b : Binary) : Nat → Int → Int
  | 0, p => p
  | fuel + 1, p =>
    let (num, den) := scaledBy b.mantissa b.exponent p
    if num < den then p else pointFrom b fuel (p + 1)

/-- A lower bound of the point position, from the position of the leading binary digit. -/
def Binary.pointBound (b : Binary) : Int :=
  (b.exponent + Nat.log2 b.mantissa) * 30103 / 100000 - 1

def Binary.point (b : Binary) : Int :=
  pointFrom b 12 b.pointBound

/-- The first hit on the grids of `n`, `n + 1`, … significant digits: a whole number and its power
of ten. -/
def digitsFrom (b : Binary) (tie : Tie) (p : Int) : Nat → Nat → Nat × Int
  | 0, n => ((b.window (p - n)).value / (b.window (p - n)).unit, p - n)
  | fuel + 1, n =>
    match (b.window (p - n)).pick tie with
    | some d => (d, p - n)
    | none => digitsFrom b tie p fuel (n + 1)

/-- The shortest decimal `d · 10 ^ k` that reads back as the double. Ten appears as the digit one:
it is the only whole number on the coarsest grid that ends in a zero, and on a finer grid a coarser
hit has gone before. -/
def Binary.shortest (b : Binary) (tie : Tie) : Nat × Int :=
  let (d, k) := digitsFrom b tie b.point 17 1
  if d % 10 = 0 then (d / 10, k + 1) else (d, k)

end Placement.Decimal
