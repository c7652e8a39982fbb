import AgentOptions.Decimal.Basic

/-! # The shortest decimal of a double

The decimals that read back as a double fill an interval around it: up to the middle between it
and its neighbours, the middles included when its rank is even.  `shortest` is the point of that
interval on the coarsest grid of powers of ten that has one, and there the one nearest to the
double.  Two points can be equally near; which of them is taken is up to the format (`Tie`). -/

namespace AgentOptions.Decimal

/-- Which of two equally near decimals is taken. -/
inductive Tie where
  /-- The greater one. -/
  | upward
  /-- The one whose last digit is even. -/
  | toEven
  deriving DecidableEq

/-- Twice the magnitude at the rank, in units times `fst`, and the grid `10 ^ p` in half units
times `fst`, so that both are natural numbers. -/
def onGrid (rank : Nat) (p : Int) : Nat × Nat × Nat :=
  if 0 ≤ p then (1, 2 * Binary64.units rank, 2 * Binary64.unitsPerOne * Nat.pow 10 p.toNat)
  else
    (Nat.pow 10 (-p).toNat, 2 * Binary64.units rank * Nat.pow 10 (-p).toNat,
      2 * Binary64.unitsPerOne)

/-- The decimal with `m * grid` half units times `factor` lies in the interval of the rank. -/
def readsBack (rank factor grid m : Nat) : Bool :=
  let low := (Binary64.units (rank - 1) + Binary64.units rank) * factor
  let high := (Binary64.units rank + Binary64.units (rank + 1)) * factor
  if rank % 2 = 0 then low ≤ m * grid && m * grid ≤ high else low < m * grid && m * grid < high

/-- The multiple of `10 ^ p` that lies in the interval of the rank, the nearest if there are two. -/
def onPower? (tie : Tie) (rank : Nat) (p : Int) : Option Nat :=
  let (factor, value, grid) := onGrid rank p
  let m := value / grid
  let below := value - m * grid
  let above := (m + 1) * grid - value
  match readsBack rank factor grid m, readsBack rank factor grid (m + 1) with
  | false, false => none
  | true, false => some m
  | false, true => some (m + 1)
  | true, true =>
    if below < above then some m
    else if above < below then some (m + 1)
    else match tie with
      | .upward => some (m + 1)
      | .toEven => some (if m % 2 = 0 then m else m + 1)

/-- The exponent of a power of ten above the magnitude, at most a hundred times as great. -/
def ceilingPower (rank : Nat) : Int :=
  let n := Binary64.units rank
  if Binary64.unitsPerOne ≤ n then digitCount (n / Binary64.unitsPerOne)
  else 1 - (digitCount (Binary64.unitsPerOne / n) : Int)

/-- Coefficient and exponent of the shortest decimal.  The grids are tried from the coarsest; every
magnitude lies itself on the grid of `10 ^ -1074`. -/
def shortest (tie : Tie) (rank : Nat) : Nat × Int :=
  let top := ceilingPower rank
  let found := (List.range 20).findSome? fun (k : Nat) =>
    (onPower? tie rank (top - k)).map fun m => (m, top - (k : Int))
  found.getD (Binary64.units rank * Nat.pow 5 1074, -1074)

end AgentOptions.Decimal
