/-! # Double-precision numbers

A double that is a number is a sign and a *rank*: its place among the non-negative doubles in
ascending order, `0` for zero and `infinityRank` for infinity.  Magnitudes are counted in units of
`2^-1074`, so that every one of them is a natural number, `units rank`, and every operation is an
exact computation on natural numbers followed by one rounding, `nearestRank`: to the nearest
double, and half-way to the one of even rank.

The ranks are the bit patterns of the non-negative doubles, so comparing ranks compares values.
There is one value that is no number, `Binary64.nan`. -/

namespace AgentOptions

namespace Binary64

/-- The rank of infinity: the exponent field all ones and the fraction zero. -/
def infinityRank : Nat := 0x7FF0000000000000

/-- The number of units in one. -/
def unitsPerOne : Nat := Nat.pow 2 1074

/-- The number of ranks from a power of two to the next, `2^52`. -/
def binade : Nat := 0x10000000000000

/-- The bit above the 63 bits of a rank. -/
def signBit : Nat := 0x8000000000000000

/-- The magnitude at a rank, in units.  In the first binade ranks are units, and in the second one
too; in every further one they lie twice as far apart as in the one before. -/
def units (rank : Nat) : Nat :=
  if rank < binade then rank
  else (binade + rank % binade) * Nat.pow 2 (rank / binade - 1)

/-- The greatest rank whose magnitude is at most `n` units. -/
def floorRank (n : Nat) : Nat :=
  if n < 2 * binade then n
  else (n.log2 - 52) * binade + n / Nat.pow 2 (n.log2 - 52)

/-- The rank nearest to `num / den` units, the even one of two that are equally near.  It exceeds
`infinityRank` for magnitudes out of range. -/
def nearestRank (num den : Nat) : Nat :=
  let low := floorRank (num / den)
  let middle := (units low + units (low + 1)) * den
  if 2 * num < middle || (2 * num == middle && low % 2 == 0) then low else low + 1

end Binary64

/-- A double: not a number, or a sign and a rank. -/
inductive Binary64 where
  | nan
  | number (negative : Bool) (rank : Fin (Binary64.infinityRank + 1))
  deriving DecidableEq

namespace Binary64

/-- The double with the given sign and the nearest magnitude to `num / den` units; infinity when
that is out of range. -/
def ofUnits (negative : Bool) (num den : Nat) : Binary64 :=
  number negative ⟨min (nearestRank num den) infinityRank,
    Nat.lt_succ_of_le (Nat.min_le_right _ _)⟩

def zero : Binary64 := number false ⟨0, Nat.zero_lt_succ _⟩

def infinity (negative : Bool) : Binary64 := number negative (Fin.last _)

/-- The double nearest to a natural number. -/
def ofNat (n : Nat) : Binary64 := ofUnits false (n * unitsPerOne) 1

/-- A number, and no infinity. -/
def isFinite : Binary64 → Bool
  | nan => false
  | number _ rank => rank.val < infinityRank

/-! ### Order -/

/-- Ranks with a sign order the doubles; both zeros lie at `0`. -/
def signedRank? : Binary64 → Option Int
  | nan => none
  | number negative rank => some (if negative then -(rank.val : Int) else rank.val)

/-- Numerical order; whatever is compared with `nan` is not less. -/
def less (x y : Binary64) : Bool :=
  match x.signedRank?, y.signedRank? with
  | some m, some n => m < n
  | _, _ => false

/-- Numerical equality: the zeros are equal, and `nan` differs from itself. -/
def same (x y : Binary64) : Bool :=
  match x.signedRank?, y.signedRank? with
  | some m, some n => m == n
  | _, _ => false

/-! ### Arithmetic -/

/-- Multiplication by a positive natural number. -/
def scale (k : Nat) : Binary64 → Binary64
  | nan => nan
  | number negative rank => ofUnits negative (units rank * k) 1

/-- Division by a positive natural number. -/
def divide (k : Nat) : Binary64 → Binary64
  | nan => nan
  | number negative rank =>
    if rank.val = infinityRank then infinity negative else ofUnits negative (units rank) k

/-- The magnitude with its sign, in units. -/
def signedUnits (negative : Bool) (rank : Nat) : Int :=
  if negative then -(units rank : Int) else units rank

/-- Subtraction.  Equal infinities have no difference, and equal numbers have the difference `0`,
which is negative only for `-0 - 0`. -/
def subtract : Binary64 → Binary64 → Binary64
  | nan, _ => nan
  | _, nan => nan
  | number s a, number t b =>
    if a.val = infinityRank then
      if b.val = infinityRank && s == t then nan else infinity s
    else if b.val = infinityRank then infinity (!t)
    else
      let difference := signedUnits s a - signedUnits t b
      if difference = 0 then number (s && !t) ⟨0, Nat.zero_lt_succ _⟩
      else ofUnits (decide (difference < 0)) difference.natAbs 1

/-! ### Bit patterns -/

/-- The sign bit, set for negative numbers, above the rank. -/
def ofBits (bits : Nat) : Binary64 :=
  if h : bits % signBit ≤ infinityRank then
    number (bits / signBit % 2 == 1) ⟨bits % signBit, Nat.lt_succ_of_le h⟩
  else nan

/-- The bit pattern of a double; for `nan` the quiet one without payload. -/
def toBits : Binary64 → Nat
  | nan => 0x7FF8000000000000
  | number negative rank => (if negative then signBit else 0) + rank.val

theorem ofBits_toBits (x : Binary64) : ofBits x.toBits = x := by
  cases x with
  | nan => decide
  | number negative rank =>
    have hr : rank.val < signBit := Nat.lt_of_lt_of_le rank.isLt (by decide)
    have hle : rank.val ≤ infinityRank := Nat.le_of_lt_succ rank.isLt
    cases negative
    · have h₁ : (0 + rank.val) % signBit = rank.val := by rw [Nat.zero_add, Nat.mod_eq_of_lt hr]
      have h₂ : (0 + rank.val) / signBit = 0 := by rw [Nat.zero_add, Nat.div_eq_of_lt hr]
      simp only [ofBits, toBits, Bool.false_eq_true, if_false, h₁, h₂, hle, dite_true]
      rfl
    · have h₁ : (signBit + rank.val) % signBit = rank.val := by
        rw [Nat.add_mod_left, Nat.mod_eq_of_lt hr]
      have h₂ : (signBit + rank.val) / signBit = 1 := by
        rw [Nat.add_div_left _ (by decide), Nat.div_eq_of_lt hr]
      simp only [ofBits, toBits, if_true, h₁, h₂, hle, dite_true]
      rfl

end Binary64

end AgentOptions
