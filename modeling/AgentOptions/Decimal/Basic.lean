import AgentOptions.Binary64

/-! # Decimal numerals

A decimal is a sign, a coefficient and a power of ten (`Decimal`); `Decimal.nearest` is the double
nearest to it.  A numeral is written as an optional sign, digits with at most one point among or
around them, and an optional exponent; `Decimal.scan` reads the longest numeral at the start of a
text and `Decimal.ofText?` a text that is one.  Digits are `0` to `9` only. -/

namespace AgentOptions

/-- The number `± coefficient * 10 ^ exponent`. -/
structure Decimal where
  negative : Bool
  coefficient : Nat
  exponent : Int
  deriving DecidableEq

namespace Decimal

/-! ### Value -/

/-- The number of decimal digits, at least one. -/
def digitCount (n : Nat) : Nat := (Nat.toDigits 10 n).length

/-- The magnitude as a quotient of natural numbers, in units. -/
def inUnits (d : Decimal) : Nat × Nat :=
  if 0 ≤ d.exponent then (d.coefficient * Nat.pow 10 d.exponent.toNat * Binary64.unitsPerOne, 1)
  else (d.coefficient * Binary64.unitsPerOne, Nat.pow 10 (-d.exponent).toNat)

/-- The double nearest to a decimal.  Magnitudes from `10 ^ 310` on are infinite and those below
`10 ^ -330` are zero whatever their digits, and no large power is computed for them. -/
def nearest (d : Decimal) : Binary64 :=
  let magnitude := digitCount d.coefficient + d.exponent
  if d.coefficient = 0 || magnitude < -330 then .ofUnits d.negative 0 1
  else if 310 < magnitude then .infinity d.negative
  else .ofUnits d.negative d.inUnits.1 d.inUnits.2

/-! ### Reading -/

/-- The digits at the start of a text, and the rest. -/
def scanDigits (s : List Char) : List Char × List Char :=
  (s.takeWhile Char.isDigit, s.dropWhile Char.isDigit)

/-- Takes a sign off the start of a text; the flag is set for a minus. -/
def scanSign : List Char → Bool × List Char
  | '-' :: r => (true, r)
  | '+' :: r => (false, r)
  | s => (false, s)

/-- The digits before and after a point, and the rest; there is at least one digit. -/
def scanMantissa (s : List Char) : Option (List Char × List Char × List Char) :=
  let whole := scanDigits s
  match whole.2 with
  | '.' :: r =>
    let fraction := scanDigits r
    if whole.1 = [] ∧ fraction.1 = [] then none else some (whole.1, fraction.1, fraction.2)
  | r => if whole.1 = [] then none else some (whole.1, [], r)

/-- The number a digit list denotes. -/
def natOfDigits (ds : List Char) : Nat := Nat.ofDigitChars 10 ds 0

/-- An exponent at the start of a text, and the rest; a letter `e` without digits is no exponent. -/
def scanExponent : List Char → Int × List Char
  | [] => (0, [])
  | c :: r =>
    let sign := scanSign r
    let digits := scanDigits sign.2
    if (c = 'e' ∨ c = 'E') ∧ digits.1 ≠ [] then
      (if sign.1 then -(natOfDigits digits.1 : Int) else natOfDigits digits.1, digits.2)
    else (0, c :: r)

/-- The longest numeral at the start of a text, and the rest. -/
def scan (s : List Char) : Option (Decimal × List Char) :=
  let sign := scanSign s
  (scanMantissa sign.2).map fun (whole, fraction, r) =>
    let exponent := scanExponent r
    (⟨sign.1, natOfDigits (whole ++ fraction), exponent.1 - fraction.length⟩, exponent.2)

/-- Reads a text that is a numeral from end to end. -/
def ofText? (s : String) : Option Decimal :=
  match scan s.toList with
  | some (d, []) => some d
  | _ => none

end Decimal

end AgentOptions
