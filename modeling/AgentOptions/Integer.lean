import AgentOptions.Decimal.Basic

/-! # 64-bit integers

An integer is written as an optional sign and digits; it is accepted when its exact value lies
between `-2^63` and `2^63 - 1`. -/

namespace AgentOptions.Integer

/-- The exact value of an optional sign and one or more digits. -/
def value? (s : List Char) : Option Int :=
  let sign := Decimal.scanSign s
  if sign.2 ≠ [] ∧ sign.2.all Char.isDigit then
    some (if sign.1 then -(Decimal.natOfDigits sign.2 : Int) else Decimal.natOfDigits sign.2)
  else none

/-- Reads an integer in the 64-bit range. -/
def ofText? (s : String) : Option Int64 :=
  match value? s.toList with
  | some n =>
    if Int64.minValue.toInt ≤ n ∧ n ≤ Int64.maxValue.toInt then some (Int64.ofInt n) else none
  | none => none

/-- The digits of an integer, after a minus if it is negative. -/
def digits (n : Int) : List Char := (if n < 0 then ['-'] else []) ++ Nat.toDigits 10 n.natAbs

/-- `digits` as a string. -/
def text (n : Int) : String := String.ofList (digits n)

end AgentOptions.Integer
