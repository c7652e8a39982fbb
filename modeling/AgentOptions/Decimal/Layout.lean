import AgentOptions.Decimal.Shortest

/-! # Writing doubles

A double is written with its shortest digits.  What a format decides beyond them is one record,
`Layout`: which decimal exponents are written positionally, whether a whole number keeps a
fraction of `.0`, which of two equally short and near decimals is written, and the words for what
is no finite number. -/

namespace AgentOptions.Decimal

/-- The decisions of a number format. -/
structure Layout where
  /-- Numbers whose first digit stands for this power of ten are written without an exponent. -/
  positional : Int → Bool
  /-- Whole numbers written without an exponent end in `.0`. -/
  wholeFraction : Bool
  tie : Tie
  notANumber : String
  infinite : String

/-- Digits with `exponent` more places after them, written without an exponent. -/
def positionalDigits (wholeFraction : Bool) (digits : List Char) (exponent : Int) : List Char :=
  let count : Int := digits.length + exponent
  if 0 ≤ exponent then
    digits ++ List.replicate exponent.toNat '0' ++ (if wholeFraction then ['.', '0'] else [])
  else if 0 < count then digits.take count.toNat ++ '.' :: digits.drop count.toNat
  else '0' :: '.' :: (List.replicate (-count).toNat '0' ++ digits)

/-- Digits with a point after the first and the power of ten, always signed, after a letter `e`. -/
def scientificDigits (digits : List Char) (exponent : Int) : List Char :=
  let power := exponent + (digits.length - 1 : Nat)
  digits.take 1 ++ (if digits.length ≤ 1 then [] else '.' :: digits.drop 1) ++
    'e' :: (if power < 0 then '-' else '+') :: Nat.toDigits 10 power.natAbs

/-- The text of a magnitude. -/
def Layout.magnitude (layout : Layout) (rank : Nat) : List Char :=
  let (coefficient, exponent) := if rank = 0 then (0, 0) else shortest layout.tie rank
  let digits := Nat.toDigits 10 coefficient
  if layout.positional (exponent + (digits.length - 1 : Nat)) then
    positionalDigits layout.wholeFraction digits exponent
  else scientificDigits digits exponent

/-- The text of a double. -/
def Layout.text (layout : Layout) : Binary64 → String
  | .nan => layout.notANumber
  | .number negative rank =>
    let sign := if negative then ['-'] else []
    if rank.val = Binary64.infinityRank then String.ofList sign ++ layout.infinite
    else String.ofList (sign ++ layout.magnitude rank.val)

/-- Numbers in messages, tables and raw texts are written out in full, however long. -/
def plain : Layout where
  positional _ := true
  wholeFraction := false
  tie := .upward
  notANumber := "NaN"
  infinite := "inf"

/-- Numbers in documents keep a fraction, and have an exponent from `10 ^ 16` on and below
`10 ^ -5`; what is no finite number has no text there. -/
def document : Layout where
  positional power := -5 ≤ power && power < 16
  wholeFraction := true
  tie := .toEven
  notANumber := "null"
  infinite := "null"

end AgentOptions.Decimal
