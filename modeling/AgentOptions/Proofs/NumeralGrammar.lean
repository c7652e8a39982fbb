import AgentOptions.Proofs.NumberText
import Mathlib.Data.List.Basic
import Mathlib.Data.List.Induction

/-! # The grammar of numbers

What a number is written with, said without the readers: digits (`Decimal.Digits`), integers
(`Integer.Writes`), and numerals with a point and an exponent (`Decimal.Numeral`).

The readers take exactly these.  An integer is read from end to end (`Integer.value?_eq_some_iff`).
A numeral stands at the start of a text, and the scanner comes to its end if nothing that follows
is a digit, a point or a sign (`Decimal.Numeral.scan_append`); whatever the scanner takes is a
numeral (`Decimal.exists_numeral_of_scan`). -/

namespace AgentOptions

namespace Decimal

/-! ### Digits and signs -/

/-- The number that one or more of the digits `0` to `9` write. -/
inductive Digits : List Char → Nat → Prop
  | one {d : Nat} : d < 10 → Digits [Nat.digitChar d] d
  | more {ds : List Char} {n d : Nat} : Digits ds n → d < 10 →
      Digits (ds ++ [Nat.digitChar d]) (10 * n + d)

/-- An optional sign; the flag is set for a minus. -/
inductive Sign : List Char → Bool → Prop
  | none : Sign [] false
  | plus : Sign ['+'] false
  | minus : Sign ['-'] true

theorem natOfDigits_concat (ds : List Char) (c : Char) :
    natOfDigits (ds ++ [c]) = 10 * natOfDigits ds + (c.toNat - '0'.toNat) := by
  rw [natOfDigits, Nat.ofDigitChars_append, Nat.ofDigitChars_cons, Nat.ofDigitChars_nil]
  rfl

theorem toNat_digitChar_sub {d : Nat} (h : d < 10) : (Nat.digitChar d).toNat - '0'.toNat = d := by
  rw [Nat.toNat_digitChar_of_lt_ten h, show '0'.toNat = 48 from rfl]
  omega

theorem exists_digitChar {c : Char} (h : c.isDigit = true) :
    ∃ d, d < 10 ∧ Nat.digitChar d = c := by
  have hc : 48 ≤ c.toNat ∧ c.toNat ≤ 57 := Char.isDigit_iff_toNat.mp h
  refine ⟨c.toNat - 48, by omega, Char.toNat_inj.mp ?_⟩
  rw [Nat.toNat_digitChar_of_lt_ten (by omega)]
  omega

theorem digits_iff {ds : List Char} {n : Nat} :
    Digits ds n ↔ ds ≠ [] ∧ (∀ c ∈ ds, c.isDigit = true) ∧ natOfDigits ds = n := by
  constructor
  · intro h
    induction h with
    | @one d hd =>
        refine ⟨List.cons_ne_nil _ _, ?_, ?_⟩
        · intro c hc
          rw [List.mem_singleton.mp hc, Nat.isDigit_digitChar, decide_eq_true hd]
        · rw [← List.nil_append [_], natOfDigits_concat, toNat_digitChar_sub hd]
          exact Nat.zero_add d
    | @more ds n d _ hd ih =>
        obtain ⟨-, hdigits, hn⟩ := ih
        refine ⟨by simp, ?_, ?_⟩
        · intro c hc
          rcases List.mem_append.mp hc with hc | hc
          · exact hdigits c hc
          · rw [List.mem_singleton.mp hc, Nat.isDigit_digitChar, decide_eq_true hd]
        · rw [natOfDigits_concat, toNat_digitChar_sub hd, hn]
  · rintro ⟨hne, hdigits, rfl⟩
    -- The value grows at the right end, so the induction is from there.
    induction ds using List.reverseRecOn with
    | nil => exact absurd rfl hne
    | append_singleton ds c ih =>
        obtain ⟨d, hd, rfl⟩ := exists_digitChar (hdigits c (by simp))
        rw [natOfDigits_concat, toNat_digitChar_sub hd]
        cases ds with
        | nil => exact (Nat.zero_add d).symm ▸ .one hd
        | cons c' ds =>
            exact .more (ih (List.cons_ne_nil _ _) fun x hx =>
              hdigits x (List.mem_append_left _ hx)) hd

theorem scanSign_of_head {s : List Char} (h : ∀ c, s.head? = some c → c ≠ '-' ∧ c ≠ '+') :
    scanSign s = (false, s) := by
  unfold scanSign
  split
  · exact absurd rfl (h '-' rfl).1
  · exact absurd rfl (h '+' rfl).2
  · rfl

/-- A sign is taken off what has no other one in front. -/
theorem Sign.scanSign_append {sign s : List Char} {negative : Bool} (h : Sign sign negative)
    (hs : scanSign s = (false, s)) : scanSign (sign ++ s) = (negative, s) := by
  cases h with
  | none => exact hs
  | plus => rfl
  | minus => rfl

theorem exists_sign (s : List Char) :
    ∃ sign, Sign sign (scanSign s).1 ∧ s = sign ++ (scanSign s).2 := by
  unfold scanSign
  split
  · exact ⟨_, .minus, rfl⟩
  · exact ⟨_, .plus, rfl⟩
  · exact ⟨_, .none, rfl⟩

theorem scanSign_digits_append {ds : List Char} {n : Nat} (h : Digits ds n) (rest : List Char) :
    scanSign (ds ++ rest) = (false, ds ++ rest) := by
  obtain ⟨hne, hdigits, -⟩ := digits_iff.mp h
  apply scanSign_of_head
  intro c hc
  rw [List.head?_append_of_ne_nil _ hne] at hc
  have hdigit := hdigits c (List.mem_of_mem_head? hc)
  constructor
  · rintro rfl
    exact absurd hdigit (by decide)
  · rintro rfl
    exact absurd hdigit (by decide)

end Decimal

/-! ### Integers -/

namespace Integer

/-- The number that an optional sign and one or more digits write. -/
inductive Writes : List Char → Int → Prop
  | mk {sign ds : List Char} {negative : Bool} {n : Nat} : Decimal.Sign sign negative →
      Decimal.Digits ds n → Writes (sign ++ ds) (if negative then -(n : Int) else n)

theorem value?_eq_some_iff {s : List Char} {v : Int} : value? s = some v ↔ Writes s v := by
  constructor
  · intro h
    obtain ⟨sign, hsign, hs⟩ := Decimal.exists_sign s
    simp only [value?, Option.ite_none_right_eq_some, Option.some.injEq, List.all_eq_true] at h
    obtain ⟨⟨hne, hdigits⟩, rfl⟩ := h
    have hwrites := Writes.mk hsign (Decimal.digits_iff.mpr ⟨hne, hdigits, rfl⟩)
    rwa [← hs] at hwrites
  · rintro @⟨sign, ds, negative, n, hsign, hds⟩
    obtain ⟨hne, hdigits, rfl⟩ := Decimal.digits_iff.mp hds
    have hscan := hsign.scanSign_append (Decimal.scanSign_digits_append hds [])
    rw [List.append_nil] at hscan
    have hall := List.all_eq_true.mpr hdigits
    simp only [value?, hscan, hne, hall, ne_eq, not_false_eq_true, and_self, if_true]

end Integer

/-! ### Numerals -/

namespace Decimal

/-- Digits with at most one point among or around them: those before and those after it. -/
inductive Mantissa : List Char → List Char → List Char → Prop
  | whole {ds : List Char} : ds ≠ [] → (∀ c ∈ ds, c.isDigit = true) → Mantissa ds ds []
  | point {ds fraction : List Char} : ds ≠ [] → (∀ c ∈ ds, c.isDigit = true) →
      (∀ c ∈ fraction, c.isDigit = true) → Mantissa (ds ++ '.' :: fraction) ds fraction
  | fraction {ds : List Char} : ds ≠ [] → (∀ c ∈ ds, c.isDigit = true) →
      Mantissa ('.' :: ds) [] ds

/-- An optional exponent: a letter `e` and an integer. -/
inductive Exponent : List Char → Int → Prop
  | none : Exponent [] 0
  | some {mark : Char} {s : List Char} {power : Int} : mark = 'e' ∨ mark = 'E' →
      Integer.Writes s power → Exponent (mark :: s) power

/-- A numeral and the decimal that it writes. -/
inductive Numeral : List Char → Decimal → Prop
  | mk {sign mantissa whole fraction exponent : List Char} {negative : Bool} {coefficient : Nat}
      {power : Int} : Sign sign negative → Mantissa mantissa whole fraction →
      Digits (whole ++ fraction) coefficient → Exponent exponent power →
      Numeral (sign ++ (mantissa ++ exponent)) ⟨negative, coefficient, power - fraction.length⟩

theorem Mantissa.digits {mantissa whole fraction : List Char}
    (h : Mantissa mantissa whole fraction) :
    Digits (whole ++ fraction) (natOfDigits (whole ++ fraction)) := by
  rw [digits_iff]
  cases h with
  | whole hne hd =>
      rw [List.append_nil]
      exact ⟨hne, hd, rfl⟩
  | point hne hd hf =>
      refine ⟨by simp [hne], ?_, rfl⟩
      intro c hc
      exact (List.mem_append.mp hc).elim (hd c) (hf c)
  | fraction hne hd => exact ⟨hne, hd, rfl⟩

/-- Nothing in a text is a digit, a point or a sign. -/
def Unnumbered (s : List Char) : Prop :=
  ∀ c ∈ s, c.isDigit = false ∧ c ≠ '.' ∧ c ≠ '-' ∧ c ≠ '+'

variable {s rest : List Char}

theorem Unnumbered.head_isDigit (h : Unnumbered s) : ∀ c, s.head? = some c → c.isDigit = false :=
  fun c hc => (h c (List.mem_of_mem_head? hc)).1

theorem Unnumbered.scanSign_eq (h : Unnumbered s) : scanSign s = (false, s) :=
  scanSign_of_head fun c hc => (h c (List.mem_of_mem_head? hc)).2.2

theorem isDigit_of_mem_scanDigits : ∀ c ∈ (scanDigits s).1, c.isDigit = true :=
  List.all_eq_true.mp List.all_takeWhile

theorem scanDigits_append_rest (s : List Char) : (scanDigits s).1 ++ (scanDigits s).2 = s :=
  List.takeWhile_append_dropWhile

/-! ### The scanner takes numerals -/

theorem exists_mantissa_of_scanMantissa {whole fraction : List Char}
    (h : scanMantissa s = some (whole, fraction, rest)) :
    ∃ mantissa, Mantissa mantissa whole fraction ∧ s = mantissa ++ rest := by
  have hs := scanDigits_append_rest s
  have hwhole := @isDigit_of_mem_scanDigits s
  unfold scanMantissa at h
  simp only at h
  split at h
  · next r hr =>
    have hr' := scanDigits_append_rest r
    have hfraction := @isDigit_of_mem_scanDigits r
    simp only [Option.ite_none_left_eq_some, Option.some.injEq, Prod.mk.injEq] at h
    obtain ⟨hne, rfl, rfl, rfl⟩ := h
    rw [hr, ← hr'] at hs
    by_cases hempty : (scanDigits s).1 = []
    · refine ⟨'.' :: (scanDigits r).1, ?_, ?_⟩
      · rw [hempty]
        exact .fraction (fun hnil => hne ⟨hempty, hnil⟩) hfraction
      · rw [← hs, hempty]
        rfl
    · exact ⟨_, .point hempty hwhole hfraction, by rw [List.append_assoc]; exact hs.symm⟩
  · next hr =>
    simp only [Option.ite_none_left_eq_some, Option.some.injEq, Prod.mk.injEq] at h
    obtain ⟨hne, rfl, rfl, rfl⟩ := h
    exact ⟨_, .whole hne hwhole, hs.symm⟩

theorem exists_exponent (s : List Char) :
    ∃ exponent, Exponent exponent (scanExponent s).1 ∧ s = exponent ++ (scanExponent s).2 := by
  cases s with
  | nil => exact ⟨[], .none, rfl⟩
  | cons mark r =>
      obtain ⟨sign, hsign, hr⟩ := exists_sign r
      have hdigits := scanDigits_append_rest (scanSign r).2
      unfold scanExponent
      simp only
      split
      · next h =>
        have hwrites := Integer.Writes.mk hsign
          (digits_iff.mpr ⟨h.2, isDigit_of_mem_scanDigits, rfl⟩)
        refine ⟨_, .some h.1 hwrites, ?_⟩
        rw [List.cons_append, List.append_assoc, hdigits, ← hr]
      · exact ⟨[], .none, rfl⟩

/-- **What the scanner takes is a numeral**, and it gives the decimal that the numeral writes. -/
theorem exists_numeral_of_scan {d : Decimal} (h : scan s = some (d, rest)) :
    ∃ numeral, Numeral numeral d ∧ s = numeral ++ rest := by
  unfold scan at h
  obtain ⟨⟨whole, fraction, r⟩, hm, hd⟩ := Option.map_eq_some_iff.mp h
  simp only [Prod.mk.injEq] at hd
  obtain ⟨rfl, rfl⟩ := hd
  obtain ⟨sign, hsign, hs⟩ := exists_sign s
  obtain ⟨mantissa, hmantissa, hbody⟩ := exists_mantissa_of_scanMantissa hm
  obtain ⟨exponent, hexponent, hr⟩ := exists_exponent r
  refine ⟨_, .mk hsign hmantissa hmantissa.digits hexponent, ?_⟩
  rw [List.append_assoc, List.append_assoc, ← hr, ← hbody, ← hs]

/-! ### Numerals are taken by the scanner -/

theorem Mantissa.scanMantissa_append {mantissa whole fraction : List Char}
    (h : Mantissa mantissa whole fraction) (hr : EndsMantissa rest) :
    scanMantissa (mantissa ++ rest) = some (whole, fraction, rest) := by
  cases h with
  | whole hne hd => exact scanMantissa_whole hd hne hr
  | point hne hd hf =>
      rw [List.append_assoc, List.cons_append]
      exact scanMantissa_point hd hf hne hr
  | fraction hne hd =>
      have hpoint : scanDigits ('.' :: (fraction ++ rest)) = ([], '.' :: (fraction ++ rest)) := rfl
      have hdigits := scanDigits_append hd fun c hc => (hr c hc).1
      rw [List.cons_append]
      unfold scanMantissa
      simp only [hpoint, hdigits, hne, and_false, if_false]

theorem Exponent.scanExponent_append {exponent : List Char} {power : Int}
    (h : Exponent exponent power) (hr : Unnumbered rest) :
    scanExponent (exponent ++ rest) = (power, rest) := by
  cases h with
  | none =>
      cases rest with
      | nil => rfl
      | cons c r =>
          have hr : Unnumbered r := fun d hd => hr d (List.mem_cons_of_mem c hd)
          have hdigits := @scanDigits_append [] r (by simp) hr.head_isDigit
          rw [List.nil_append] at hdigits
          rw [List.nil_append, scanExponent]
          simp only [hr.scanSign_eq, hdigits, ne_eq, not_true_eq_false, and_false, if_false]
  | some hmark hwrites =>
      obtain @⟨sign, ds, negative, n, hsign, hds⟩ := hwrites
      obtain ⟨hne, hd, rfl⟩ := digits_iff.mp hds
      have hscan := hsign.scanSign_append (scanSign_digits_append hds rest)
      have hdigits := scanDigits_append hd hr.head_isDigit
      rw [List.cons_append, List.append_assoc, scanExponent]
      simp only [hscan, hdigits, hmark, hne, ne_eq, not_false_eq_true, and_self, if_true]

/-- What follows a mantissa does not go on with it. -/
theorem Exponent.endsMantissa {exponent : List Char} {power : Int} (h : Exponent exponent power)
    (hr : Unnumbered rest) : EndsMantissa (exponent ++ rest) := by
  intro c hc
  cases h with
  | none =>
      obtain ⟨hdigit, hpoint, -⟩ := hr c (List.mem_of_mem_head? hc)
      exact ⟨hdigit, hpoint⟩
  | @some mark s power hmark hwrites =>
      obtain rfl : mark = c := Option.some.inj hc
      rcases hmark with rfl | rfl
      · decide
      · decide

/-- **The scanner takes a numeral to its end**, and gives the decimal that it writes. -/
theorem Numeral.scan_append {numeral : List Char} {d : Decimal} (h : Numeral numeral d)
    (hr : Unnumbered rest) : scan (numeral ++ rest) = some (d, rest) := by
  obtain @⟨sign, mantissa, whole, fraction, exponent, negative, n, power, hsign, hm, hn, he⟩ := h
  obtain ⟨-, -, rfl⟩ := digits_iff.mp hn
  have hmantissa := hm.scanMantissa_append (he.endsMantissa hr)
  have hscan := hsign.scanSign_append (scanSign_of_scanMantissa hmantissa)
  rw [List.append_assoc, List.append_assoc]
  simp only [scan, hscan, hmantissa, Option.map_some, he.scanExponent_append hr]

/-! ### The characters of numerals -/

theorem toNat_lt_of_isDigit {c : Char} (h : c.isDigit = true) : c.toNat < 128 := by
  have hc : 48 ≤ c.toNat ∧ c.toNat ≤ 57 := Char.isDigit_iff_toNat.mp h
  omega

theorem Sign.toNat_lt {sign : List Char} {negative : Bool} (h : Sign sign negative) :
    ∀ c ∈ sign, c.toNat < 128 := by
  intro c hc
  cases h with
  | none => exact absurd hc List.not_mem_nil
  | plus =>
      rw [List.mem_singleton.mp hc]
      decide
  | minus =>
      rw [List.mem_singleton.mp hc]
      decide

theorem Mantissa.toNat_lt {mantissa whole fraction : List Char}
    (h : Mantissa mantissa whole fraction) : ∀ c ∈ mantissa, c.toNat < 128 := by
  intro c hc
  cases h with
  | whole _ hd => exact toNat_lt_of_isDigit (hd c hc)
  | point _ hd hf =>
      rcases List.mem_append.mp hc with hc | hc
      · exact toNat_lt_of_isDigit (hd c hc)
      · rcases List.mem_cons.mp hc with rfl | hc
        · decide
        · exact toNat_lt_of_isDigit (hf c hc)
  | fraction _ hd =>
      rcases List.mem_cons.mp hc with rfl | hc
      · decide
      · exact toNat_lt_of_isDigit (hd c hc)

theorem Exponent.toNat_lt {exponent : List Char} {power : Int} (h : Exponent exponent power) :
    ∀ c ∈ exponent, c.toNat < 128 := by
  intro c hc
  cases h with
  | none => exact absurd hc List.not_mem_nil
  | some hmark hwrites =>
      obtain ⟨hsign, hds⟩ := hwrites
      rcases List.mem_cons.mp hc with rfl | hc
      · rcases hmark with rfl | rfl
        · decide
        · decide
      · rcases List.mem_append.mp hc with hc | hc
        · exact hsign.toNat_lt c hc
        · exact toNat_lt_of_isDigit ((digits_iff.mp hds).2.1 c hc)

theorem Numeral.toNat_lt {numeral : List Char} {d : Decimal} (h : Numeral numeral d) :
    ∀ c ∈ numeral, c.toNat < 128 := by
  intro c hc
  obtain ⟨hsign, hm, -, he⟩ := h
  rcases List.mem_append.mp hc with hc | hc
  · exact hsign.toNat_lt c hc
  · exact (List.mem_append.mp hc).elim (hm.toNat_lt c) (he.toNat_lt c)

end Decimal

end AgentOptions
