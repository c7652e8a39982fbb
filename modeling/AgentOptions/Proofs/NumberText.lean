import AgentOptions.Decimal.Layout
import AgentOptions.Duration
import AgentOptions.Integer
import AgentOptions.Proofs.ShortestDecimal

/-! # Numbers and their texts

The plain text of a finite double is a numeral that is read as the double (`exists_scan_text`).
What follows the numeral is left where it ends for good (`Ends`), so the statement serves numbers
that stand alone and those before a unit.  From it and from the digits of integers follows that
each kind of number is read from its text: `Decimal.ofText?_text`, `Integer.ofText?_text` and
`Duration.ofText_text`. -/

namespace AgentOptions.Decimal

/-- A text that no numeral before it can take anything from. -/
def Ends (rest : List Char) : Prop :=
  ∀ c, rest.head? = some c → c.isDigit = false ∧ c ≠ '.' ∧ c ≠ 'e' ∧ c ≠ 'E'

theorem ends_nil : Ends [] := fun _ h => by simp at h

/-- A text that the digits and the point before it can take nothing from. -/
def EndsMantissa (rest : List Char) : Prop :=
  ∀ c, rest.head? = some c → c.isDigit = false ∧ c ≠ '.'

theorem Ends.mantissa {rest : List Char} (h : Ends rest) : EndsMantissa rest :=
  fun c hc => ⟨(h c hc).1, (h c hc).2.1⟩

/-! ### Scanning -/

theorem scanDigits_append {digits rest : List Char} (hd : ∀ c ∈ digits, c.isDigit = true)
    (hr : ∀ c, rest.head? = some c → c.isDigit = false) :
    scanDigits (digits ++ rest) = (digits, rest) := by
  have htake : rest.takeWhile Char.isDigit = [] ∧ rest.dropWhile Char.isDigit = rest := by
    cases rest with
    | nil => exact ⟨rfl, rfl⟩
    | cons c rest => simp [hr c rfl]
  rw [scanDigits, List.takeWhile_append_of_pos hd, List.dropWhile_append_of_pos hd, htake.1,
    htake.2, List.append_nil]

theorem scanMantissa_whole {whole rest : List Char} (hw : ∀ c ∈ whole, c.isDigit = true)
    (hne : whole ≠ []) (hr : EndsMantissa rest) :
    scanMantissa (whole ++ rest) = some (whole, [], rest) := by
  have hs := scanDigits_append hw fun c hc => (hr c hc).1
  unfold scanMantissa
  simp only [hs]
  split
  · next r => exact absurd rfl (hr '.' rfl).2
  · exact if_neg hne

theorem scanMantissa_point {whole fraction rest : List Char} (hw : ∀ c ∈ whole, c.isDigit = true)
    (hf : ∀ c ∈ fraction, c.isDigit = true) (hne : whole ≠ []) (hr : EndsMantissa rest) :
    scanMantissa (whole ++ '.' :: (fraction ++ rest)) = some (whole, fraction, rest) := by
  have hs : scanDigits (whole ++ '.' :: (fraction ++ rest)) =
      (whole, '.' :: (fraction ++ rest)) := by
    apply scanDigits_append hw
    intro c hc
    obtain rfl : '.' = c := Option.some.inj hc
    decide
  have hs' := scanDigits_append hf fun c hc => (hr c hc).1
  unfold scanMantissa
  simp only [hs, hs', hne, false_and, if_false]

theorem scanExponent_of_ends {rest : List Char} (hr : Ends rest) :
    scanExponent rest = (0, rest) := by
  cases rest with
  | nil => rfl
  | cons c rest =>
      obtain ⟨-, -, he, hE⟩ := hr c rfl
      simp [scanExponent, he, hE]

theorem scanSign_of_scanMantissa {s : List Char} {m : List Char × List Char × List Char}
    (h : scanMantissa s = some m) : scanSign s = (false, s) := by
  unfold scanSign
  split
  · simp [scanMantissa, scanDigits] at h
  · simp [scanMantissa, scanDigits] at h
  · rfl

/-! ### Written digits -/

theorem isDigit_of_mem_replicate {n : Nat} : ∀ c ∈ List.replicate n '0', c.isDigit = true := by
  intro c hc
  rw [List.eq_of_mem_replicate hc]
  decide

theorem natOfDigits_toDigits (n : Nat) : natOfDigits (Nat.toDigits 10 n) = n :=
  Nat.ofDigitChars_ten_toDigits

theorem natOfDigits_zeros_append (k : Nat) (digits : List Char) :
    natOfDigits (List.replicate k '0' ++ digits) = natOfDigits digits := by
  rw [natOfDigits, Nat.ofDigitChars_append, Nat.ofDigitChars_replicate_zero, Nat.mul_zero]
  rfl

theorem natOfDigits_append_zeros (k : Nat) (digits : List Char) :
    natOfDigits (digits ++ List.replicate k '0') = natOfDigits digits * 10 ^ k := by
  rw [natOfDigits, Nat.ofDigitChars_append, Nat.ofDigitChars_replicate_zero, Nat.mul_comm]
  rfl

/-- The digits of a number with its point, wherever that stands, are read as they were written. -/
theorem scanMantissa_positionalDigits (c : Nat) (e : Int) {rest : List Char} (hr : Ends rest) :
    ∃ whole fraction,
      scanMantissa (positionalDigits false (Nat.toDigits 10 c) e ++ rest) =
        some (whole, fraction, rest) ∧
      natOfDigits (whole ++ fraction) = c * 10 ^ e.toNat ∧
      (fraction.length : Int) = -min e 0 := by
  have hd : ∀ x ∈ Nat.toDigits 10 c, x.isDigit = true := fun x hx =>
    Nat.isDigit_of_mem_toDigits (by decide) (by decide) hx
  have hne : Nat.toDigits 10 c ≠ [] := Nat.toDigits_ne_nil
  have hval := natOfDigits_toDigits c
  generalize Nat.toDigits 10 c = digits at hd hne hval ⊢
  unfold positionalDigits
  simp only [Bool.false_eq_true, if_false, List.append_nil]
  split
  · next he =>
    refine ⟨digits ++ List.replicate e.toNat '0', [], scanMantissa_whole ?_ ?_ hr.mantissa, ?_, ?_⟩
    · intro x hx
      rcases List.mem_append.mp hx with hx | hx
      · exact hd x hx
      · exact isDigit_of_mem_replicate x hx
    · simp [hne]
    · rw [List.append_nil, natOfDigits_append_zeros, hval]
    · simp [Int.min_eq_right he]
  · next he =>
    have hzero : e.toNat = 0 := by omega
    rw [hzero, Nat.pow_zero, Nat.mul_one]
    split
    · next hcount =>
      obtain ⟨k, hk⟩ : ∃ k : Nat, (digits.length : Int) + e = k :=
        ⟨_, (Int.toNat_of_nonneg hcount.le).symm⟩
      have hk0 : 0 < k := by omega
      rw [hk, Int.toNat_natCast, List.append_assoc, List.cons_append]
      refine ⟨digits.take k, digits.drop k, scanMantissa_point ?_ ?_ ?_ hr.mantissa, ?_, ?_⟩
      · exact fun x hx => hd x (List.mem_of_mem_take hx)
      · exact fun x hx => hd x (List.mem_of_mem_drop hx)
      · simp [hne, Nat.ne_of_gt hk0]
      · rw [List.take_append_drop, hval]
      · rw [List.length_drop]
        omega
    · next hcount =>
      rw [List.cons_append, List.cons_append, ← List.singleton_append]
      refine ⟨['0'], List.replicate (-(digits.length + e)).toNat '0' ++ digits,
        scanMantissa_point ?_ ?_ ?_ hr.mantissa, ?_, ?_⟩
      · simp
      · intro x hx
        rcases List.mem_append.mp hx with hx | hx
        · exact isDigit_of_mem_replicate x hx
        · exact hd x hx
      · simp
      · rw [← List.append_assoc, ← List.replicate_one, List.replicate_append_replicate,
          natOfDigits_zeros_append, hval]
      · simp only [List.length_append, List.length_replicate]
        omega

/-- The sign and the digits that stand for a decimal. -/
def written (negative : Bool) (c : Nat) (e : Int) : List Char :=
  (if negative then ['-'] else []) ++ positionalDigits false (Nat.toDigits 10 c) e

theorem scan_written (negative : Bool) (c : Nat) (e : Int) {rest : List Char} (hr : Ends rest) :
    scan (written negative c e ++ rest) = some (⟨negative, c * 10 ^ e.toNat, min e 0⟩, rest) := by
  obtain ⟨whole, fraction, hm, hval, hlen⟩ := scanMantissa_positionalDigits c e hr
  have hsign : scanSign (written negative c e ++ rest) =
      (negative, positionalDigits false (Nat.toDigits 10 c) e ++ rest) := by
    cases negative with
    | true => rfl
    | false => exact scanSign_of_scanMantissa hm
  unfold scan
  simp only [hsign, hm, Option.map_some, scanExponent_of_ends hr, hval, hlen]
  simp

/-! ### The text of a double -/

theorem inUnits_shift (negative : Bool) (c : Nat) (e : Int) :
    inUnits ⟨negative, c * 10 ^ e.toNat, min e 0⟩ = inUnits ⟨negative, c, e⟩ := by
  by_cases he : 0 ≤ e
  · rw [inUnits_of_nonneg (d := ⟨negative, c, e⟩) he,
      inUnits_of_nonneg (d := ⟨negative, c * 10 ^ e.toNat, min e 0⟩) (by simp [he])]
    simp [Int.min_eq_right he]
  · have hzero : e.toNat = 0 := by omega
    have hmin : min e 0 = e := by omega
    rw [hzero, hmin, Nat.pow_zero, Nat.mul_one]

theorem toList_text_plain {negative : Bool} {rank : Fin (Binary64.infinityRank + 1)}
    (h : rank.val < Binary64.infinityRank) :
    (plain.text (.number negative rank)).toList =
      if rank.val = 0 then written negative 0 0
      else written negative (shortest .upward rank).1 (shortest .upward rank).2 := by
  rw [Layout.text, if_neg (Nat.ne_of_lt h), String.toList_ofList, Layout.magnitude]
  by_cases h0 : rank.val = 0
  · rw [if_pos h0, if_pos h0]
    rfl
  · rw [if_neg h0, if_neg h0, show plain.tie = .upward from rfl]
    generalize shortest .upward rank.val = found
    rfl

/-- **The text of a finite double is read as the double.** -/
theorem exists_scan_text {negative : Bool} {rank : Fin (Binary64.infinityRank + 1)}
    (h : rank.val < Binary64.infinityRank) {rest : List Char} (hr : Ends rest) :
    ∃ d, scan ((plain.text (.number negative rank)).toList ++ rest) = some (d, rest) ∧
      d.nearest = .number negative rank := by
  rw [toList_text_plain h]
  split
  · next h0 =>
    refine ⟨_, scan_written negative 0 0 hr, ?_⟩
    rw [show rank = 0 from Fin.ext h0]
    cases negative with
    | true => decide
    | false => decide
  · next h0 =>
    refine ⟨_, scan_written _ _ _ hr, ?_⟩
    have hnear := near_shortest .upward negative (Nat.pos_of_ne_zero h0)
    rw [Near, ← inUnits_shift] at hnear
    exact Near.nearest_eq hnear (Nat.pos_of_ne_zero h0) h

theorem ofText?_text {x : Binary64} (h : x.isFinite) :
    ∃ d, ofText? (plain.text x) = some d ∧ d.nearest = x := by
  cases x with
  | nan => cases h
  | number negative rank =>
      obtain ⟨d, hscan, hd⟩ := exists_scan_text (of_decide_eq_true h) ends_nil
      rw [List.append_nil] at hscan
      refine ⟨d, ?_, hd⟩
      rw [ofText?, hscan]

/-! ### Blanks -/

theorem isBlank_of_isDigit {c : Char} (h : c.isDigit = true) : Text.isBlank c = false := by
  have h : 48 ≤ c.toNat ∧ c.toNat ≤ 57 := Char.isDigit_iff_toNat.mp h
  simp only [Text.isBlank, Bool.or_eq_false_iff, Bool.and_eq_false_iff, decide_eq_false_iff_not,
    beq_eq_false_iff_ne]
  omega

/-- Without an exponent, digits are written with zeros and a point, and nothing else. -/
theorem mem_positionalDigits {wholeFraction : Bool} {digits : List Char} {e : Int} {c : Char}
    (h : c ∈ positionalDigits wholeFraction digits e) : c ∈ digits ∨ c = '0' ∨ c = '.' := by
  unfold positionalDigits at h
  simp only at h
  split at h
  · rcases List.mem_append.mp h with h | h
    · rcases List.mem_append.mp h with h | h
      · exact .inl h
      · exact .inr (.inl (List.eq_of_mem_replicate h))
    · split at h
      · simp only [List.mem_cons, List.not_mem_nil, or_false] at h
        exact .inr h.symm
      · cases h
  · split at h
    · rcases List.mem_append.mp h with h | h
      · exact .inl (List.mem_of_mem_take h)
      · rcases List.mem_cons.mp h with h | h
        · exact .inr (.inr h)
        · exact .inl (List.mem_of_mem_drop h)
    · rcases List.mem_cons.mp h with h | h
      · exact .inr (.inl h)
      · rcases List.mem_cons.mp h with h | h
        · exact .inr (.inr h)
        · rcases List.mem_append.mp h with h | h
          · exact .inr (.inl (List.eq_of_mem_replicate h))
          · exact .inl h

theorem isBlank_of_mem_positionalDigits {digits : List Char} {e : Int}
    (hd : ∀ c ∈ digits, c.isDigit = true) :
    ∀ c ∈ positionalDigits false digits e, Text.isBlank c = false := by
  intro c hc
  rcases mem_positionalDigits hc with hc | rfl | rfl
  · exact isBlank_of_isDigit (hd c hc)
  · decide
  · decide

theorem isBlank_of_mem_written {negative : Bool} {n : Nat} {e : Int} :
    ∀ c ∈ written negative n e, Text.isBlank c = false := by
  intro c hc
  rcases List.mem_append.mp hc with hc | hc
  · cases negative with
    | true =>
        rw [List.mem_singleton.mp hc]
        decide
    | false => cases hc
  · refine isBlank_of_mem_positionalDigits (fun x hx => ?_) c hc
    exact Nat.isDigit_of_mem_toDigits (by decide) (by decide) hx

theorem isBlank_of_mem_text {x : Binary64} (h : x.isFinite) :
    ∀ c ∈ (plain.text x).toList, Text.isBlank c = false := by
  cases x with
  | nan => cases h
  | number negative rank =>
      rw [toList_text_plain (of_decide_eq_true h)]
      split
      · exact isBlank_of_mem_written
      · exact isBlank_of_mem_written

end AgentOptions.Decimal

namespace AgentOptions.Integer

theorem isDigit_of_mem_toDigits {n : Nat} : ∀ c ∈ Nat.toDigits 10 n, c.isDigit = true :=
  fun _ => Nat.isDigit_of_mem_toDigits (by decide) (by decide)

theorem scanSign_toDigits (n : Nat) :
    Decimal.scanSign (Nat.toDigits 10 n) = (false, Nat.toDigits 10 n) := by
  have hd := @isDigit_of_mem_toDigits n
  generalize Nat.toDigits 10 n = digits at hd
  unfold Decimal.scanSign
  split
  · exact absurd (hd '-' List.mem_cons_self) (by decide)
  · exact absurd (hd '+' List.mem_cons_self) (by decide)
  · rfl

theorem value?_digits (n : Int) : value? (digits n) = some n := by
  have hsign : Decimal.scanSign (digits n) = (decide (n < 0), Nat.toDigits 10 n.natAbs) := by
    by_cases hn : n < 0
    · rw [digits, if_pos hn]
      simp [Decimal.scanSign, hn]
    · rw [digits, if_neg hn, List.nil_append, scanSign_toDigits]
      simp [hn]
  have hall : (Nat.toDigits 10 n.natAbs).all Char.isDigit = true :=
    List.all_eq_true.mpr isDigit_of_mem_toDigits
  have hne : Nat.toDigits 10 n.natAbs ≠ [] := Nat.toDigits_ne_nil
  rw [value?, hsign]
  simp only [hne, hall, ne_eq, not_false_eq_true, and_self, if_true, decide_eq_true_eq,
    Decimal.natOfDigits_toDigits]
  congr 1
  split
  · omega
  · omega

theorem ofText?_eq_some_iff {s : String} {n : Int64} :
    ofText? s = some n ↔ value? s.toList = some n.toInt := by
  unfold ofText?
  constructor
  · intro h
    split at h
    · next v hv =>
      rw [Option.ite_none_right_eq_some, Option.some.injEq] at h
      obtain ⟨⟨hlow, hhigh⟩, rfl⟩ := h
      rw [hv, Int64.toInt_ofInt_of_le hlow (Int.lt_add_one_of_le hhigh)]
    · cases h
  · intro h
    have hrange : Int64.minValue.toInt ≤ n.toInt ∧ n.toInt ≤ Int64.maxValue.toInt :=
      ⟨n.minValue_le_toInt, n.toInt_le⟩
    simp only [h, hrange, and_self, if_true, Int64.ofInt_toInt]

/-- **A 64-bit integer is read from its text.** -/
theorem ofText?_text (n : Int64) : ofText? (text n.toInt) = some n := by
  rw [ofText?_eq_some_iff, text, String.toList_ofList]
  exact value?_digits n.toInt

theorem isBlank_of_mem_digits (n : Int) : ∀ c ∈ digits n, Text.isBlank c = false := by
  intro c hc
  rcases List.mem_append.mp hc with hc | hc
  · split at hc
    · rw [List.mem_singleton.mp hc]
      decide
    · cases hc
  · exact Decimal.isBlank_of_isDigit (isDigit_of_mem_toDigits c hc)

end AgentOptions.Integer

namespace AgentOptions.Duration

theorem ends_milliseconds : Decimal.Ends ['m', 's'] := by
  intro c hc
  obtain rfl : 'm' = c := Option.some.inj hc
  decide

theorem toList_text (d : Duration) :
    d.text.toList = (Decimal.plain.text d.millis).toList ++ ['m', 's'] :=
  String.toList_append

/-- **A finite duration is read from its text, whatever unit bare numbers count.** -/
theorem ofText_text {d : Duration} (h : d.millis.isFinite) (bare : TimeUnit) :
    ofText bare d.text = .ok d := by
  obtain ⟨millis⟩ := d
  cases millis with
  | nan => cases h
  | number negative rank =>
      obtain ⟨numeral, hscan, hnear⟩ :=
        Decimal.exists_scan_text (of_decide_eq_true h) ends_milliseconds
      have hsplit : split? (text ⟨.number negative rank⟩).toList = some (numeral, "ms") := by
        rw [toList_text, split?, hscan]
        rfl
      have hunit : unitOf? bare "ms" = some .milliseconds := rfl
      rw [ofText, hsplit]
      simp only [hnear, h, hunit, TimeUnit.toMillis, if_true]

theorem isBlank_of_mem_text {d : Duration} (h : d.millis.isFinite) :
    ∀ c ∈ d.text.toList, Text.isBlank c = false := by
  intro c hc
  rw [toList_text] at hc
  rcases List.mem_append.mp hc with hc | hc
  · exact Decimal.isBlank_of_mem_text h c hc
  · simp only [List.mem_cons, List.not_mem_nil, or_false] at hc
    rcases hc with rfl | rfl
    · decide
    · decide

end AgentOptions.Duration
