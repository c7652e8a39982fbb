import AgentOptions.Proofs.NumberText

/-! # Numbers in documents

In documents a number has a fraction or an exponent.  Its text is a numeral all the same, and
is read as the number (`Decimal.exists_scan_text_document`): a fraction of `.0` only moves a power
of ten from the exponent into the coefficient, which changes no magnitude (`near_shift`).  So no two
finite doubles have one text in documents (`document_text_inj`). -/

namespace AgentOptions

/-! ### Shifted decimals -/

/-- The interval of a rank does not depend on how a magnitude is written as a quotient. -/
theorem Binary64.InInterval.scale {rank num den m : Nat} (h : InInterval rank num den)
    (hm : 0 < m) : InInterval rank (num * m) (den * m) := by
  obtain ⟨hlow, hhigh, hodd⟩ := h
  unfold InInterval
  rw [← Nat.mul_assoc, ← Nat.mul_assoc, ← Nat.mul_assoc]
  refine ⟨Nat.mul_le_mul_right m hlow, Nat.mul_le_mul_right m hhigh, fun hrank => ?_⟩
  obtain ⟨h1, h2⟩ := hodd hrank
  exact ⟨fun he => h1 (Nat.eq_of_mul_eq_mul_right hm he),
    fun he => h2 (Nat.eq_of_mul_eq_mul_right hm he)⟩

namespace Decimal

/-- Powers of ten moved from the exponent into the coefficient. -/
def shifted (negative : Bool) (c : Nat) (e : Int) (k : Nat) : Decimal :=
  ⟨negative, c * 10 ^ k, e - k⟩

theorem exists_inUnits_shifted (negative : Bool) (c : Nat) (e : Int) (k : Nat) :
    ∃ m, 0 < m ∧ (shifted negative c e k).inUnits =
      ((inUnits ⟨negative, c, e⟩).1 * m, (inUnits ⟨negative, c, e⟩).2 * m) := by
  unfold shifted
  by_cases he : 0 ≤ e
  · rw [inUnits_of_nonneg (d := ⟨negative, c, e⟩) he]
    by_cases hk : 0 ≤ e - k
    · refine ⟨1, Nat.one_pos, ?_⟩
      have hpow : e.toNat = k + (e - k).toNat := by omega
      rw [inUnits_of_nonneg (d := ⟨negative, c * 10 ^ k, e - k⟩) hk, hpow, Nat.pow_add]
      simp only [Nat.mul_one, Nat.mul_assoc]
    · obtain ⟨j, hj⟩ : ∃ j, (-(e - k)).toNat = j := ⟨_, rfl⟩
      have hpow : k = e.toNat + j := by omega
      refine ⟨10 ^ j, Nat.pow_pos (by decide), ?_⟩
      rw [inUnits_of_neg (d := ⟨negative, c * 10 ^ k, e - k⟩) hk, hj, hpow, Nat.pow_add]
      exact Prod.ext (by simp only; ring) (Nat.one_mul _).symm
  · have hk : ¬ 0 ≤ e - k := by omega
    have hpow : (-(e - k)).toNat = (-e).toNat + k := by omega
    refine ⟨10 ^ k, Nat.pow_pos (by decide), ?_⟩
    rw [inUnits_of_neg (d := ⟨negative, c, e⟩) he,
      inUnits_of_neg (d := ⟨negative, c * 10 ^ k, e - k⟩) hk, hpow, Nat.pow_add]
    exact Prod.ext (by simp only; ring) rfl

theorem near_shifted {negative : Bool} {c rank : Nat} {e : Int}
    (h : Near ⟨negative, c, e⟩ rank) (k : Nat) : (shifted negative c e k).Near rank := by
  obtain ⟨m, hm, he⟩ := exists_inUnits_shifted negative c e k
  unfold Near
  rw [he]
  exact Binary64.InInterval.scale h hm

theorem nearest_of_coefficient_eq_zero (negative : Bool) (e : Int) :
    nearest ⟨negative, 0, e⟩ = .number negative 0 := by
  have hzero : nearest ⟨negative, 0, e⟩ = .ofUnits negative 0 1 := by simp [nearest]
  rw [hzero]
  cases negative with
  | true => decide
  | false => decide

/-! ### Reading -/

theorem scan_of_scanMantissa {negative : Bool} {body whole fraction rest : List Char}
    (h : scanMantissa body = some (whole, fraction, rest)) :
    scan ((if negative then ['-'] else []) ++ body) =
      some (⟨negative, natOfDigits (whole ++ fraction),
        (scanExponent rest).1 - fraction.length⟩, (scanExponent rest).2) := by
  have hsign : scanSign ((if negative then ['-'] else []) ++ body) = (negative, body) := by
    cases negative with
    | true => rfl
    | false => exact scanSign_of_scanMantissa h
  simp only [scan, hsign, h, Option.map_some]

theorem exists_scan_positionalDigits (negative : Bool) (c : Nat) (e : Int) {rest : List Char}
    (hr : Ends rest) :
    ∃ k, scan ((if negative then ['-'] else []) ++
        (positionalDigits true (Nat.toDigits 10 c) e ++ rest)) =
      some (shifted negative c e k, rest) := by
  by_cases he : 0 ≤ e
  · have hbody : positionalDigits true (Nat.toDigits 10 c) e ++ rest =
        (Nat.toDigits 10 c ++ List.replicate e.toNat '0') ++ '.' :: (['0'] ++ rest) := by
      rw [positionalDigits, if_pos he]
      simp
    have hm : scanMantissa (positionalDigits true (Nat.toDigits 10 c) e ++ rest) =
        some (Nat.toDigits 10 c ++ List.replicate e.toNat '0', ['0'], rest) := by
      rw [hbody]
      refine scanMantissa_point (fun x hx => ?_) (by simp) (by simp) hr.mantissa
      rcases List.mem_append.mp hx with hx | hx
      · exact Integer.isDigit_of_mem_toDigits x hx
      · exact isDigit_of_mem_replicate x hx
    have hval : natOfDigits (Nat.toDigits 10 c ++ List.replicate e.toNat '0' ++ ['0']) =
        c * 10 ^ (e.toNat + 1) := by
      rw [List.append_assoc, ← List.replicate_succ', natOfDigits_append_zeros,
        natOfDigits_toDigits]
    have hexponent : (0 : Int) - (['0'].length : Nat) = e - (e.toNat + 1 : Nat) := by
      rw [List.length_singleton]
      omega
    exact ⟨e.toNat + 1, by
      rw [scan_of_scanMantissa hm, scanExponent_of_ends hr, hval, hexponent, shifted]⟩
  · have hbody : positionalDigits true (Nat.toDigits 10 c) e =
        positionalDigits false (Nat.toDigits 10 c) e := by
      simp only [positionalDigits, if_neg he]
    obtain ⟨whole, fraction, hm, hval, hlen⟩ := scanMantissa_positionalDigits c e hr
    have hzero : e.toNat = 0 := by omega
    have hexponent : (0 : Int) - -min e 0 = e - (0 : Nat) := by omega
    exact ⟨0, by
      rw [hbody, scan_of_scanMantissa hm, scanExponent_of_ends hr, hval, hlen, hzero, hexponent,
        shifted]⟩

theorem scanExponent_written (power : Int) {rest : List Char} (hr : Ends rest) :
    scanExponent ('e' :: (if power < 0 then '-' else '+') ::
      (Nat.toDigits 10 power.natAbs ++ rest)) = (power, rest) := by
  have hdigits := scanDigits_append (@Integer.isDigit_of_mem_toDigits power.natAbs)
    fun c hc => (hr c hc).1
  have hne : Nat.toDigits 10 power.natAbs ≠ [] := Nat.toDigits_ne_nil
  by_cases hp : power < 0
  · have hpower : -(power.natAbs : Int) = power := by omega
    simp only [scanExponent, scanSign, if_pos hp, hdigits, hne, natOfDigits_toDigits, hpower,
      ne_eq, not_false_eq_true, true_or, true_and, if_true]
  · have hpower : (power.natAbs : Int) = power := by omega
    simp only [scanExponent, scanSign, if_neg hp, hdigits, hne, natOfDigits_toDigits, hpower,
      ne_eq, not_false_eq_true, true_or, true_and, if_true, Bool.false_eq_true, if_false]

theorem exists_scanMantissa_scientific {digits rest : List Char} (hne : digits ≠ [])
    (hd : ∀ x ∈ digits, x.isDigit = true) (hr : EndsMantissa rest) :
    ∃ whole fraction,
      scanMantissa (digits.take 1 ++ ((if digits.length ≤ 1 then [] else '.' :: digits.drop 1) ++
        rest)) = some (whole, fraction, rest) ∧
      whole ++ fraction = digits ∧ fraction.length = digits.length - 1 := by
  obtain ⟨d, ds, rfl⟩ := List.exists_cons_of_ne_nil hne
  have hhead : ∀ x ∈ [d], x.isDigit = true := fun x hx =>
    hd x (List.mem_cons.mpr (.inl (List.mem_singleton.mp hx)))
  cases ds with
  | nil => exact ⟨[d], [], scanMantissa_whole hhead (by simp) hr, rfl, rfl⟩
  | cons d' ds =>
      have htail : ∀ x ∈ d' :: ds, x.isDigit = true := fun x hx =>
        hd x (List.mem_cons_of_mem d hx)
      exact ⟨[d], d' :: ds, scanMantissa_point hhead htail (by simp) hr, rfl, rfl⟩

theorem scan_scientificDigits (negative : Bool) (c : Nat) (e : Int) {rest : List Char}
    (hr : Ends rest) :
    scan ((if negative then ['-'] else []) ++
        (scientificDigits (Nat.toDigits 10 c) e ++ rest)) =
      some (shifted negative c e 0, rest) := by
  have hends : ∀ tail, EndsMantissa ('e' :: tail) := fun tail x hx => by
    obtain rfl : 'e' = x := Option.some.inj hx
    decide
  obtain ⟨whole, fraction, hm, happend, hlen⟩ :=
    @exists_scanMantissa_scientific (Nat.toDigits 10 c) _ Nat.toDigits_ne_nil
      Integer.isDigit_of_mem_toDigits (hends _)
  unfold scientificDigits
  simp only [List.append_assoc, List.cons_append]
  rw [scan_of_scanMantissa hm, scanExponent_written _ hr, happend, natOfDigits_toDigits, hlen,
    shifted]
  simp

/-! ### The text of a double in documents -/

/-- **A finite double is read from its text in documents.** -/
theorem exists_scan_text_document {negative : Bool} {rank : Fin (Binary64.infinityRank + 1)}
    (h : rank.val < Binary64.infinityRank) {rest : List Char} (hr : Ends rest) :
    ∃ d, scan ((document.text (.number negative rank)).toList ++ rest) = some (d, rest) ∧
      d.nearest = .number negative rank := by
  rw [Layout.text, if_neg (Nat.ne_of_lt h), String.toList_ofList, List.append_assoc]
  have hscan : ∃ k, scan ((if negative then ['-'] else []) ++
      (document.magnitude rank.val ++ rest)) = some (shifted negative
        (if rank.val = 0 then (0, 0) else shortest .toEven rank.val).1
        (if rank.val = 0 then (0, 0) else shortest .toEven rank.val).2 k, rest) := by
    unfold Layout.magnitude
    rw [show document.tie = .toEven from rfl]
    generalize (if rank.val = 0 then (0, 0) else shortest .toEven rank.val) = found
    by_cases hp : document.positional (found.2 + ((Nat.toDigits 10 found.1).length - 1 : Nat))
    · simp only [if_pos hp]
      exact exists_scan_positionalDigits negative found.1 found.2 hr
    · simp only [if_neg hp]
      exact ⟨0, scan_scientificDigits negative found.1 found.2 hr⟩
  obtain ⟨k, hk⟩ := hscan
  refine ⟨_, hk, ?_⟩
  by_cases h0 : rank.val = 0
  · rw [if_pos h0, shifted, Nat.zero_mul, nearest_of_coefficient_eq_zero]
    rw [show rank = 0 from Fin.ext h0]
  · have hpos := Nat.pos_of_ne_zero h0
    rw [if_neg h0]
    exact (near_shifted (near_shortest .toEven negative hpos) k).nearest_eq hpos h

theorem document_text_inj {x y : Binary64} (hx : x.isFinite) (hy : y.isFinite)
    (h : document.text x = document.text y) : x = y := by
  cases x with
  | nan => cases hx
  | number s a => cases y with
    | nan => cases hy
    | number t b =>
        obtain ⟨d, hd, hread⟩ := exists_scan_text_document (of_decide_eq_true hx) ends_nil
        obtain ⟨d', hd', hread'⟩ := exists_scan_text_document (of_decide_eq_true hy) ends_nil
        rw [h, hd'] at hd
        cases hd
        exact hread.symm.trans hread'

end Decimal

end AgentOptions
