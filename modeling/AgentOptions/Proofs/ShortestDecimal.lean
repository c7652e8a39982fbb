import AgentOptions.Decimal.Shortest
import AgentOptions.Proofs.Rounding

/-! # The shortest decimal reads back

A decimal whose magnitude lies in the interval of a finite rank is read as the double of that rank
(`Near.nearest_eq`): it passes the two tests on the number of digits, by which large and small
magnitudes are told without computing them, and is rounded to the rank.  The shortest decimal of a
rank lies in its interval (`near_shortest`), on whatever grid it is found. -/

namespace AgentOptions.Decimal

open Binary64 (units unitsPerOne infinityRank InInterval units_strictMono)

/-! ### The number of digits -/

theorem lt_pow_digitCount (n : Nat) : n < 10 ^ digitCount n :=
  (Nat.length_toDigits_le_iff (by decide) Nat.length_toDigits_pos).mp le_rfl

theorem pow_le_of_digitCount {n : Nat} (hn : n ≠ 0) : 10 ^ (digitCount n - 1) ≤ n := by
  rcases Nat.eq_zero_or_pos (digitCount n - 1) with h | h
  · rw [h]
    omega
  · by_contra hlt
    have := (Nat.length_toDigits_le_iff (b := 10) (by decide) h).mpr (Nat.not_le.mp hlt)
    simp only [digitCount] at this h
    omega

theorem lt_of_pow_lt_pow {a b : Nat} (h : 10 ^ a < 10 ^ b) : a < b :=
  (Nat.pow_lt_pow_iff_right (by decide)).mp h

/-! ### Magnitudes in range -/

theorem inUnits_of_nonneg {d : Decimal} (h : 0 ≤ d.exponent) :
    d.inUnits = (d.coefficient * 10 ^ d.exponent.toNat * unitsPerOne, 1) := if_pos h

theorem inUnits_of_neg {d : Decimal} (h : ¬ 0 ≤ d.exponent) :
    d.inUnits = (d.coefficient * unitsPerOne, 10 ^ (-d.exponent).toNat) := if_neg h

theorem inUnits_snd_pos (d : Decimal) : 0 < d.inUnits.2 := by
  by_cases h : 0 ≤ d.exponent
  · rw [inUnits_of_nonneg h]
    exact Nat.one_pos
  · rw [inUnits_of_neg h]
    exact Nat.pow_pos (by decide)

/-- The decimal lies in the interval of the rank. -/
def Near (d : Decimal) (rank : Nat) : Prop := InInterval rank d.inUnits.1 d.inUnits.2

theorem units_pos {rank : Nat} (h : 0 < rank) : 0 < units rank :=
  Nat.zero_lt_of_lt (units_strictMono h)

theorem Near.inUnits_snd_le {d : Decimal} {rank : Nat} (h : d.Near rank) (h0 : 0 < rank) :
    d.inUnits.2 ≤ 2 * d.inUnits.1 :=
  Nat.le_trans (Nat.le_mul_of_pos_left _ (Nat.add_pos_right _ (units_pos h0))) h.1

theorem Near.inUnits_fst_lt {d : Decimal} {rank : Nat} (h : d.Near rank)
    (hr : rank < infinityRank) : d.inUnits.1 < units infinityRank * d.inUnits.2 := by
  have h1 : units rank < units (rank + 1) := units_strictMono (Nat.lt_add_one rank)
  have h2 : units (rank + 1) ≤ units infinityRank := units_strictMono.monotone hr
  have h3 := Nat.mul_lt_mul_of_pos_right
    (show units rank + units (rank + 1) < 2 * units infinityRank by omega) (inUnits_snd_pos d)
  have h4 := h.2.1
  rw [Nat.mul_assoc] at h3
  omega

theorem Near.coefficient_ne_zero {d : Decimal} {rank : Nat} (h : d.Near rank) (h0 : 0 < rank) :
    d.coefficient ≠ 0 := by
  intro hc
  have hle := h.inUnits_snd_le h0
  have hpos := inUnits_snd_pos d
  by_cases he : 0 ≤ d.exponent
  · rw [inUnits_of_nonneg he, hc, Nat.zero_mul, Nat.zero_mul] at hle
    omega
  · rw [inUnits_of_neg he, hc, Nat.zero_mul] at hle
    rw [inUnits_of_neg he] at hpos
    omega

theorem Near.magnitude_gt {d : Decimal} {rank k : Nat} (h : d.Near rank) (h0 : 0 < rank)
    (hk : 2 * unitsPerOne < 10 ^ k) : -(k : Int) < digitCount d.coefficient + d.exponent := by
  by_cases he : 0 ≤ d.exponent
  · have : 0 < digitCount d.coefficient := Nat.length_toDigits_pos
    omega
  · have hle := h.inUnits_snd_le h0
    rw [inUnits_of_neg he] at hle
    have hlt : 10 ^ (-d.exponent).toNat < 10 ^ (digitCount d.coefficient + k) :=
      calc 10 ^ (-d.exponent).toNat
          ≤ d.coefficient * (2 * unitsPerOne) := Nat.le_trans hle (Nat.le_of_eq (by ring))
        _ < 10 ^ digitCount d.coefficient * 10 ^ k :=
            Nat.mul_lt_mul'' (lt_pow_digitCount d.coefficient) hk
        _ = 10 ^ (digitCount d.coefficient + k) := (Nat.pow_add _ _ _).symm
    have := lt_of_pow_lt_pow hlt
    omega

theorem Near.magnitude_le {d : Decimal} {rank k : Nat} (h : d.Near rank) (h0 : 0 < rank)
    (hr : rank < infinityRank) (hk : units infinityRank < 10 ^ k * unitsPerOne) :
    digitCount d.coefficient + d.exponent ≤ k + 1 := by
  have hc := pow_le_of_digitCount (h.coefficient_ne_zero h0)
  have hlt := h.inUnits_fst_lt hr
  by_cases he : 0 ≤ d.exponent
  · rw [inUnits_of_nonneg he, Nat.mul_one] at hlt
    have hpow : 10 ^ (digitCount d.coefficient - 1 + d.exponent.toNat) < 10 ^ k := by
      rw [Nat.pow_add]
      refine Nat.lt_of_le_of_lt (Nat.mul_le_mul_right _ hc) ?_
      exact Nat.lt_of_mul_lt_mul_right (Nat.lt_trans hlt hk)
    have := lt_of_pow_lt_pow hpow
    omega
  · rw [inUnits_of_neg he] at hlt
    have hpow : 10 ^ (digitCount d.coefficient - 1) < 10 ^ (k + (-d.exponent).toNat) := by
      refine Nat.lt_of_le_of_lt hc (Nat.lt_of_mul_lt_mul_right (a := unitsPerOne) ?_)
      calc d.coefficient * unitsPerOne
          < units infinityRank * 10 ^ (-d.exponent).toNat := hlt
        _ ≤ 10 ^ k * unitsPerOne * 10 ^ (-d.exponent).toNat := Nat.mul_le_mul_right _ hk.le
        _ = 10 ^ (k + (-d.exponent).toNat) * unitsPerOne := by ring
    have := lt_of_pow_lt_pow hpow
    omega

theorem two_units_lt_ten_pow : 2 * unitsPerOne < 10 ^ 324 := by decide +kernel

theorem units_infinityRank_lt : units infinityRank < 10 ^ 309 * unitsPerOne := by decide +kernel

/-- **A decimal near a finite rank is read as the double of that rank.** -/
theorem Near.nearest_eq {d : Decimal} {rank : Nat} (h : d.Near rank) (h0 : 0 < rank)
    (hr : rank < infinityRank) :
    d.nearest = .number d.negative ⟨rank, Nat.lt_succ_of_lt hr⟩ := by
  have hc := h.coefficient_ne_zero h0
  have hlow := h.magnitude_gt h0 two_units_lt_ten_pow
  have hhigh := h.magnitude_le h0 hr units_infinityRank_lt
  have h1 : ¬ (d.coefficient = 0 ∨ (digitCount d.coefficient : Int) + d.exponent < -330) := by
    omega
  have h2 : ¬ 310 < (digitCount d.coefficient : Int) + d.exponent := by omega
  unfold nearest
  simp only [Bool.or_eq_true, decide_eq_true_eq, if_neg h1, if_neg h2]
  rw [Binary64.ofUnits]
  congr 2
  rw [Binary64.nearestRank_eq (inUnits_snd_pos d) h]
  exact Nat.min_eq_left hr.le

/-! ### The search on grids -/

/-- The test of the search is the interval of the rank. -/
theorem readsBack_onGrid {rank m : Nat} {p : Int} (negative : Bool)
    (h : readsBack rank (onGrid rank p).1 (onGrid rank p).2.2 m = true) :
    Near ⟨negative, m, p⟩ rank := by
  have hnum : m * (onGrid rank p).2.2 = 2 * (inUnits ⟨negative, m, p⟩).1 ∧
      (onGrid rank p).1 = (inUnits ⟨negative, m, p⟩).2 := by
    by_cases hp : 0 ≤ p
    · rw [inUnits_of_nonneg hp, onGrid, if_pos hp]
      exact ⟨by simp only [Nat.pow_eq]; ring, rfl⟩
    · rw [inUnits_of_neg hp, onGrid, if_neg hp]
      exact ⟨by simp only; ring, rfl⟩
  unfold readsBack at h
  rw [hnum.1, hnum.2] at h
  unfold Near InInterval
  split at h
  · next heven =>
    simp only [Bool.and_eq_true, decide_eq_true_eq] at h
    exact ⟨h.1, h.2, fun hodd => by omega⟩
  · simp only [Bool.and_eq_true, decide_eq_true_eq] at h
    exact ⟨h.1.le, h.2.le, fun _ => ⟨h.1.ne, h.2.ne⟩⟩

theorem readsBack_of_onPower? {tie : Tie} {rank m : Nat} {p : Int}
    (h : onPower? tie rank p = some m) :
    readsBack rank (onGrid rank p).1 (onGrid rank p).2.2 m = true := by
  unfold onPower? at h
  simp only at h
  split at h
  · cases h
  · next h1 _ => exact Option.some.inj h ▸ h1
  · next _ h2 => exact Option.some.inj h ▸ h2
  · next h1 h2 =>
    split at h
    · exact Option.some.inj h ▸ h1
    · split at h
      · exact Option.some.inj h ▸ h2
      · cases tie with
        | upward => exact Option.some.inj h ▸ h2
        | toEven =>
            have h := Option.some.inj h
            split at h
            · exact h ▸ h1
            · exact h ▸ h2

/-- The exact decimal of a double, on a grid that is as fine as the units. -/
theorem near_exact {k rank : Nat} (negative : Bool) (hk : unitsPerOne = Nat.pow 2 k)
    (hpos : 0 < k) (h0 : 0 < rank) :
    Near ⟨negative, units rank * Nat.pow 5 k, -(k : Int)⟩ rank := by
  have hne : ¬ (0 : Int) ≤ -(k : Int) := by omega
  have hlow : units (rank - 1) < units rank := units_strictMono (by omega)
  have hhigh : units rank < units (rank + 1) := units_strictMono (Nat.lt_add_one rank)
  have hden : 0 < 10 ^ k := Nat.pow_pos (by decide)
  have hnum : 2 * (units rank * 5 ^ k * 2 ^ k) = (units rank + units rank) * 10 ^ k := by
    rw [Nat.mul_assoc, ← Nat.mul_pow]
    ring
  unfold Near InInterval
  rw [inUnits_of_neg hne, hk]
  simp only [Nat.pow_eq, Int.neg_neg, Int.toNat_natCast, hnum]
  have h1 := Nat.mul_lt_mul_of_pos_right (Nat.add_lt_add_right hlow (units rank)) hden
  have h2 := Nat.mul_lt_mul_of_pos_right (Nat.add_lt_add_left hhigh (units rank)) hden
  exact ⟨h1.le, h2.le, fun _ => ⟨h1.ne, h2.ne⟩⟩

/-- **The shortest decimal of a double is near its rank.** -/
theorem near_shortest (tie : Tie) {rank : Nat} (negative : Bool) (h0 : 0 < rank) :
    Near ⟨negative, (shortest tie rank).1, (shortest tie rank).2⟩ rank := by
  unfold shortest
  simp only
  cases hf : (List.range 20).findSome? fun (k : Nat) =>
      (onPower? tie rank (ceilingPower rank - k)).map fun m =>
        (m, ceilingPower rank - (k : Int)) with
  | none =>
      have hexact := near_exact negative (k := 1074) (by decide +kernel) (by decide) h0
      rw [Nat.cast_ofNat] at hexact
      exact hexact
  | some found =>
      obtain ⟨k, -, hk⟩ := List.exists_of_findSome?_eq_some hf
      obtain ⟨m, hm, rfl⟩ := Option.map_eq_some_iff.mp hk
      exact readsBack_onGrid negative (readsBack_of_onPower? hm)

end AgentOptions.Decimal
