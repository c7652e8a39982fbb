import AgentOptions.Binary64
import Mathlib.Order.Monotone.Basic
import Mathlib.Tactic.Ring

/-! # Rounding to the nearest double

`Binary64.nearestRank` gives the rank to whose interval a magnitude belongs.  The interval of a
rank reaches to the middles between its magnitude and those of its neighbours, the middles
included for an even rank (`InInterval`); a magnitude in the interval is rounded to the rank
(`nearestRank_eq`).

Magnitudes grow with ranks by a step for each (`units_succ`), and `floorRank` is the last rank up to
a number of units (`units_floorRank`). -/

namespace AgentOptions.Binary64

theorem binade_pos : 0 < binade := by decide

theorem units_of_lt {r : Nat} (h : r < binade) : units r = r := if_pos h

theorem div_binade (k : Nat) {m : Nat} (hm : m < binade) : (k * binade + m) / binade = k := by
  rw [Nat.mul_comm, Nat.mul_add_div binade_pos, Nat.div_eq_of_lt hm, Nat.add_zero]

theorem units_normal (k : Nat) {m : Nat} (hm : m < binade) :
    units ((k + 1) * binade + m) = (binade + m) * 2 ^ k := by
  have hmod : ((k + 1) * binade + m) % binade = m := by
    rw [Nat.mul_add_mod', Nat.mod_eq_of_lt hm]
  have hge : ¬ (k + 1) * binade + m < binade := by
    rw [Nat.succ_mul]
    omega
  rw [units, if_neg hge, div_binade (k + 1) hm, hmod, Nat.add_sub_cancel]
  rfl

theorem exists_normal {r : Nat} (h : binade ≤ r) :
    ∃ k m, m < binade ∧ r = (k + 1) * binade + m := by
  refine ⟨r / binade - 1, r % binade, Nat.mod_lt _ binade_pos, ?_⟩
  have hpos : 0 < r / binade := Nat.div_pos h binade_pos
  rw [Nat.sub_add_cancel hpos, Nat.mul_comm]
  exact (Nat.div_add_mod r binade).symm

theorem units_succ (r : Nat) : units (r + 1) = units r + 2 ^ (r / binade - 1) := by
  rcases Nat.lt_or_ge r binade with hr | hr
  · have hdiv : r / binade = 0 := Nat.div_eq_of_lt hr
    rcases Nat.lt_or_ge (r + 1) binade with hs | hs
    · rw [units_of_lt hs, units_of_lt hr, hdiv]
      rfl
    · have hs : r + 1 = (0 + 1) * binade + 0 := by omega
      rw [units_of_lt hr, hs, units_normal 0 binade_pos, hdiv]
      omega
  · obtain ⟨k, m, hm, rfl⟩ := exists_normal hr
    rw [div_binade (k + 1) hm, Nat.add_sub_cancel, units_normal k hm]
    rcases Nat.lt_or_ge (m + 1) binade with hs | hs
    · rw [Nat.add_assoc, units_normal k hs]
      ring
    · have hs : (k + 1) * binade + m + 1 = (k + 1 + 1) * binade + 0 := by
        rw [Nat.succ_mul (k + 1)]
        omega
      have hm : binade + m + 1 = binade * 2 := by omega
      rw [hs, units_normal (k + 1) binade_pos, Nat.add_zero, Nat.pow_succ']
      calc binade * (2 * 2 ^ k) = (binade * 2) * 2 ^ k := by ring
        _ = (binade + m + 1) * 2 ^ k := by rw [hm]
        _ = (binade + m) * 2 ^ k + 2 ^ k := by ring

theorem units_strictMono : StrictMono units := by
  apply strictMono_nat_of_lt_succ
  intro r
  rw [units_succ]
  exact Nat.lt_add_of_pos_right (Nat.two_pow_pos _)

theorem units_of_lt_two_binades {n : Nat} (hn : n < 2 * binade) : units n = n := by
  rcases Nat.lt_or_ge n binade with h | h
  · exact units_of_lt h
  · have hm : n - binade < binade := by omega
    have hrank : n = (0 + 1) * binade + (n - binade) := by omega
    rw [hrank, units_normal 0 hm]
    omega

theorem exists_leading_digits {n : Nat} (hn : 2 * binade ≤ n) :
    ∃ e m, n.log2 = e + 53 ∧ m < binade ∧ n / 2 ^ (e + 1) = binade + m := by
  have hn0 : n ≠ 0 := by
    rintro rfl
    exact absurd hn (by decide)
  have hb : binade = 2 ^ 52 := by decide
  obtain ⟨e, he⟩ : ∃ e, n.log2 = e + 53 := by
    have hlog : 53 ≤ n.log2 := (Nat.le_log2 hn0).mpr (by omega)
    exact ⟨n.log2 - 53, by omega⟩
  have hlow : 2 ^ (e + 53) ≤ n := he ▸ Nat.log2_self_le hn0
  have hhigh : n < 2 ^ (e + 53 + 1) := he ▸ Nat.lt_log2_self
  have hq1 : binade ≤ n / 2 ^ (e + 1) := by
    rw [Nat.le_div_iff_mul_le (Nat.two_pow_pos _), hb, ← Nat.pow_add]
    exact Nat.le_trans (Nat.le_of_eq (by ring)) hlow
  have hq2 : n / 2 ^ (e + 1) < 2 * binade := by
    rw [Nat.div_lt_iff_lt_mul (Nat.two_pow_pos _), hb]
    exact Nat.lt_of_lt_of_eq hhigh (by ring)
  refine ⟨e, n / 2 ^ (e + 1) - binade, he, ?_, ?_⟩
  · omega
  · omega

/-- The floor rank is the last whose magnitude is at most `n` units. -/
theorem units_floorRank (n : Nat) :
    units (floorRank n) ≤ n ∧ n < units (floorRank n + 1) := by
  rw [units_succ]
  unfold floorRank
  split
  · next hn =>
    rw [units_of_lt_two_binades hn]
    exact ⟨le_rfl, Nat.lt_add_of_pos_right (Nat.two_pow_pos _)⟩
  · next hn =>
    obtain ⟨e, m, he, hm, hq⟩ := exists_leading_digits (Nat.not_lt.mp hn)
    have hsub : n.log2 - 52 = e + 1 := by omega
    have hrank : (e + 1) * binade + (binade + m) = (e + 1 + 1) * binade + m := by ring
    rw [hsub, Nat.pow_eq, hq, hrank, div_binade (e + 1 + 1) hm, Nat.add_sub_cancel,
      units_normal (e + 1) hm, ← hq]
    exact ⟨Nat.div_mul_le_self _ _, Nat.lt_div_mul_add (Nat.two_pow_pos _)⟩

/-! ### The interval of a rank -/

/-- The magnitude `num / den` lies in the interval of the rank. -/
def InInterval (rank num den : Nat) : Prop :=
  (units (rank - 1) + units rank) * den ≤ 2 * num ∧
    2 * num ≤ (units rank + units (rank + 1)) * den ∧
      (rank % 2 = 1 →
        (units (rank - 1) + units rank) * den ≠ 2 * num ∧
          2 * num ≠ (units rank + units (rank + 1)) * den)

/-- The floor of a magnitude in the interval of a rank is that rank or the one before. -/
theorem floorRank_of_inInterval {rank num den : Nat} (hd : 0 < den) (h : InInterval rank num den) :
    floorRank (num / den) = rank ∨ floorRank (num / den) + 1 = rank := by
  obtain ⟨hlow, hhigh, -⟩ := h
  obtain ⟨hf1, hf2⟩ := units_floorRank (num / den)
  generalize floorRank (num / den) = low at hf1 hf2
  have hn1 : units low * den ≤ num := (Nat.le_div_iff_mul_le hd).mp hf1
  have hn2 : num < units (low + 1) * den := (Nat.div_lt_iff_lt_mul hd).mp hf2
  have hle : ¬ rank + 1 ≤ low := by
    intro hlt
    have h1 := Nat.mul_le_mul_right den (units_strictMono.monotone hlt)
    have h2 := Nat.mul_lt_mul_of_pos_right (units_strictMono (Nat.lt_add_one rank)) hd
    rw [Nat.add_mul] at hhigh
    omega
  have hge : ¬ low + 1 ≤ rank - 1 := by
    intro hlt
    have h1 := Nat.mul_le_mul_right den (units_strictMono.monotone hlt)
    have h2 := Nat.mul_le_mul_right den (units_strictMono.monotone (Nat.sub_le rank 1))
    rw [Nat.add_mul] at hlow
    omega
  omega

/-- What lies in the interval of a rank is rounded to it. -/
theorem nearestRank_eq {rank num den : Nat} (hd : 0 < den) (h : InInterval rank num den) :
    nearestRank num den = rank := by
  have hfloor := floorRank_of_inInterval hd h
  obtain ⟨hlow, hhigh, hodd⟩ := h
  unfold nearestRank
  rcases hfloor with hr | hr
  · simp only [hr, Bool.or_eq_true, decide_eq_true_eq, Bool.and_eq_true, beq_iff_eq]
    rw [if_pos]
    rcases Nat.lt_or_eq_of_le hhigh with hlt | heq
    · exact .inl hlt
    · refine .inr ⟨heq, ?_⟩
      rcases Nat.mod_two_eq_zero_or_one rank with heven | hone
      · exact heven
      · exact absurd heq (hodd hone).2
  · subst hr
    simp only [Nat.add_sub_cancel] at hlow hodd
    simp only [Bool.or_eq_true, decide_eq_true_eq, Bool.and_eq_true, beq_iff_eq]
    rw [if_neg]
    rintro (hlt | ⟨heq, heven⟩)
    · omega
    · exact (hodd (by omega)).1 heq.symm

theorem nearestRank_units (rank : Nat) : nearestRank (units rank) 1 = rank := by
  apply nearestRank_eq Nat.one_pos
  have hbelow := units_strictMono.monotone (Nat.sub_le rank 1)
  have habove := units_strictMono (Nat.lt_add_one rank)
  refine ⟨by omega, by omega, fun hodd => ?_⟩
  have hstrict := units_strictMono (show rank - 1 < rank by omega)
  omega

theorem scale_one {x : Binary64} (h : x.isFinite) : x.scale 1 = x := by
  cases x with
  | nan => cases h
  | number negative rank =>
      have hrank : rank.val < infinityRank := of_decide_eq_true h
      simp only [scale, ofUnits, Nat.mul_one, nearestRank_units, Nat.min_eq_left hrank.le]

end AgentOptions.Binary64
