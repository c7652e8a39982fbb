import AgentOptions.Proofs.NumeralGrammar
import AgentOptions.Proofs.RawText

/-! # Integer options

An integer option takes the texts that write a number of the 64-bit range within its bounds
(`Integer.Writes`, `read_int_eq_ok_iff`).  A text that writes no number of that range is no integer,
whatever the bounds are; any other one passes a bound, and the error names the lower bound if it
passes both (`read_int_of_writes`).

Main statement: `read_int_by_exact_value`. -/

namespace AgentOptions.OptionSpec

/-! ### Passed bounds -/

section bounds

variable {α : Type} {less : α → α → Bool} {text : α → String} {min max : Option α} {raw : String}
  {x m : α}

theorem within_of_below (hm : min = some m) (h : less x m = true) :
    within (passed? less text min max) raw x = .error (.outOfRange raw (.min (text m))) := by
  have hfilter : (some m).filter (less x ·) = some m := by simp [h]
  rw [within, passed?, hm, hfilter]

theorem within_of_above (hmin : ∀ k, min = some k → less x k = false) (hm : max = some m)
    (h : less m x = true) :
    within (passed? less text min max) raw x = .error (.outOfRange raw (.max (text m))) := by
  have hmax : (some m).filter (less · x) = some m := by simp [h]
  have hfilter : min.filter (less x ·) = none := by
    simpa [Option.filter_eq_none_iff] using hmin
  rw [within, passed?, hm, hfilter, hmax]
  rfl

end bounds

theorem between_int_iff {min max : Option Int64} {n : Int64} :
    Between (fun m n => decide (m < n)) min max n ↔
      (∀ m, min = some m → m.toInt ≤ n.toInt) ∧ ∀ m, max = some m → n.toInt ≤ m.toInt := by
  simp only [Between, decide_eq_false_iff_not, Int64.lt_iff_toInt_lt, Int.not_lt]

/-! ### Integers -/

variable {min max : Option Int64} {default n : Int64} {raw : String}

theorem readInt_eq_ok_iff : readInt raw = .ok n ↔ Integer.Writes raw.toList n.toInt := by
  rw [← Integer.value?_eq_some_iff, ← Integer.ofText?_eq_some_iff, readInt]
  cases Integer.ofText? raw with
  | none => simp
  | some m => simp

/-- A text that writes a 64-bit number is refused for its bounds alone. -/
theorem read_int_of_writes (h : Integer.Writes raw.toList n.toInt) :
    (int min max default).read raw = (within (intLimit min max) raw n).map .int := by
  rw [read, readInt_eq_ok_iff.mpr h]
  rfl

/-- The text writes no number of the 64-bit range. -/
def WritesNone (raw : String) : Prop :=
  ∀ v, Integer.Writes raw.toList v → v < -2 ^ 63 ∨ 2 ^ 63 ≤ v

theorem exists_toInt_eq {v : Int} (hlow : -2 ^ 63 ≤ v) (hhigh : v < 2 ^ 63) :
    ∃ n : Int64, n.toInt = v :=
  ⟨Int64.ofInt v, Int64.toInt_ofInt_of_le hlow hhigh⟩

theorem writes_or_writesNone (raw : String) :
    (∃ n : Int64, Integer.Writes raw.toList n.toInt) ∨ WritesNone raw := by
  by_cases h : WritesNone raw
  · exact .inr h
  · simp only [WritesNone, not_forall, not_or, Int.not_lt, Int.not_le] at h
    obtain ⟨v, hv, hlow, hhigh⟩ := h
    obtain ⟨n, rfl⟩ := exists_toInt_eq hlow hhigh
    exact .inl ⟨n, hv⟩

theorem read_int_of_writesNone (h : WritesNone raw) :
    (int min max default).read raw = .error (.notInteger raw) := by
  have hnone : Integer.ofText? raw = none := by
    rw [Option.eq_none_iff_forall_ne_some]
    intro n hn
    have hwrites := Integer.value?_eq_some_iff.mp (Integer.ofText?_eq_some_iff.mp hn)
    have hlow := n.le_toInt
    have hhigh := n.toInt_lt
    have := h _ hwrites
    omega
  rw [read, readInt, hnone]
  rfl

theorem read_int_eq_ok_iff :
    (int min max default).read raw = .ok (.int n) ↔
      Integer.Writes raw.toList n.toInt ∧ (∀ m, min = some m → m.toInt ≤ n.toInt) ∧
        ∀ m, max = some m → n.toInt ≤ m.toInt := by
  rw [read, map_eq_ok_iff]
  simp only [bind_within_eq_ok_iff, intLimit, passed?_eq_none_iff, between_int_iff,
    readInt_eq_ok_iff, OptionValue.int.injEq, exists_eq_right]

theorem read_int_eq_notInteger_iff :
    (int min max default).read raw = .error (.notInteger raw) ↔ WritesNone raw := by
  constructor
  · intro h
    rcases writes_or_writesNone raw with ⟨n, hn⟩ | hnone
    · rw [read_int_of_writes hn] at h
      unfold within at h
      split at h
      · cases h
      · cases h
    · exact hnone
  · exact read_int_of_writesNone

/-- **An integer option reads a text by its exact value.**  It gives a number exactly if the text
writes it and it is in the 64-bit range and within the bounds.  A text that writes no number of the
range is no integer, whatever the bounds; one below the lower bound is refused for that bound, and
any other one above the upper bound for the upper.  Every 64-bit integer is read from its text. -/
theorem read_int_by_exact_value (min max : Option Int64) (default : Int64) (raw : String) :
    (∀ v : Int, (∃ n : Int64, n.toInt = v ∧ (int min max default).read raw = .ok (.int n)) ↔
      Integer.Writes raw.toList v ∧ -2 ^ 63 ≤ v ∧ v < 2 ^ 63 ∧
        (∀ m, min = some m → m.toInt ≤ v) ∧ ∀ m, max = some m → v ≤ m.toInt) ∧
    ((int min max default).read raw = .error (.notInteger raw) ↔ WritesNone raw) ∧
    (∀ v : Int, Integer.Writes raw.toList v → -2 ^ 63 ≤ v → v < 2 ^ 63 →
      (∀ m, min = some m → v < m.toInt → (int min max default).read raw =
        .error (.outOfRange raw (.min (Integer.text m.toInt)))) ∧
      ∀ m, max = some m → m.toInt < v → (∀ k, min = some k → k.toInt ≤ v) →
        (int min max default).read raw =
          .error (.outOfRange raw (.max (Integer.text m.toInt)))) ∧
    ∀ n : Int64, ∃ text, (OptionValue.int n).raw? = some text ∧
      Integer.Writes text.toList n.toInt ∧ readInt text = .ok n := by
  refine ⟨fun v => ⟨?_, ?_⟩, read_int_eq_notInteger_iff, fun v hv hlow hhigh => ?_, fun n => ?_⟩
  · rintro ⟨n, rfl, h⟩
    obtain ⟨hwrites, hbounds⟩ := read_int_eq_ok_iff.mp h
    exact ⟨hwrites, n.le_toInt, n.toInt_lt, hbounds⟩
  · rintro ⟨hwrites, hlow, hhigh, hbounds⟩
    obtain ⟨n, rfl⟩ := exists_toInt_eq hlow hhigh
    exact ⟨n, rfl, read_int_eq_ok_iff.mpr ⟨hwrites, hbounds⟩⟩
  · obtain ⟨n, rfl⟩ := exists_toInt_eq hlow hhigh
    rw [read_int_of_writes hv, intLimit]
    constructor
    · intro m hm hlt
      rw [within_of_below hm (decide_eq_true (Int64.lt_iff_toInt_lt.mpr hlt))]
      rfl
    · intro m hm hlt hmin
      have hmin' := (@between_int_iff min none n).mpr ⟨hmin, by simp⟩
      rw [within_of_above hmin'.1 hm (decide_eq_true (Int64.lt_iff_toInt_lt.mpr hlt))]
      rfl
  · exact ⟨_, rfl, readInt_eq_ok_iff.mp (readInt_text n), readInt_text n⟩

/-- A number that passes both bounds, one that passes the upper bound alone, and the numbers at and
just beyond the ends of the range. -/
theorem read_int_by_exact_value_at_ends :
    (int (some 10) (some 5) 0).read "+007" = .error (.outOfRange "+007" (.min "10")) ∧
    (int (some 0) (some 5) 0).read "7" = .error (.outOfRange "7" (.max "5")) ∧
    (∃ n : Int64, n.toInt = -2 ^ 63 ∧
      (int none (some 5) 0).read "-9223372036854775808" = .ok (.int n)) ∧
    (int none none 0).read "9223372036854775808" = .error (.notInteger "9223372036854775808") := by
  refine ⟨?_, ?_, ?_, ?_⟩
  · have hwrites : Integer.Writes "+007".toList 7 := Integer.value?_eq_some_iff.mp (by decide)
    have h := (read_int_by_exact_value (some 10) (some 5) 0 "+007").2.2.1 7 hwrites
      (by decide) (by decide)
    exact h.1 10 rfl (by decide)
  · have hwrites : Integer.Writes "7".toList 7 := Integer.value?_eq_some_iff.mp (by decide)
    have h := (read_int_by_exact_value (some 0) (some 5) 0 "7").2.2.1 7 hwrites
      (by decide) (by decide)
    refine h.2 5 rfl (by decide) fun k hk => ?_
    obtain rfl := Option.some.inj hk
    decide
  · apply ((read_int_by_exact_value none (some 5) 0 _).1 (-2 ^ 63)).mpr
    refine ⟨Integer.value?_eq_some_iff.mp (by decide), by decide, by decide, by simp, ?_⟩
    intro m hm
    obtain rfl := Option.some.inj hm
    decide
  · apply (read_int_by_exact_value none none 0 _).2.1.mpr
    intro v hv
    have hvalue : Integer.value? "9223372036854775808".toList = some (2 ^ 63) := by decide
    rw [← Integer.value?_eq_some_iff, hvalue] at hv
    exact .inr (Int.le_of_eq (Option.some.inj hv))

end AgentOptions.OptionSpec
