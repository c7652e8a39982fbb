import AgentOptions.Proofs.Export
import AgentOptions.Proofs.Rounding

/-! # Bounds of numbers

A number that a source supplies is the one that its text denotes (`OptionSpec.Denotes`: the
integer itself, the nearest double, the amount in milliseconds), and it is finite and within the
bounds of its specification (`OptionSpec.Admits`, `OptionSpec.admits_of_read`).  The built-in
defaults are admitted too, so that with the built-in registry every number is
(`admits_value_builtin`).

Doubles are ordered as their exact values (`Binary64.less_iff`), and a number that is finite is
written in documents with the characters of numerals (`Json.isNumeral_of_mem_numberText`).

Main statement: `numbers_stay_in_bounds`. -/

namespace AgentOptions

/-! ### The order of doubles -/

namespace Binary64

/-- The exact value of a finite double, in units. -/
def inUnits? : Binary64 → Option Int
  | nan => none
  | number negative rank =>
    if rank.val < infinityRank then some (signedUnits negative rank) else none

theorem exists_inUnits {x : Binary64} (h : x.isFinite) : ∃ u, x.inUnits? = some u := by
  cases x with
  | nan => cases h
  | number negative rank => exact ⟨_, if_pos (of_decide_eq_true h)⟩

theorem signed_lt_iff (s t : Bool) (a b : Nat) :
    (if s then -(a : Int) else a) < (if t then -(b : Int) else b) ↔
      signedUnits s a < signedUnits t b := by
  have hzero : units 0 = 0 := rfl
  have hab : units a < units b ↔ a < b := units_strictMono.lt_iff_lt
  have hba : units b < units a ↔ b < a := units_strictMono.lt_iff_lt
  have ha : units 0 < units a ↔ 0 < a := units_strictMono.lt_iff_lt
  have hb : units 0 < units b ↔ 0 < b := units_strictMono.lt_iff_lt
  unfold signedUnits
  cases s with
  | true => cases t with
    | true =>
        simp only [if_true]
        omega
    | false =>
        simp only [if_true, Bool.false_eq_true, if_false]
        omega
  | false => cases t with
    | true =>
        simp only [if_true, Bool.false_eq_true, if_false]
        omega
    | false =>
        simp only [Bool.false_eq_true, if_false]
        omega

/-- The order of finite doubles is the order of their exact values. -/
theorem less_iff {x y : Binary64} {u v : Int} (hx : x.inUnits? = some u)
    (hy : y.inUnits? = some v) : x.less y = true ↔ u < v := by
  cases x with
  | nan => cases hx
  | number s a => cases y with
    | nan => cases hy
    | number t b =>
        unfold inUnits? at hx hy
        simp only [Option.ite_none_right_eq_some, Option.some.injEq] at hx hy
        obtain ⟨-, rfl⟩ := hx
        obtain ⟨-, rfl⟩ := hy
        simp only [less, signedRank?, decide_eq_true_eq]
        exact signed_lt_iff s t a b

theorem inUnits?_zero : zero.inUnits? = some 0 := rfl

theorem inUnits?_one : (ofNat 1).inUnits? = some unitsPerOne := by decide +kernel

end Binary64

/-! ### Numbers of a specification -/

namespace OptionSpec

/-- A text and the number that a specification makes of it: the integer that it writes, the double
nearest to it, or its amount in milliseconds, in its own unit or that of bare numbers. -/
inductive Denotes : OptionSpec → String → OptionValue → Prop
  | int {min max : Option Int64} {default n : Int64} {raw : String} :
      Integer.value? raw.toList = some n.toInt → Denotes (.int min max default) raw (.int n)
  | float {min max : Option Binary64} {default : Binary64} {raw : String} {d : Decimal} :
      Decimal.ofText? raw = some d → Denotes (.float min max default) raw (.float d.nearest)
  | duration {min max : Option Binary64} {bare unit : TimeUnit} {default : Binary64}
      {raw suffix : String} {d : Decimal} :
      Duration.split? raw.toList = some (d, suffix) → Duration.unitOf? bare suffix = some unit →
      Denotes (.duration min max bare default) raw (.duration ⟨unit.toMillis d.nearest⟩)

/-- A number that is finite and within the bounds of the specification. -/
inductive Admits : OptionSpec → OptionValue → Prop
  | int {min max : Option Int64} {default n : Int64} :
      -2 ^ 63 ≤ n.toInt → n.toInt < 2 ^ 63 →
      Between (fun m n => decide (m < n)) min max n → Admits (.int min max default) (.int n)
  | float {min max : Option Binary64} {default x : Binary64} :
      x.isFinite → Between Binary64.less min max x → Admits (.float min max default) (.float x)
  | duration {min max : Option Binary64} {bare : TimeUnit} {default : Binary64} {d : Duration} :
      d.millis.isFinite → Between Binary64.less min max d.millis →
      Admits (.duration min max bare default) (.duration d)

variable {spec : OptionSpec} {raw : String} {v : OptionValue}

/-- What a numeric option reads is the number that the text denotes, and it is admitted. -/
theorem admits_of_read (hn : spec.isNumeric) (h : spec.read raw = .ok v) :
    spec.Denotes raw v ∧ spec.Admits v := by
  have hbounds := inBounds_of_read h
  cases spec with
  | int min max default =>
      obtain ⟨n, hread, rfl⟩ := map_eq_ok_iff.mp h
      have hread := (bind_within_eq_ok_iff.mp hread).1
      unfold readInt at hread
      split at hread
      · next m hm =>
        cases hread
        exact ⟨.int (Integer.ofText?_eq_some_iff.mp hm), .int n.le_toInt n.toInt_lt hbounds⟩
      · cases hread
  | float min max default =>
      obtain ⟨x, hread, rfl⟩ := map_eq_ok_iff.mp h
      obtain ⟨d, hd, rfl, hfin⟩ := readFloat_eq_ok_iff.mp (bind_within_eq_ok_iff.mp hread).1
      exact ⟨.float hd, .float hfin hbounds⟩
  | duration min max bare default =>
      obtain ⟨⟨millis⟩, hread, rfl⟩ := map_eq_ok_iff.mp h
      obtain ⟨d, suffix, unit, hsplit, hunit, rfl, -, hfin⟩ :=
        ofText_eq_ok_iff.mp (bind_within_eq_ok_iff.mp hread).1
      exact ⟨.duration hsplit hunit, .duration hfin hbounds⟩
  | _ => cases hn

/-- The default is a number that the specification admits. -/
def admitsDefault : OptionSpec → Bool
  | int min max n => (intLimit min max n).isNone
  | float min max x | duration min max _ x => x.isFinite && (floatLimit min max x).isNone
  | _ => true

theorem admits_default (hn : spec.isNumeric) (h : spec.admitsDefault) :
    spec.Admits spec.default := by
  cases spec with
  | int min max n =>
      exact .int n.le_toInt n.toInt_lt (passed?_eq_none_iff.mp (Option.isNone_iff_eq_none.mp h))
  | float min max x =>
      obtain ⟨hfin, hnone⟩ := Bool.and_eq_true_iff.mp h
      exact .float hfin (passed?_eq_none_iff.mp (Option.isNone_iff_eq_none.mp hnone))
  | duration min max bare x =>
      obtain ⟨hfin, hnone⟩ := Bool.and_eq_true_iff.mp h
      exact .duration hfin (passed?_eq_none_iff.mp (Option.isNone_iff_eq_none.mp hnone))
  | _ => cases hn

end OptionSpec

/-! ### Numbers of a snapshot -/

section snapshot

variable {registry : Registry} {sources : List Source} {snapshot : Snapshot} {n : OptionName}

theorem exists_denotes_of_origin? (h : (registry.resolve sources).result = .ok snapshot)
    (hn : (registry.spec n).isNumeric) (ho : (snapshot.origin? n).isSome) :
    ∃ s raw, Decides sources n s raw ∧ (registry.spec n).Denotes raw (snapshot.value n) ∧
      (registry.spec n).Admits (snapshot.value n) := by
  have hset := (settles_iff h (n := n)).mpr rfl
  unfold Snapshot.origin? at ho
  unfold Snapshot.value
  generalize snapshot.setting n = setting at hset ho
  cases hset with
  | defaulted hu => cases ho
  | supplied hd hread => exact ⟨_, _, hd, OptionSpec.admits_of_read hn hread⟩
  | rejected hd hread => cases ho

/-- Every built-in default passes its own check. -/
theorem admitsDefault_builtinSpec (n : OptionName) : (builtinSpec n).admitsDefault := by
  have hall : ∀ n ∈ OptionName.all, (builtinSpec n).admitsDefault := by decide +kernel
  exact hall n (OptionName.mem_all n)

theorem admits_value_builtin (h : (Registry.builtin.resolve sources).result = .ok snapshot)
    (hn : (builtinSpec n).isNumeric) : (builtinSpec n).Admits (snapshot.value n) := by
  by_cases ho : (snapshot.origin? n).isSome
  · obtain ⟨s, raw, -, -, hadmits⟩ := exists_denotes_of_origin? h hn ho
    exact hadmits
  · rw [value_of_origin?_eq_none h ho]
    exact OptionSpec.admits_default hn (admitsDefault_builtinSpec n)

end snapshot

/-! ### Built-in bounds -/

/-- A lower bound, if there is one, is zero. -/
def OptionSpec.startsAtZero : OptionSpec → Bool
  | int (some m) _ _ => m == 0
  | float (some m) _ _ | duration (some m) _ _ _ => m == .zero
  | _ => true

/-- The built-in registry bounds numbers from below by zero or not at all. -/
theorem startsAtZero_builtinSpec (n : OptionName) : (builtinSpec n).startsAtZero := by
  have hall : ∀ n ∈ OptionName.all, (builtinSpec n).startsAtZero := by decide +kernel
  exact hall n (OptionName.mem_all n)

section builtin

variable {sources : List Source} {snapshot : Snapshot} {n : OptionName}

theorem int_nonneg_of_bounded (h : (Registry.builtin.resolve sources).result = .ok snapshot)
    {m default : Int64} {max : Option Int64} (hspec : builtinSpec n = .int (some m) max default) :
    ∃ k, snapshot.value n = .int k ∧ 0 ≤ k.toInt := by
  have hzero := startsAtZero_builtinSpec n
  have hadmits := admits_value_builtin h (n := n) (by rw [hspec]; rfl)
  rw [hspec] at hzero hadmits
  obtain rfl : m = 0 := beq_iff_eq.mp hzero
  generalize snapshot.value n = v at hadmits
  cases hadmits with
  | @int _ _ _ k hlow hhigh hbounds =>
      have hle : ¬ k < 0 := of_decide_eq_false (hbounds.1 0 rfl)
      refine ⟨k, rfl, ?_⟩
      simpa [Int64.lt_iff_toInt_lt] using hle

theorem Binary64.inUnits?_nonneg {x : Binary64} (hfin : x.isFinite)
    (h : x.less .zero = false) : ∃ u, x.inUnits? = some u ∧ 0 ≤ u := by
  obtain ⟨u, hu⟩ := exists_inUnits hfin
  have hnot : ¬ u < 0 := by
    rw [← less_iff hu inUnits?_zero, h]
    exact Bool.false_ne_true
  exact ⟨u, hu, Int.not_lt.mp hnot⟩

theorem duration_nonneg_of_bounded
    (h : (Registry.builtin.resolve sources).result = .ok snapshot) {m default : Binary64}
    {max : Option Binary64} {bare : TimeUnit}
    (hspec : builtinSpec n = .duration (some m) max bare default) :
    ∃ d u, snapshot.value n = .duration d ∧ d.millis.inUnits? = some u ∧ 0 ≤ u := by
  have hzero := startsAtZero_builtinSpec n
  have hadmits := admits_value_builtin h (n := n) (by rw [hspec]; rfl)
  rw [hspec] at hzero hadmits
  obtain rfl : m = .zero := beq_iff_eq.mp hzero
  generalize snapshot.value n = v at hadmits
  cases hadmits with
  | @duration _ _ _ _ d hfin hbounds =>
      obtain ⟨u, hu, hle⟩ := Binary64.inUnits?_nonneg hfin (hbounds.1 _ rfl)
      exact ⟨d, u, rfl, hu, hle⟩

theorem sampleRate_mem_unit_interval
    (h : (Registry.builtin.resolve sources).result = .ok snapshot) :
    ∃ x u, snapshot.value .transactionSampleRate = .float x ∧ x.inUnits? = some u ∧ 0 ≤ u ∧
      u ≤ Binary64.unitsPerOne := by
  have hadmits := admits_value_builtin h (n := .transactionSampleRate) rfl
  generalize snapshot.value .transactionSampleRate = v at hadmits
  cases hadmits with
  | @float _ _ _ x hfin hbounds =>
      obtain ⟨u, hu, hle⟩ := Binary64.inUnits?_nonneg hfin (hbounds.1 _ rfl)
      have hnot : ¬ Binary64.unitsPerOne < u := by
        rw [← Binary64.less_iff Binary64.inUnits?_one hu, hbounds.2 _ rfl]
        exact Bool.false_ne_true
      exact ⟨x, u, rfl, hu, hle, Int.not_lt.mp hnot⟩

end builtin

/-! ### Numbers in documents -/

namespace Decimal

/-- A character of a numeral. -/
def IsNumeral (c : Char) : Prop := c.isDigit = true ∨ c = '-' ∨ c = '+' ∨ c = '.' ∨ c = 'e'

theorem isNumeral_of_mem_toDigits {n : Nat} {c : Char} (h : c ∈ Nat.toDigits 10 n) :
    IsNumeral c :=
  .inl (Integer.isDigit_of_mem_toDigits c h)

theorem isNumeral_of_mem_positionalDigits {wholeFraction : Bool} {n : Nat} {e : Int} {c : Char}
    (h : c ∈ positionalDigits wholeFraction (Nat.toDigits 10 n) e) : IsNumeral c := by
  rcases mem_positionalDigits h with h | rfl | rfl
  · exact isNumeral_of_mem_toDigits h
  · exact .inl rfl
  · exact .inr (.inr (.inr (.inl rfl)))

theorem isNumeral_of_mem_scientificDigits {n : Nat} {e : Int} {c : Char}
    (h : c ∈ scientificDigits (Nat.toDigits 10 n) e) : IsNumeral c := by
  unfold scientificDigits at h
  simp only at h
  rcases List.mem_append.mp h with h | h
  · rcases List.mem_append.mp h with h | h
    · exact isNumeral_of_mem_toDigits (List.mem_of_mem_take h)
    · split at h
      · cases h
      · rcases List.mem_cons.mp h with rfl | h
        · exact .inr (.inr (.inr (.inl rfl)))
        · exact isNumeral_of_mem_toDigits (List.mem_of_mem_drop h)
  · rcases List.mem_cons.mp h with rfl | h
    · exact .inr (.inr (.inr (.inr rfl)))
    · rcases List.mem_cons.mp h with rfl | h
      · split
        · exact .inr (.inl rfl)
        · exact .inr (.inr (.inl rfl))
      · exact isNumeral_of_mem_toDigits h

theorem isNumeral_of_mem_text {layout : Layout} {x : Binary64} (h : x.isFinite) {c : Char}
    (hc : c ∈ (layout.text x).toList) : IsNumeral c := by
  cases x with
  | nan => cases h
  | number negative rank =>
      have hrank : rank.val ≠ Binary64.infinityRank := Nat.ne_of_lt (of_decide_eq_true h)
      rw [Layout.text, if_neg hrank, String.toList_ofList] at hc
      rcases List.mem_append.mp hc with hc | hc
      · split at hc
        · exact .inr (.inl (List.mem_singleton.mp hc))
        · cases hc
      · unfold Layout.magnitude at hc
        generalize (if rank.val = 0 then (0, 0) else shortest layout.tie rank.val) = found at hc
        simp only at hc
        split at hc
        · exact isNumeral_of_mem_positionalDigits hc
        · exact isNumeral_of_mem_scientificDigits hc

end Decimal

theorem Integer.isNumeral_of_mem_digits {n : Int} {c : Char} (h : c ∈ digits n) :
    Decimal.IsNumeral c := by
  rcases List.mem_append.mp h with h | h
  · split at h
    · exact .inr (.inl (List.mem_singleton.mp h))
    · cases h
  · exact Decimal.isNumeral_of_mem_toDigits h

namespace Json

theorem isNumeral_of_mem_numberText {x : Binary64} (h : x.isFinite) {c : Char}
    (hc : c ∈ numberText x) : Decimal.IsNumeral c := by
  rw [numberText, if_pos h] at hc
  exact Decimal.isNumeral_of_mem_text h hc

theorem ne_null_of_isNumeral {s : List Char} (h : ∀ c ∈ s, Decimal.IsNumeral c) :
    s ≠ "null".toList := by
  rintro rfl
  have hn : ¬ Decimal.IsNumeral 'n' := by
    unfold Decimal.IsNumeral
    decide
  exact hn (h 'n' (by decide))

variable {spec : OptionSpec} {v : OptionValue}

theorem isNumeral_of_admits (h : spec.Admits v) {c : Char} (hc : c ∈ v.json.compactChars) :
    Decimal.IsNumeral c := by
  cases h with
  | int hlow hhigh hbounds =>
      simp only [OptionValue.json, compactChars] at hc
      exact Integer.isNumeral_of_mem_digits hc
  | float hfin hbounds =>
      simp only [OptionValue.json, compactChars] at hc
      exact isNumeral_of_mem_numberText hfin hc
  | duration hfin hbounds =>
      simp only [OptionValue.json, compactChars] at hc
      exact isNumeral_of_mem_numberText hfin hc

/-- Numbers have no parts that could stand on lines of their own. -/
theorem prettyChars_of_admits (h : spec.Admits v) (depth : Nat) :
    v.json.prettyChars depth = v.json.compactChars := by
  cases h with
  | int hlow hhigh hbounds => simp only [OptionValue.json, compactChars, prettyChars]
  | float hfin hbounds => simp only [OptionValue.json, compactChars, prettyChars]
  | duration hfin hbounds => simp only [OptionValue.json, compactChars, prettyChars]

theorem ne_null_of_admits (h : spec.Admits v) :
    v.json.compactChars ≠ "null".toList ∧
      ∀ depth, v.json.prettyChars depth ≠ "null".toList := by
  have hcompact : v.json.compactChars ≠ "null".toList :=
    ne_null_of_isNumeral fun c hc => isNumeral_of_admits h hc
  refine ⟨hcompact, fun depth => ?_⟩
  rw [prettyChars_of_admits h depth]
  exact hcompact

end Json

theorem Snapshot.mem_members_iff {s : Snapshot} {members : List (String × Json)}
    (h : s.json = .object members) {n : OptionName} {j : Json} :
    (n.text, j) ∈ members ↔ j = (s.value n).json := by
  cases h
  simp only [values, List.map_map, List.mem_map, Function.comp_apply, Prod.mk.injEq]
  constructor
  · rintro ⟨m, -, htext, rfl⟩
    rw [OptionName.text_inj htext]
  · rintro rfl
    exact ⟨n, OptionName.mem_all n, rfl, rfl⟩

/-! ### The result -/

/-- **Numbers stay in bounds.**  A number that a source supplies is the one that its text denotes,
finite and within the bounds that are registered for the option; those of durations are in
milliseconds, and so is the number, whatever unit the text has.  With the built-in registry this
holds of every number, also of the defaults: sample rates lie between zero and one, integers and
durations with a lower bound are not negative, and no number is written as null in a document. -/
theorem numbers_stay_in_bounds :
    (∀ (entries : List Registry.Entry) (registry : Registry) (sources : List Source)
        (snapshot : Snapshot) (n : OptionName) (spec : OptionSpec),
      Registry.ofEntries entries = .ok registry →
      (registry.resolve sources).result = .ok snapshot →
      (n, spec) ∈ entries → spec.isNumeric → (snapshot.origin? n).isSome →
      ∃ s raw, Decides sources n s raw ∧ spec.Denotes raw (snapshot.value n) ∧
        spec.Admits (snapshot.value n)) ∧
    ∀ (sources : List Source) (snapshot : Snapshot),
      (Registry.builtin.resolve sources).result = .ok snapshot →
      (∀ n, (builtinSpec n).isNumeric → (builtinSpec n).Admits (snapshot.value n)) ∧
      (∃ x u, snapshot.value .transactionSampleRate = .float x ∧ x.inUnits? = some u ∧ 0 ≤ u ∧
        u ≤ Binary64.unitsPerOne) ∧
      (∀ n m max default, builtinSpec n = .int (some m) max default →
        ∃ k, snapshot.value n = .int k ∧ 0 ≤ k.toInt) ∧
      (∀ n m max bare default, builtinSpec n = .duration (some m) max bare default →
        ∃ d u, snapshot.value n = .duration d ∧ d.millis.inUnits? = some u ∧ 0 ≤ u) ∧
      ∀ members, snapshot.json = .object members → ∀ n, (builtinSpec n).isNumeric →
        ∀ j, (n.text, j) ∈ members →
          j.compactChars ≠ "null".toList ∧ ∀ depth, j.prettyChars depth ≠ "null".toList := by
  refine ⟨fun entries registry sources snapshot n spec hr hs hmem hn ho => ?_,
    fun sources snapshot hs => ⟨fun n => admits_value_builtin hs, sampleRate_mem_unit_interval hs,
      fun n m max default => int_nonneg_of_bounded hs,
      fun n m max bare default => duration_nonneg_of_bounded hs, ?_⟩⟩
  · obtain rfl := (Registry.mem_entries_iff hr).mp hmem
    exact exists_denotes_of_origin? hs hn ho
  · intro members hmembers n hn j hj
    rw [(Snapshot.mem_members_iff hmembers).mp hj]
    exact Json.ne_null_of_admits (admits_value_builtin hs hn)

/-- The built-in entries, with a timeout of at most two minutes. -/
def boundedTimeout : OptionSpec :=
  .duration (some .zero) (some (Binary64.ofNat 120000)) .seconds (Binary64.ofNat 30000)

def boundedTimeoutEntries : List Registry.Entry :=
  OptionName.all.map fun n => (n, if n = .serverTimeout then boundedTimeout else builtinSpec n)

/-- Two minutes are just within the bound, and a rate beyond all doubles leaves the default. -/
theorem numbers_stay_in_bounds_two_minutes :
    (∃ registry snapshot, Registry.ofEntries boundedTimeoutEntries = .ok registry ∧
      (registry.resolve [.overrides ⟨"first", [(.serverTimeout, "2 M")]⟩]).result =
        .ok snapshot ∧
      (.serverTimeout, boundedTimeout) ∈ boundedTimeoutEntries ∧ boundedTimeout.isNumeric ∧
      (snapshot.origin? .serverTimeout).isSome ∧
      ∃ s raw, Decides [.overrides ⟨"first", [(.serverTimeout, "2 M")]⟩] .serverTimeout s raw ∧
        boundedTimeout.Denotes raw (snapshot.value .serverTimeout) ∧
        boundedTimeout.Admits (snapshot.value .serverTimeout)) ∧
    ∃ snapshot, (Registry.builtin.resolve
        [.overrides ⟨"first", [(.transactionSampleRate, "1e400")]⟩]).result = .ok snapshot ∧
      (snapshot.rejection? .transactionSampleRate).isSome ∧
      ∃ x u, snapshot.value .transactionSampleRate = .float x ∧ x.inUnits? = some u ∧ 0 ≤ u ∧
        u ≤ Binary64.unitsPerOne := by
  have hmem : (OptionName.serverTimeout, boundedTimeout) ∈ boundedTimeoutEntries :=
    List.mem_map.mpr ⟨.serverTimeout, OptionName.mem_all _, rfl⟩
  constructor
  · refine ⟨_, _, rfl, resolve_overrides _ _, hmem, rfl, by decide +kernel, ?_⟩
    exact numbers_stay_in_bounds.1 boundedTimeoutEntries _ _ _ _ _ rfl (resolve_overrides _ _)
      hmem rfl (by decide +kernel)
  · refine ⟨_, resolve_overrides _ _, by decide +kernel, ?_⟩
    exact (numbers_stay_in_bounds.2 _ _ (resolve_overrides _ _)).2.1

end AgentOptions
