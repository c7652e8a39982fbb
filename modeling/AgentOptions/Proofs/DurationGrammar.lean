import AgentOptions.Proofs.NumeralGrammar
import AgentOptions.Proofs.RawText
import AgentOptions.Proofs.Rounding

/-! # The grammar of durations

A duration is written as a numeral, blanks and a suffix of letters, and a text can be cut so in one
way only (`Duration.Cuts.unique`).  What the reader makes of a text follows from the parts and from
the amount that the numeral stands for (`Duration.Reads`).  A suffix makes the unit of bare numbers
irrelevant, and a character that is neither a blank nor of the first 128 makes a text no duration.

Main statement: `Duration.ofText_reads_by_grammar`. -/

namespace AgentOptions

/-! ### Units -/

namespace TimeUnit

/-- The suffixes that stand for the unit. -/
def spellings : TimeUnit → List String
  | milliseconds => ["ms", "mS", "Ms", "MS"]
  | seconds => ["s", "S"]
  | minutes => ["m", "M"]

/-- How many milliseconds the unit has. -/
def inMillis : TimeUnit → Nat
  | milliseconds => 1
  | seconds => 1000
  | minutes => 60000

theorem toMillis_eq_scale (unit : TimeUnit) {x : Binary64} (h : x.isFinite) :
    unit.toMillis x = x.scale unit.inMillis := by
  cases unit with
  | milliseconds => exact (Binary64.scale_one h).symm
  | seconds => rfl
  | minutes => rfl

/-- Only two characters have a small letter as their small letter. -/
theorem eq_or_eq_of_toLower {c small capital : Char} (h : c.toLower = small)
    (hcapital : capital.toNat + 32 = small.toNat) : c = small ∨ c = capital := by
  unfold Char.toLower at h
  split at h
  · next hc =>
    have hsmall : (c.val + 32).toNat = small.toNat := congrArg Char.toNat h
    have hhigh : c.val.toNat ≤ 90 := hc.2
    rw [UInt32.toNat_add, show (32 : UInt32).toNat = 32 from rfl,
      Nat.mod_eq_of_lt (by omega)] at hsmall
    have heq : c.toNat = capital.toNat := by
      change c.val.toNat = _
      omega
    exact .inr (Char.toNat_inj.mp heq)
  · exact .inl h

theorem smallLetters_eq_iff {s t : String} :
    Text.smallLetters s = t ↔ s.toList.map Char.toLower = t.toList := by
  rw [← String.toList_inj, Text.smallLetters, String.toList_ofList]

theorem sameKeyword_suffix_iff {unit : TimeUnit} {s : String} :
    Text.sameKeyword unit.suffix s = true ↔ s ∈ unit.spellings := by
  have hsuffix : Text.smallLetters unit.suffix = unit.suffix := by
    cases unit <;> decide
  rw [Text.sameKeyword, hsuffix, beq_iff_eq, eq_comm, smallLetters_eq_iff]
  constructor
  · intro h
    have hs : s = String.ofList s.toList := String.ofList_toList.symm
    have hm : ∀ c : Char, c.toLower = 'm' → c = 'm' ∨ c = 'M' :=
      fun c hc => eq_or_eq_of_toLower hc rfl
    have hS : ∀ c : Char, c.toLower = 's' → c = 's' ∨ c = 'S' :=
      fun c hc => eq_or_eq_of_toLower hc rfl
    cases unit with
    | milliseconds =>
        change _ = ['m', 's'] at h
        simp only [List.map_eq_cons_iff, List.map_eq_nil_iff] at h
        obtain ⟨c, _, hlist, hc, d, _, rfl, hd, rfl⟩ := h
        rw [hs, hlist]
        rcases hm c hc with rfl | rfl
        · rcases hS d hd with rfl | rfl
          · decide
          · decide
        · rcases hS d hd with rfl | rfl
          · decide
          · decide
    | seconds =>
        obtain ⟨c, hlist, hc⟩ := List.map_eq_singleton_iff.mp h
        rw [hs, hlist]
        rcases hS c hc with rfl | rfl
        · decide
        · decide
    | minutes =>
        obtain ⟨c, hlist, hc⟩ := List.map_eq_singleton_iff.mp h
        rw [hs, hlist]
        rcases hm c hc with rfl | rfl
        · decide
        · decide
  · have hall : ∀ s ∈ unit.spellings, s.toList.map Char.toLower = unit.suffix.toList := by
      cases unit <;> decide
    exact hall s

theorem ofSuffix?_eq_some_iff {unit : TimeUnit} {s : String} :
    ofSuffix? s = some unit ↔ s ∈ unit.spellings := by
  constructor
  · intro h
    have hkey : Text.sameKeyword unit.suffix s = true := by simpa using List.find?_some h
    exact sameKeyword_suffix_iff.mp hkey
  · have hall : ∀ s ∈ unit.spellings, ofSuffix? s = some unit := by
      cases unit <;> decide
    exact hall s

theorem ne_empty_of_mem_spellings {unit : TimeUnit} {s : String} (h : s ∈ unit.spellings) :
    s ≠ "" := by
  have hempty : "" ∉ unit.spellings := by
    cases unit <;> decide
  rintro rfl
  exact hempty h

end TimeUnit

namespace Duration

/-- What is counted in a text with the suffix: the unit that it stands for, or `bare` if it is
empty. -/
inductive Counts (bare : TimeUnit) : String → TimeUnit → Prop
  | bare : Counts bare "" bare
  | suffix {s : String} {unit : TimeUnit} : s ∈ unit.spellings → Counts bare s unit

/-- Three parts of a text. -/
structure Parts where
  numeral : String
  blanks : String
  suffix : String

/-- A text that consists of a numeral, which writes the decimal, blanks and letters. -/
structure Cuts (raw : String) (p : Parts) (d : Decimal) : Prop where
  eq_append : raw = p.numeral ++ p.blanks ++ p.suffix
  numeral : Decimal.Numeral p.numeral.toList d
  blank : ∀ c ∈ p.blanks.toList, Text.isBlank c
  letter : ∀ c ∈ p.suffix.toList, c.isAlpha

/-- What a text is read as, where bare numbers count `bare`. -/
inductive Reads (bare : TimeUnit) (raw : String) : Except ReadError Duration → Prop
  | noParts : (∀ p d, ¬ Cuts raw p d) → Reads bare raw (.error (.notDuration raw))
  | infiniteNumeral {p : Parts} {d : Decimal} : Cuts raw p d → d.nearest.isFinite = false →
      Reads bare raw (.error (.notDuration raw))
  | unknownUnit {p : Parts} {d : Decimal} : Cuts raw p d → d.nearest.isFinite →
      p.suffix ≠ "" → (∀ unit : TimeUnit, p.suffix ∉ unit.spellings) →
      Reads bare raw (.error (.unknownUnit raw p.suffix))
  | infiniteAmount {p : Parts} {d : Decimal} {unit : TimeUnit} : Cuts raw p d →
      d.nearest.isFinite → Counts bare p.suffix unit →
      (d.nearest.scale unit.inMillis).isFinite = false →
      Reads bare raw (.error (.notDuration raw))
  | amount {p : Parts} {d : Decimal} {unit : TimeUnit} : Cuts raw p d →
      d.nearest.isFinite → Counts bare p.suffix unit →
      (d.nearest.scale unit.inMillis).isFinite →
      Reads bare raw (.ok ⟨d.nearest.scale unit.inMillis⟩)

variable {raw suffix : String} {p q : Parts} {d : Decimal} {bare unit : TimeUnit}

/-! ### Cutting a text -/

theorem toNat_of_isAlpha {c : Char} (h : c.isAlpha = true) :
    (65 ≤ c.toNat ∧ c.toNat ≤ 90) ∨ (97 ≤ c.toNat ∧ c.toNat ≤ 122) := by
  rcases Bool.or_eq_true_iff.mp h with hupper | hlower
  · have hupper : c.val ≥ 'A'.val ∧ c.val ≤ 'Z'.val := of_decide_eq_true hupper
    exact .inl hupper
  · have hlower := Bool.and_eq_true_iff.mp hlower
    exact .inr ⟨of_decide_eq_true hlower.1, of_decide_eq_true hlower.2⟩

theorem isBlank_of_isAlpha {c : Char} (h : c.isAlpha = true) : Text.isBlank c = false := by
  have hc := toNat_of_isAlpha h
  simp only [Text.isBlank, Bool.or_eq_false_iff, Bool.and_eq_false_iff, decide_eq_false_iff_not,
    beq_eq_false_iff_ne]
  omega

/-- A numeral takes nothing of the blanks and the letters after it. -/
theorem Cuts.unnumbered (h : Cuts raw p d) :
    Decimal.Unnumbered (p.blanks.toList ++ p.suffix.toList) := by
  intro c hc
  rcases List.mem_append.mp hc with hc | hc
  · have hblank := h.blank c hc
    refine ⟨?_, ?_, ?_, ?_⟩
    · rw [← Bool.not_eq_true]
      intro hdigit
      rw [Decimal.isBlank_of_isDigit hdigit] at hblank
      cases hblank
    all_goals
      rintro rfl
      exact absurd hblank (by decide)
  · have hc := toNat_of_isAlpha (h.letter c hc)
    refine ⟨?_, ?_, ?_, ?_⟩
    · rw [← Bool.not_eq_true, Char.isDigit_iff_toNat]
      change ¬ (48 ≤ c.toNat ∧ c.toNat ≤ 57)
      omega
    all_goals
      rintro rfl
      exact absurd hc (by decide)

theorem Cuts.toList_eq (h : Cuts raw p d) :
    raw.toList = p.numeral.toList ++ (p.blanks.toList ++ p.suffix.toList) := by
  rw [h.eq_append, String.toList_append, String.toList_append, List.append_assoc]

theorem Cuts.scan_eq (h : Cuts raw p d) :
    Decimal.scan raw.toList = some (d, p.blanks.toList ++ p.suffix.toList) := by
  rw [h.toList_eq]
  exact h.numeral.scan_append h.unnumbered

theorem Cuts.trimLeft_eq (h : Cuts raw p d) :
    Text.trimLeft (p.blanks.toList ++ p.suffix.toList) = p.suffix.toList := by
  rw [Text.trimLeft, List.dropWhile_append_of_pos h.blank]
  apply Text.trimLeft_eq_self
  intro c hc
  exact isBlank_of_isAlpha (h.letter c (List.mem_of_mem_head? hc))

/-- **A text can be cut in one way only.** -/
theorem Cuts.unique {d' : Decimal} (hp : Cuts raw p d) (hq : Cuts raw q d') : p = q ∧ d = d' := by
  have hscan := hp.scan_eq.symm.trans hq.scan_eq
  obtain ⟨hd, hrest⟩ := Prod.mk.inj (Option.some.inj hscan)
  have hsuffix : p.suffix.toList = q.suffix.toList := by
    rw [← hp.trimLeft_eq, hrest, hq.trimLeft_eq]
  have hblanks : p.blanks.toList = q.blanks.toList := by
    rw [hsuffix] at hrest
    exact List.append_cancel_right hrest
  have hnumeral : p.numeral.toList = q.numeral.toList := by
    have htext := hp.toList_eq.symm.trans hq.toList_eq
    rw [hrest] at htext
    exact List.append_cancel_right htext
  cases p
  cases q
  simp only [String.toList_inj] at hnumeral hblanks hsuffix
  exact ⟨by rw [hnumeral, hblanks, hsuffix], hd⟩

theorem Cuts.split?_eq (h : Cuts raw p d) : split? raw.toList = some (d, p.suffix) := by
  have hall : p.suffix.toList.all isSuffixLetter = true := List.all_eq_true.mpr h.letter
  rw [split?, h.scan_eq]
  simp only [h.trimLeft_eq, hall, if_true, String.ofList_toList]

theorem exists_cuts_of_split? (h : split? raw.toList = some (d, suffix)) :
    ∃ p, Cuts raw p d ∧ p.suffix = suffix := by
  unfold split? at h
  split at h
  · next d' rest hscan =>
    simp only [Option.ite_none_right_eq_some, Option.some.injEq, Prod.mk.injEq,
      List.all_eq_true] at h
    obtain ⟨hletter, rfl, hsuffix⟩ := h
    obtain ⟨numeral, hnumeral, hraw⟩ := Decimal.exists_numeral_of_scan hscan
    have hrest : rest.takeWhile Text.isBlank ++ Text.trimLeft rest = rest :=
      List.takeWhile_append_dropWhile
    refine ⟨⟨String.ofList numeral, String.ofList (rest.takeWhile Text.isBlank),
      String.ofList (Text.trimLeft rest)⟩, ⟨?_, ?_, ?_, ?_⟩, hsuffix⟩
    · rw [← String.toList_inj]
      simp only [String.toList_append, String.toList_ofList, List.append_assoc, hrest, hraw]
    · rwa [String.toList_ofList]
    · rw [String.toList_ofList]
      exact List.all_eq_true.mp List.all_takeWhile
    · rw [String.toList_ofList]
      exact hletter
  · cases h

/-! ### Reading the parts -/

theorem unitOf?_eq_some_iff : unitOf? bare suffix = some unit ↔ Counts bare suffix unit := by
  unfold unitOf?
  constructor
  · intro h
    split at h
    · next hempty =>
      obtain rfl := Option.some.inj h
      rw [hempty]
      exact .bare
    · exact .suffix (TimeUnit.ofSuffix?_eq_some_iff.mp h)
  · intro h
    cases h with
    | bare => exact if_pos rfl
    | suffix hs =>
        rw [if_neg (TimeUnit.ne_empty_of_mem_spellings hs)]
        exact TimeUnit.ofSuffix?_eq_some_iff.mpr hs

theorem unitOf?_eq_none_iff :
    unitOf? bare suffix = none ↔ suffix ≠ "" ∧ ∀ unit : TimeUnit, suffix ∉ unit.spellings := by
  rw [← not_iff_not, Option.eq_none_iff_forall_ne_some]
  simp only [ne_eq, unitOf?_eq_some_iff]
  constructor
  · intro h hs
    obtain ⟨unit, hunit⟩ := not_forall_not.mp h
    cases hunit with
    | bare => exact hs.1 rfl
    | suffix hspelled => exact hs.2 _ hspelled
  · intro h hnone
    refine h ⟨?_, fun unit hspelled => hnone unit (.suffix hspelled)⟩
    rintro rfl
    exact hnone bare .bare

theorem split?_eq_none (h : ∀ p d, ¬ Cuts raw p d) : split? raw.toList = none := by
  cases hsplit : split? raw.toList with
  | none => rfl
  | some parts =>
      obtain ⟨d, suffix⟩ := parts
      obtain ⟨p, hcuts, -⟩ := exists_cuts_of_split? hsplit
      exact absurd hcuts (h p d)

theorem Reads.ofText_eq {result : Except ReadError Duration} (h : Reads bare raw result) :
    ofText bare raw = result := by
  unfold ofText
  cases h with
  | noParts hnone => simp only [split?_eq_none hnone]
  | infiniteNumeral hcuts hinfinite =>
      simp only [hcuts.split?_eq, hinfinite, Bool.false_eq_true, if_false]
  | unknownUnit hcuts hfinite hne hunknown =>
      have hunit := @unitOf?_eq_none_iff _ bare |>.mpr ⟨hne, hunknown⟩
      simp only [hcuts.split?_eq, hfinite, hunit, if_true]
  | infiniteAmount hcuts hfinite hcounts hinfinite =>
      simp only [hcuts.split?_eq, hfinite, unitOf?_eq_some_iff.mpr hcounts,
        TimeUnit.toMillis_eq_scale _ hfinite, hinfinite, Bool.false_eq_true, if_true, if_false]
  | amount hcuts hfinite hcounts hamount =>
      simp only [hcuts.split?_eq, hfinite, unitOf?_eq_some_iff.mpr hcounts,
        TimeUnit.toMillis_eq_scale _ hfinite, hamount, if_true]

theorem exists_reads (bare : TimeUnit) (raw : String) : ∃ result, Reads bare raw result := by
  by_cases hcuts : ∃ p d, Cuts raw p d
  · obtain ⟨p, d, hcuts⟩ := hcuts
    cases hfinite : d.nearest.isFinite with
    | false => exact ⟨_, .infiniteNumeral hcuts hfinite⟩
    | true =>
      cases hunit : unitOf? bare p.suffix with
      | none =>
          obtain ⟨hne, hunknown⟩ := unitOf?_eq_none_iff.mp hunit
          exact ⟨_, .unknownUnit hcuts hfinite hne hunknown⟩
      | some unit =>
          have hcounts := unitOf?_eq_some_iff.mp hunit
          cases hamount : (d.nearest.scale unit.inMillis).isFinite with
          | false => exact ⟨_, .infiniteAmount hcuts hfinite hcounts hamount⟩
          | true => exact ⟨_, .amount hcuts hfinite hcounts hamount⟩
  · exact ⟨_, .noParts fun p d h => hcuts ⟨p, d, h⟩⟩

theorem ofText_eq_iff {result : Except ReadError Duration} :
    ofText bare raw = result ↔ Reads bare raw result := by
  constructor
  · rintro rfl
    obtain ⟨result, h⟩ := exists_reads bare raw
    rwa [h.ofText_eq]
  · exact Reads.ofText_eq

theorem Cuts.ofText_eq_ofText (h : Cuts raw p d) (hne : p.suffix ≠ "") (bare bare' : TimeUnit) :
    ofText bare raw = ofText bare' raw := by
  have hunit : unitOf? bare p.suffix = unitOf? bare' p.suffix := by
    rw [unitOf?, unitOf?, if_neg hne, if_neg hne]
  simp only [ofText, h.split?_eq, hunit]

theorem Cuts.toNat_lt (h : Cuts raw p d) {c : Char} (hc : c ∈ raw.toList)
    (hblank : Text.isBlank c = false) : c.toNat < 128 := by
  rw [h.toList_eq] at hc
  rcases List.mem_append.mp hc with hc | hc
  · exact h.numeral.toNat_lt c hc
  · rcases List.mem_append.mp hc with hc | hc
    · rw [h.blank c hc] at hblank
      cases hblank
    · have hletter := toNat_of_isAlpha (h.letter c hc)
      omega

/-- A foreign digit, like any other foreign character but a blank, makes a text no duration. -/
theorem ofText_eq_notDuration {c : Char} (hc : c ∈ raw.toList) (hforeign : 127 < c.toNat)
    (hblank : Text.isBlank c = false) : ofText bare raw = .error (.notDuration raw) := by
  apply ofText_eq_iff.mpr
  apply Reads.noParts
  intro p d hcuts
  have hlt := hcuts.toNat_lt hc hblank
  omega

/-- **The reader goes by the grammar of durations.**

* A text can be cut into a numeral, blanks and letters in one way at most, and the numeral writes
  one decimal.
* What is read, an amount or an error, is what the parts and the finiteness of the amounts say.
* With a suffix it does not depend on the unit of bare numbers.
* A text with a foreign character that is not a blank, such as a digit of another script, is
  refused as no duration. -/
theorem ofText_reads_by_grammar (bare : TimeUnit) (raw : String) :
    (∀ p q d d', Cuts raw p d → Cuts raw q d' → p = q ∧ d = d') ∧
      (∀ result, ofText bare raw = result ↔ Reads bare raw result) ∧
      (∀ p d, Cuts raw p d → p.suffix ≠ "" → ∀ bare', ofText bare raw = ofText bare' raw) ∧
      ∀ c ∈ raw.toList, 127 < c.toNat → Text.isBlank c = false →
        ofText bare raw = .error (.notDuration raw) := by
  refine ⟨?_, ?_, ?_, ?_⟩
  · intro p q d d' hp hq
    exact hp.unique hq
  · intro result
    exact ofText_eq_iff
  · intro p d hcuts hne bare'
    exact hcuts.ofText_eq_ofText hne bare bare'
  · intro c hc hforeign hblank
    exact ofText_eq_notDuration hc hforeign hblank

/-- The letter of an exponent and that of a unit in one text, and a digit of another script. -/
theorem ofText_reads_by_grammar_exponent :
    Cuts "1e5 M" ⟨"1e5", " ", "M"⟩ ⟨false, 1, 5⟩ ∧
      (∀ q d, Cuts "1e5 M" q d → q = ⟨"1e5", " ", "M"⟩ ∧ d = ⟨false, 1, 5⟩) ∧
      ofText .seconds "1e5 M" = .ok ⟨Binary64.ofNat 6000000000⟩ ∧
      ofText .seconds "1e5 M" = ofText .milliseconds "1e5 M" ∧
      ofText .seconds "٣ ms" = .error (.notDuration "٣ ms") := by
  have hone : Decimal.Digits ['1'] 1 := @Decimal.Digits.one 1 (by decide)
  have hfive : Decimal.Digits ['5'] 5 := @Decimal.Digits.one 5 (by decide)
  have hmantissa : Decimal.Mantissa ['1'] ['1'] [] :=
    .whole (by decide) (List.all_eq_true.mp (by decide))
  have hexponent : Decimal.Exponent ['e', '5'] 5 := .some (.inl rfl) (.mk .none hfive)
  have hnumeral : Decimal.Numeral ['1', 'e', '5'] ⟨false, 1, 5⟩ :=
    .mk .none hmantissa hone hexponent
  have hcuts : Cuts "1e5 M" ⟨"1e5", " ", "M"⟩ ⟨false, 1, 5⟩ :=
    ⟨by decide, hnumeral, List.all_eq_true.mp (by decide), List.all_eq_true.mp (by decide)⟩
  have hminutes : Counts .seconds "M" .minutes := .suffix (by decide)
  obtain ⟨hunique, hreads, hsuffix, -⟩ := ofText_reads_by_grammar .seconds "1e5 M"
  have hamount := (hreads _).mpr
    (.amount hcuts (by decide +kernel) hminutes (by decide +kernel))
  have hmillis : (Decimal.nearest ⟨false, 1, 5⟩).scale TimeUnit.minutes.inMillis =
      Binary64.ofNat 6000000000 := by
    decide +kernel
  obtain ⟨-, -, -, hforeign⟩ := ofText_reads_by_grammar .seconds "٣ ms"
  refine ⟨hcuts, ?_, ?_, ?_, ?_⟩
  · intro q d hq
    exact hunique _ _ _ _ hq hcuts
  · rw [hamount, hmillis]
  · exact hsuffix _ _ hcuts (by decide) .milliseconds
  · exact hforeign '٣' (by decide) (by decide) (by decide)

end Duration

end AgentOptions
