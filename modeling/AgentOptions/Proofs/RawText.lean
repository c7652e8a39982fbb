import AgentOptions.OptionSpec
import AgentOptions.Proofs.ListText
import AgentOptions.Proofs.NumberText

/-! # Raw texts of values

A value that an option read from some text is read by it from the text of the value
(`OptionSpec.read_text`), within the bounds that the value has passed (`OptionSpec.InBounds`) and
without a warning (`OptionSpec.raw?_reads_back`).  Blanks at the ends of that text make no
difference (`OptionSpec.read_trim_text`), but nothing may be left of it: the only value whose text
is blank are the labels without a pair (`OptionSpec.trim_text_eq_empty_iff`). -/

namespace AgentOptions

theorem Text.trim_eq_self {s : String} (h : ∀ c ∈ s.toList, isBlank c = false) : trim s = s := by
  have ht : Trimmed s.toList := by
    constructor
    · intro c hc
      exact h c (List.mem_of_mem_head? hc)
    · intro c hc
      exact h c (List.mem_of_mem_getLast? hc)
  rw [trim, trimChars_eq_self_iff.mpr ht, String.ofList_toList]

theorem LogLevel.ofText?_text (l : LogLevel) : ofText? l.text = some l := by
  cases l <;> decide

theorem LogLevel.trim_text (l : LogLevel) : Text.trim l.text = l.text := by
  cases l <;> decide

namespace OptionSpec

/-! ### Readers of one kind -/

section within

variable {α : Type} {limit : α → Option Limit} {raw : String}

theorem within_eq_ok_iff {x y : α} : within limit raw x = .ok y ↔ x = y ∧ limit y = none := by
  unfold within
  constructor
  · intro h
    split at h
    · cases h
    · next hl =>
      cases h
      exact ⟨rfl, hl⟩
  · rintro ⟨rfl, hl⟩
    rw [hl]

theorem bind_within_eq_ok_iff {r : Except ReadError α} {y : α} :
    r >>= within limit raw = .ok y ↔ r = .ok y ∧ limit y = none := by
  cases r with
  | error e => simp [bind, Except.bind]
  | ok x =>
      have h := @within_eq_ok_iff α limit raw x y
      simpa [bind, Except.bind] using h

end within

/-- Neither below the lower bound nor above the upper one. -/
def Between {α : Type} (less : α → α → Bool) (min max : Option α) (x : α) : Prop :=
  (∀ m, min = some m → less x m = false) ∧ ∀ m, max = some m → less m x = false

theorem passed?_eq_none_iff {α : Type} {less : α → α → Bool} {text : α → String}
    {min max : Option α} {x : α} : passed? less text min max x = none ↔ Between less min max x := by
  cases min with
  | none => cases max with
    | none => simp [passed?, Between]
    | some n => simp [passed?, Between, Option.filter]
  | some m =>
      cases hm : less x m with
      | true => simp [passed?, Between, Option.filter, hm]
      | false => cases max with
        | none => simp [passed?, Between, Option.filter, hm]
        | some n => simp [passed?, Between, Option.filter, hm]

/-- The value is within the bounds of its specification; only numbers have bounds. -/
def InBounds : OptionSpec → OptionValue → Prop
  | int min max _, .int n => Between (fun m n => decide (m < n)) min max n
  | float min max _, .float x => Between Binary64.less min max x
  | duration min max _ _, .duration d => Between Binary64.less min max d.millis
  | _, _ => True

theorem map_eq_ok_iff {α β : Type} {f : α → β} {r : Except ReadError α} {v : β} :
    r.map f = .ok v ↔ ∃ x, r = .ok x ∧ f x = v := by
  cases r with
  | error e => simp [Except.map]
  | ok x => simp [Except.map]

theorem readBool_boolText (b : Bool) : readBool (OptionValue.boolText b) = .ok b := by
  cases b <;> decide

theorem trim_boolText (b : Bool) :
    Text.trim (OptionValue.boolText b) = OptionValue.boolText b := by
  cases b <;> decide

theorem readInt_text (n : Int64) : readInt (Integer.text n.toInt) = .ok n := by
  rw [readInt, Integer.ofText?_text]

theorem readFloat_eq_ok_iff {raw : String} {x : Binary64} :
    readFloat raw = .ok x ↔ ∃ d, Decimal.ofText? raw = some d ∧ d.nearest = x ∧ x.isFinite := by
  unfold readFloat
  cases Decimal.ofText? raw with
  | none => simp
  | some d =>
      by_cases hfin : d.nearest.isFinite
      · simp only [hfin, if_true, Except.ok.injEq, Option.some.injEq]
        constructor
        · rintro rfl
          exact ⟨d, rfl, rfl, hfin⟩
        · rintro ⟨_, rfl, hx, -⟩
          exact hx
      · simp only [hfin, Bool.false_eq_true, if_false, reduceCtorEq, Option.some.injEq, false_iff]
        rintro ⟨_, rfl, rfl, hx⟩
        exact hfin hx

theorem isFinite_of_readFloat {raw : String} {x : Binary64} (h : readFloat raw = .ok x) :
    x.isFinite := by
  obtain ⟨d, -, -, hfin⟩ := readFloat_eq_ok_iff.mp h
  exact hfin

theorem readFloat_text {x : Binary64} (h : x.isFinite) :
    readFloat (Decimal.plain.text x) = .ok x := by
  obtain ⟨d, hd, hx⟩ := Decimal.ofText?_text h
  rw [readFloat, hd]
  simp only [hx, h, if_true]

/-- A text is read as a duration if it is a numeral and a unit, bare numbers counting `bare`, and
both the numeral and the amount in milliseconds are finite. -/
theorem ofText_eq_ok_iff {bare : TimeUnit} {raw : String} {d : Duration} :
    Duration.ofText bare raw = .ok d ↔
      ∃ numeral suffix unit, Duration.split? raw.toList = some (numeral, suffix) ∧
        Duration.unitOf? bare suffix = some unit ∧ d.millis = unit.toMillis numeral.nearest ∧
        numeral.nearest.isFinite ∧ d.millis.isFinite := by
  constructor
  · intro h
    unfold Duration.ofText at h
    split at h
    · cases h
    · next numeral suffix hsplit =>
      split at h
      · next hnumeral =>
        split at h
        · cases h
        · next unit hunit =>
          simp only at h
          split at h
          · next hmillis =>
            cases h
            exact ⟨numeral, suffix, unit, hsplit, hunit, rfl, hnumeral, hmillis⟩
          · cases h
      · cases h
  · rintro ⟨numeral, suffix, unit, hsplit, hunit, hd, hnumeral, hmillis⟩
    unfold Duration.ofText
    simp only [hsplit, hunit, hnumeral, ← hd, hmillis, if_true]

theorem isFinite_of_ofText {bare : TimeUnit} {raw : String} {d : Duration}
    (h : Duration.ofText bare raw = .ok d) : d.millis.isFinite := by
  obtain ⟨numeral, suffix, unit, -, -, -, -, hfin⟩ := ofText_eq_ok_iff.mp h
  exact hfin

theorem readLogLevel_text (l : LogLevel) : readLogLevel l.text = .ok l := by
  rw [readLogLevel, LogLevel.ofText?_text]

/-! ### Values that were read -/

variable {spec : OptionSpec} {raw : String} {v : OptionValue}

theorem kind?_of_map_eq_ok {α : Type} {f : α → OptionValue} {kind : Kind}
    {r : Except ReadError α} (hf : ∀ x, (f x).kind? = some kind) (h : r.map f = .ok v) :
    v.kind? = some kind := by
  obtain ⟨x, -, rfl⟩ := map_eq_ok_iff.mp h
  exact hf x

theorem kind?_of_read (h : spec.read raw = .ok v) : v.kind? = some spec.kind := by
  cases spec with
  | bool default => exact kind?_of_map_eq_ok (fun _ => rfl) h
  | int min max default => exact kind?_of_map_eq_ok (fun _ => rfl) h
  | float min max default => exact kind?_of_map_eq_ok (fun _ => rfl) h
  | duration min max unit default => exact kind?_of_map_eq_ok (fun _ => rfl) h
  | logLevel default => exact kind?_of_map_eq_ok (fun _ => rfl) h
  | _ =>
      cases h
      rfl

theorem raw?_of_read (h : spec.read raw = .ok v) : v.raw? = some v.text := by
  have hk : v.isNull = false := by simp [OptionValue.isNull, kind?_of_read h]
  simp [OptionValue.raw?, hk]

/-- **A value that was read is read from its text.** -/
theorem read_text (h : spec.read raw = .ok v) : spec.read v.text = .ok v := by
  cases spec with
  | bool default =>
      obtain ⟨b, -, rfl⟩ := map_eq_ok_iff.mp h
      exact map_eq_ok_iff.mpr ⟨b, readBool_boolText b, rfl⟩
  | int min max default =>
      obtain ⟨n, hn, rfl⟩ := map_eq_ok_iff.mp h
      have hl := (bind_within_eq_ok_iff.mp hn).2
      exact map_eq_ok_iff.mpr ⟨n, bind_within_eq_ok_iff.mpr ⟨readInt_text n, hl⟩, rfl⟩
  | float min max default =>
      obtain ⟨x, hx, rfl⟩ := map_eq_ok_iff.mp h
      obtain ⟨hread, hl⟩ := bind_within_eq_ok_iff.mp hx
      have hx := readFloat_text (isFinite_of_readFloat hread)
      exact map_eq_ok_iff.mpr ⟨x, bind_within_eq_ok_iff.mpr ⟨hx, hl⟩, rfl⟩
  | duration min max unit default =>
      obtain ⟨d, hd, rfl⟩ := map_eq_ok_iff.mp h
      obtain ⟨hread, hl⟩ := bind_within_eq_ok_iff.mp hd
      have hd := Duration.ofText_text (isFinite_of_ofText hread) unit
      exact map_eq_ok_iff.mpr ⟨d, bind_within_eq_ok_iff.mpr ⟨hd, hl⟩, rfl⟩
  | string =>
      cases h
      rfl
  | patterns default =>
      cases h
      exact congrArg (Except.ok ∘ OptionValue.patterns) (PatternList.ofText_text raw)
  | optionalPatterns =>
      cases h
      exact congrArg (Except.ok ∘ OptionValue.patterns) (PatternList.ofText_text raw)
  | logLevel default =>
      obtain ⟨l, -, rfl⟩ := map_eq_ok_iff.mp h
      exact map_eq_ok_iff.mpr ⟨l, readLogLevel_text l, rfl⟩
  | labels =>
      cases h
      exact congrArg (Except.ok ∘ OptionValue.labels) (Labels.ofText_text raw)

theorem inBounds_of_read (h : spec.read raw = .ok v) : spec.InBounds v := by
  cases spec with
  | int min max default =>
      obtain ⟨n, hn, rfl⟩ := map_eq_ok_iff.mp h
      exact passed?_eq_none_iff.mp (bind_within_eq_ok_iff.mp hn).2
  | float min max default =>
      obtain ⟨x, hx, rfl⟩ := map_eq_ok_iff.mp h
      exact passed?_eq_none_iff.mp (bind_within_eq_ok_iff.mp hx).2
  | duration min max unit default =>
      obtain ⟨d, hd, rfl⟩ := map_eq_ok_iff.mp h
      exact passed?_eq_none_iff.mp (bind_within_eq_ok_iff.mp hd).2
  | _ => trivial

theorem warnings_text (h : spec.read raw = .ok v) : spec.warnings v.text = [] := by
  cases spec with
  | labels =>
      cases h
      exact Labels.warnings_text raw
  | _ => rfl

theorem ofText_text_of_read {d : Duration} (h : spec.read raw = .ok (.duration d))
    (unit : TimeUnit) : Duration.ofText unit (OptionValue.duration d).text = .ok d := by
  cases spec with
  | duration min max bare default =>
      obtain ⟨e, he, hd⟩ := map_eq_ok_iff.mp h
      cases hd
      exact Duration.ofText_text (isFinite_of_ofText (bind_within_eq_ok_iff.mp he).1) unit
  | bool default => exact nomatch (map_eq_ok_iff.mp h)
  | int min max default => exact nomatch (map_eq_ok_iff.mp h)
  | float min max default => exact nomatch (map_eq_ok_iff.mp h)
  | logLevel default => exact nomatch (map_eq_ok_iff.mp h)
  | _ => cases h

/-- **A value that was read has a raw text, and from it is read again**: the same value, within
the same bounds, without a warning, and a duration whatever unit bare numbers count. -/
theorem raw?_reads_back (h : spec.read raw = .ok v) :
    ∃ text, v.raw? = some text ∧ spec.read text = .ok v ∧ spec.InBounds v ∧
      spec.warnings text = [] ∧
      ∀ d, v = .duration d → ∀ unit, Duration.ofText unit text = .ok d := by
  refine ⟨v.text, raw?_of_read h, read_text h, inBounds_of_read h, warnings_text h, ?_⟩
  rintro d rfl unit
  exact ofText_text_of_read h unit

/-- A duration in minutes, for an option that counts seconds and takes no negative ones. -/
theorem raw?_reads_back_minutes :
    (seconds (Binary64.ofNat 30)).read "1.5 M" =
        .ok (.duration ⟨Binary64.ofNat 90000⟩) ∧
      ∃ text, (OptionValue.duration ⟨Binary64.ofNat 90000⟩).raw? = some text ∧
        (seconds (Binary64.ofNat 30)).read text = .ok (.duration ⟨Binary64.ofNat 90000⟩) ∧
        (seconds (Binary64.ofNat 30)).InBounds (.duration ⟨Binary64.ofNat 90000⟩) ∧
        (seconds (Binary64.ofNat 30)).warnings text = [] ∧
        ∀ d, OptionValue.duration ⟨Binary64.ofNat 90000⟩ = .duration d →
          ∀ unit, Duration.ofText unit text = .ok d :=
  have hread : (seconds (Binary64.ofNat 30)).read "1.5 M" =
      .ok (.duration ⟨Binary64.ofNat 90000⟩) := by decide +kernel
  ⟨hread, raw?_reads_back hread⟩

/-- The text of a value of one word is trimmed, and lists and labels are read alike without the
blanks around them. -/
theorem read_trim (h : spec.read raw = .ok v) (hraw : Text.trim raw = raw) :
    spec.read (Text.trim v.text) = spec.read v.text := by
  cases spec with
  | bool default =>
      obtain ⟨b, -, rfl⟩ := map_eq_ok_iff.mp h
      rw [OptionValue.text, trim_boolText]
  | int min max default =>
      obtain ⟨n, -, rfl⟩ := map_eq_ok_iff.mp h
      rw [Text.trim_eq_self]
      rw [OptionValue.text, Integer.text, String.toList_ofList]
      exact Integer.isBlank_of_mem_digits n.toInt
  | float min max default =>
      obtain ⟨x, hx, rfl⟩ := map_eq_ok_iff.mp h
      have hfin := isFinite_of_readFloat (bind_within_eq_ok_iff.mp hx).1
      rw [Text.trim_eq_self]
      exact Decimal.isBlank_of_mem_text hfin
  | duration min max unit default =>
      obtain ⟨d, hd, rfl⟩ := map_eq_ok_iff.mp h
      have hfin := isFinite_of_ofText (bind_within_eq_ok_iff.mp hd).1
      rw [Text.trim_eq_self]
      exact Duration.isBlank_of_mem_text hfin
  | string =>
      cases h
      exact congrArg (Except.ok ∘ OptionValue.string) hraw
  | patterns default =>
      exact congrArg (Except.ok ∘ OptionValue.patterns) (PatternList.ofText_trim _)
  | optionalPatterns =>
      exact congrArg (Except.ok ∘ OptionValue.patterns) (PatternList.ofText_trim _)
  | logLevel default =>
      obtain ⟨l, -, rfl⟩ := map_eq_ok_iff.mp h
      rw [OptionValue.text, LogLevel.trim_text]
  | labels => exact congrArg (Except.ok ∘ OptionValue.labels) (Labels.ofText_trim _)

theorem read_trim_text (h : spec.read raw = .ok v) (hraw : Text.trim raw = raw) :
    spec.read (Text.trim v.text) = .ok v := by
  rw [read_trim h hraw]
  exact read_text h

/-- **Of the values that a text with something in it can be read as, only the labels without a
pair have a blank text.** -/
theorem trim_text_eq_empty_iff (h : spec.read raw = .ok v) (hraw : Text.trim raw = raw)
    (hne : raw ≠ "") : Text.trim v.text = "" ↔ v = .labels .empty := by
  constructor
  · intro hblank
    have hread := read_trim_text h hraw
    rw [hblank] at hread
    have hpatterns : PatternList.ofText raw ≠ PatternList.ofText "" := by
      intro hlist
      rw [PatternList.ofText_eq_ofText_empty_iff, hraw] at hlist
      exact hne hlist
    cases spec with
    | bool default => cases hread
    | int min max default => cases hread
    | float min max default => cases hread
    | duration min max unit default => cases hread
    | string =>
        cases h
        cases hread
        exact absurd rfl hne
    | patterns default =>
        cases h
        injection hread with hread
        injection hread with hlist
        exact absurd hlist.symm hpatterns
    | optionalPatterns =>
        cases h
        injection hread with hread
        injection hread with hlist
        exact absurd hlist.symm hpatterns
    | logLevel default => cases hread
    | labels =>
        cases hread
        rfl
  · rintro rfl
    rfl

end OptionSpec

end AgentOptions
