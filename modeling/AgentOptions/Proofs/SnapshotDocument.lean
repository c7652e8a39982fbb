import AgentOptions.Proofs.JsonText
import AgentOptions.Proofs.StoredKinds

/-! # What the document of a snapshot tells

The document of a snapshot leaves the kinds of values out, and yet two snapshots under one registry
with the same document have the same values.  The kind of an option is known, and a value of that
kind (`OptionValue.Plain`) can be told from its document (`Plain.eq_of_alike`).  Only a default can
be of no such kind: it may be null, or a number that is not finite, and both are written as null
(`plain_or_writesNull_default`), as nothing is that was read (`Plain.not_writesNull`).

Main statement: `document_determines_values`. -/

namespace AgentOptions

namespace Json

theorem alikeItems_iff {items others : List Json} :
    AlikeItems items others ↔ List.Forall₂ Alike items others := by
  induction items generalizing others with
  | nil =>
      rw [List.forall₂_nil_left_iff]
      constructor
      · intro h
        cases h
        rfl
      · rintro rfl
        exact .nil
  | cons a items ih =>
      rw [List.forall₂_cons_left_iff]
      constructor
      · intro h
        cases h with
        | cons ha hitems => exact ⟨_, _, ha, ih.mp hitems, rfl⟩
      · rintro ⟨b, others, ha, hitems, rfl⟩
        exact .cons ha (ih.mpr hitems)

theorem alikeMembers_iff {members others : List (String × Json)} :
    AlikeMembers members others ↔
      List.Forall₂ (fun p q => p.1 = q.1 ∧ Alike p.2 q.2) members others := by
  induction members generalizing others with
  | nil =>
      rw [List.forall₂_nil_left_iff]
      constructor
      · intro h
        cases h
        rfl
      · rintro rfl
        exact .nil
  | cons p members ih =>
      rw [List.forall₂_cons_left_iff]
      constructor
      · intro h
        cases h with
        | @cons key _ b _ others ha hmembers =>
            exact ⟨(key, b), others, ⟨rfl, ha⟩, ih.mp hmembers, rfl⟩
      · obtain ⟨key, a⟩ := p
        rintro ⟨⟨key', b⟩, others, ⟨rfl, ha⟩, hmembers, rfl⟩
        exact .cons ha (ih.mpr hmembers)

theorem Alike.string_eq {s t : String} (h : Alike (.string s) (.string t)) : s = t := by
  cases h with
  | atom hatom => cases hatom
  | string => rfl

theorem Alike.isAtom_eq {a b : Json} (h : Alike a b) : a.isAtom = b.isAtom := by
  cases h with
  | atom ha hb => rw [ha, hb]
  | string | array | object => rfl

theorem Alike.text_eq {a b : Json} (h : Alike a b) (ha : a.isAtom) :
    a.compactChars = b.compactChars := by
  cases h with
  | atom _ _ htext => exact htext
  | string | array | object => cases ha

end Json

/-! ### Values that have texts of their own -/

namespace Integer

theorem digits_inj {m n : Int} (h : digits m = digits n) : m = n :=
  Option.some.inj (by rw [← value?_digits, h, value?_digits])

end Integer

theorem LogLevel.text_inj {l m : LogLevel} (h : l.text = m.text) : l = m :=
  Option.some.inj (by rw [← ofText?_text, h, ofText?_text])

theorem Json.numberText_inj {x y : Binary64} (hx : x.isFinite) (hy : y.isFinite)
    (h : numberText x = numberText y) : x = y := by
  rw [numberText, numberText, if_pos hx, if_pos hy] at h
  exact Decimal.document_text_inj hx hy (String.toList_inj.mp h)

namespace OptionValue

/-- The value is of the kind, and if it is a number or an amount of time, it is finite. -/
inductive Plain : Kind → OptionValue → Prop
  | bool (b : Bool) : Plain .bool (.bool b)
  | int (n : Int64) : Plain .int (.int n)
  | float {x : Binary64} : x.isFinite → Plain .float (.float x)
  | duration {d : Duration} : d.millis.isFinite → Plain .duration (.duration d)
  | string (s : String) : Plain .string (.string s)
  | patterns (l : PatternList) : Plain .patterns (.patterns l)
  | logLevel (l : LogLevel) : Plain .logLevel (.logLevel l)
  | labels (l : Labels) : Plain .labels (.labels l)

/-- The document of the value is written as null. -/
def WritesNull (v : OptionValue) : Prop := v.json.isAtom ∧ v.json.compactChars = "null".toList

open Json

variable {kind : Kind} {v w : OptionValue}

/-- **Values of one kind with the same document are the same.** -/
theorem Plain.eq_of_alike (hv : Plain kind v) (hw : Plain kind w) (h : Alike v.json w.json) :
    v = w := by
  cases hv with
  | bool b =>
      cases hw with
      | bool c =>
          have htext := h.text_eq rfl
          simp only [OptionValue.json, compactChars] at htext
          have hall : ∀ b c : Bool, (if b then "true".toList else "false".toList) =
            (if c then "true".toList else "false".toList) → b = c := by decide
          rw [hall b c htext]
  | int n =>
      cases hw with
      | int m =>
          have htext := h.text_eq rfl
          simp only [OptionValue.json, compactChars] at htext
          rw [Int64.toInt_inj.mp (Integer.digits_inj htext)]
  | float hx =>
      cases hw with
      | float hy =>
          have htext := h.text_eq rfl
          simp only [OptionValue.json, compactChars] at htext
          rw [numberText_inj hx hy htext]
  | @duration d hx =>
      cases hw with
      | @duration e hy =>
          have htext := h.text_eq rfl
          simp only [OptionValue.json, compactChars] at htext
          have hmillis := numberText_inj hx hy htext
          cases d
          cases e
          simpa using hmillis
  | string s =>
      cases hw with
      | string t => rw [h.string_eq]
  | patterns l =>
      cases hw with
      | patterns m =>
          cases h with
          | atom hatom => cases hatom
          | array hitems =>
              have hall := alikeItems_iff.mp hitems
              rw [List.forall₂_map_left_iff, List.forall₂_map_right_iff] at hall
              have heq := hall.imp fun p q hpq => Pattern.text_inj hpq.string_eq
              rw [List.forall₂_eq_eq_eq] at heq
              exact congrArg OptionValue.patterns (congrArg PatternList.mk heq)
  | logLevel l =>
      cases hw with
      | logLevel m => rw [LogLevel.text_inj h.string_eq]
  | labels l =>
      cases hw with
      | labels m =>
          cases h with
          | atom hatom => cases hatom
          | object hmembers =>
              have hall := alikeMembers_iff.mp hmembers
              rw [List.forall₂_map_left_iff, List.forall₂_map_right_iff] at hall
              have heq : List.Forall₂ (· = ·) l.pairs m.pairs :=
                hall.imp fun p q hpq => Prod.ext hpq.1 hpq.2.string_eq
              rw [List.forall₂_eq_eq_eq] at heq
              rw [Labels.eq_of_pairs_eq heq]

theorem Plain.not_writesNull (hv : Plain kind v) : ¬ v.WritesNull := by
  rintro ⟨hatom, hnull⟩
  cases hv with
  | bool b => cases b <;> simp [OptionValue.json, compactChars] at hnull
  | int n =>
      simp only [OptionValue.json, compactChars] at hnull
      exact ne_null_of_isNumeral (fun c => Integer.isNumeral_of_mem_digits) hnull
  | float hx =>
      simp only [OptionValue.json, compactChars] at hnull
      exact ne_null_of_isNumeral (fun c => isNumeral_of_mem_numberText hx) hnull
  | duration hx =>
      simp only [OptionValue.json, compactChars] at hnull
      exact ne_null_of_isNumeral (fun c => isNumeral_of_mem_numberText hx) hnull
  | string => cases hatom
  | patterns => cases hatom
  | logLevel => cases hatom
  | labels => cases hatom

/-- Of values that are written alike, both are written as null or neither is. -/
theorem writesNull_iff_of_alike (h : Alike v.json w.json) : v.WritesNull ↔ w.WritesNull := by
  unfold WritesNull
  rw [← h.isAtom_eq]
  exact and_congr_right fun ha => by rw [h.text_eq ha]

end OptionValue

namespace OptionSpec

open OptionValue

theorem plain_of_read {spec : OptionSpec} {raw : String} {v : OptionValue}
    (h : spec.read raw = .ok v) : Plain spec.kind v := by
  cases spec with
  | bool default =>
      obtain ⟨b, -, rfl⟩ := map_eq_ok_iff.mp h
      exact .bool b
  | int min max default =>
      obtain ⟨n, -, rfl⟩ := map_eq_ok_iff.mp h
      exact .int n
  | float min max default =>
      obtain ⟨x, hread, rfl⟩ := map_eq_ok_iff.mp h
      exact .float (isFinite_of_readFloat (bind_within_eq_ok_iff.mp hread).1)
  | duration min max bare default =>
      obtain ⟨d, hread, rfl⟩ := map_eq_ok_iff.mp h
      exact .duration (isFinite_of_ofText (bind_within_eq_ok_iff.mp hread).1)
  | string =>
      cases h
      exact .string raw
  | patterns default =>
      cases h
      exact .patterns _
  | optionalPatterns =>
      cases h
      exact .patterns _
  | logLevel default =>
      obtain ⟨l, -, rfl⟩ := map_eq_ok_iff.mp h
      exact .logLevel l
  | labels =>
      cases h
      exact .labels _

theorem writesNull_of_not_isFinite {v : OptionValue} {x : Binary64} (hv : v.json = .number x)
    (hx : ¬ x.isFinite) : v.WritesNull := by
  unfold WritesNull
  rw [hv, Json.compactChars, Json.numberText, if_neg hx]
  exact ⟨rfl, rfl⟩

/-- A default is like what is read, or is written as null. -/
theorem plain_or_writesNull_default (spec : OptionSpec) :
    Plain spec.kind spec.default ∨ spec.default.WritesNull := by
  have hnull : WritesNull .null := ⟨rfl, by simp only [OptionValue.json, Json.compactChars]⟩
  cases spec with
  | bool b => exact .inl (.bool b)
  | int min max n => exact .inl (.int n)
  | float min max x =>
      by_cases hx : x.isFinite
      · exact .inl (.float hx)
      · exact .inr (writesNull_of_not_isFinite rfl hx)
  | duration min max bare x =>
      by_cases hx : x.isFinite
      · exact .inl (.duration hx)
      · exact .inr (writesNull_of_not_isFinite rfl hx)
  | string => exact .inr hnull
  | patterns l => exact .inl (.patterns l)
  | optionalPatterns => exact .inr hnull
  | logLevel level => cases level with
    | none => exact .inr hnull
    | some l => exact .inl (.logLevel l)
  | labels => exact .inr hnull

end OptionSpec

/-! ### Snapshots -/

section snapshot

open OptionValue

variable {registry : Registry} {sources others : List Source} {s t : Snapshot}

theorem eq_default_or_plain (h : (registry.resolve sources).result = .ok s) (n : OptionName) :
    s.value n = (registry.spec n).default ∨ Plain (registry.spec n).kind (s.value n) := by
  by_cases ho : (s.origin? n).isSome
  · obtain ⟨raw, hread, -, -⟩ := read_of_origin? h ho
    exact .inr (OptionSpec.plain_of_read hread)
  · exact .inl (value_of_origin?_eq_none h ho)

theorem value_eq_of_alike (hs : (registry.resolve sources).result = .ok s)
    (ht : (registry.resolve others).result = .ok t) {n : OptionName}
    (h : Json.Alike (s.value n).json (t.value n).json) : s.value n = t.value n := by
  have hdefault := OptionSpec.plain_or_writesNull_default (registry.spec n)
  rcases eq_default_or_plain hs n with hv | hv
  · rcases eq_default_or_plain ht n with hw | hw
    · rw [hv, hw]
    · rw [← hv] at hdefault
      rcases hdefault with hplain | hnull
      · exact hplain.eq_of_alike hw h
      · exact absurd ((writesNull_iff_of_alike h).mp hnull) hw.not_writesNull
  · rcases eq_default_or_plain ht n with hw | hw
    · rw [← hw] at hdefault
      rcases hdefault with hplain | hnull
      · exact hv.eq_of_alike hplain h
      · exact absurd ((writesNull_iff_of_alike h).mpr hnull) hv.not_writesNull
    · exact hv.eq_of_alike hw h

theorem Snapshot.alike_value (h : Json.Alike s.json t.json) (n : OptionName) :
    Json.Alike (s.value n).json (t.value n).json := by
  cases h with
  | atom hatom => cases hatom
  | object hmembers =>
      have hall := Json.alikeMembers_iff.mp hmembers
      simp only [Snapshot.values, List.map_map] at hall
      rw [List.forall₂_map_left_iff, List.forall₂_map_right_iff] at hall
      exact (List.forall₂_same.mp hall n (OptionName.mem_all n)).2

/-- **The document of a snapshot loses no value.**  Two snapshots that are resolved under one
registry, from whatever sources, and have the same document, in either of its written forms, have
the same value for every option. -/
theorem document_determines_values (hs : (registry.resolve sources).result = .ok s)
    (ht : (registry.resolve others).result = .ok t)
    (h : s.json.compact = t.json.compact ∨ s.json.pretty = t.json.pretty) (n : OptionName) :
    s.value n = t.value n := by
  have halike : Json.Alike s.json t.json := h.elim Json.alike_of_compact_eq Json.alike_of_pretty_eq
  exact value_eq_of_alike hs ht (Snapshot.alike_value halike n)

end snapshot

/-- The built-in entries, with a rate that is no number by default. -/
def undefinedRateEntries : List Registry.Entry :=
  OptionName.all.map fun n =>
    (n, if n = .transactionSampleRate then .float none none .nan else builtinSpec n)

def timeoutInMinutes : Overrides :=
  ⟨"first", [(.serverTimeout, "2m"), (.globalLabels, "b=1, a=\"x")]⟩

def timeoutInSeconds : Overrides :=
  ⟨"second", [(.serverTimeout, " 120 "), (.globalLabels, "a=\"x,b=0,b=1,c")]⟩

/-- One document of different texts.  Its rate is written as null, like a missing value. -/
theorem document_determines_values_timeout :
    ∃ registry s t, Registry.ofEntries undefinedRateEntries = .ok registry ∧
      (registry.resolve [.overrides timeoutInMinutes]).result = .ok s ∧
      (registry.resolve [.overrides timeoutInSeconds]).result = .ok t ∧
      s.json.compact = t.json.compact ∧ ∀ n, s.value n = t.value n := by
  refine ⟨_, _, _, rfl, resolve_overrides _ _, resolve_overrides _ _, ?same,
    document_determines_values (resolve_overrides _ _) (resolve_overrides _ _) (.inl ?same)⟩
  refine congrArg Json.compact (congrArg Json.object (congrArg (List.map _) ?_))
  decide +kernel

end AgentOptions
