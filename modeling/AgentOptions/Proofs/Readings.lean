import AgentOptions.Session
import Mathlib.Data.List.Forall2

/-! # Reading and comparing snapshots

What a reader is told of an option is how its setting stands: the value, the source if one supplied
it, and for each of some texts the first pattern of the value that describes it (`Reading.Tells`,
`Session.read_tells`).

Two snapshots are compared setting by setting (`Snapshot.same_iff`).  Values are equal when they are
one value, but numbers as numbers: the zeros are equal, and what is not a number differs from
itself (`Binary64.Equal`). -/

namespace AgentOptions

/-! ### Readings -/

/-- The first pattern of a value that describes the text.  A value that is no pattern list has
none. -/
inductive FirstHit (text : String) : OptionValue → Option Pattern → Prop
  | hit {before after : List Pattern} {p : Pattern} : (∀ q ∈ before, q.accepts text = false) →
      p.accepts text = true → FirstHit text (.patterns ⟨before ++ p :: after⟩) (some p)
  | miss {l : PatternList} : (∀ p ∈ l.patterns, p.accepts text = false) →
      FirstHit text (.patterns l) none
  | other {v : OptionValue} : (∀ l, v ≠ .patterns l) → FirstHit text v none

theorem firstHit_firstMatch? (l : PatternList) (text : String) :
    FirstHit text (.patterns l) (l.firstMatch? text) := by
  cases hfind : l.firstMatch? text with
  | none => exact .miss fun p hp => Bool.eq_false_iff.mpr (List.find?_eq_none.mp hfind p hp)
  | some p =>
      obtain ⟨hp, before, after, heq, hbefore⟩ := List.find?_eq_some_iff_append.mp hfind
      have hl : l = ⟨before ++ p :: after⟩ := by rw [← heq]
      rw [hl]
      exact .hit (fun q hq => by simpa using hbefore q hq) hp

theorem firstHit_patterns? (v : OptionValue) (text : String) :
    FirstHit text v (v.patterns?.bind (·.firstMatch? text)) := by
  cases v with
  | patterns l => exact firstHit_firstMatch? l text
  | _ => exact .other fun l h => nomatch h

theorem Setting.origin?_eq_some_iff {setting : Setting} {name : String} :
    setting.origin? = some name ↔ ∃ v, setting = .supplied v name := by
  cases setting with
  | supplied v origin => simp [Setting.origin?]
  | defaulted | rejected => simp [Setting.origin?]

namespace Session

/-- The reading tells how the setting stands. -/
structure Reading.Tells (r : Reading) (setting : Setting) (texts : List String) : Prop where
  value_eq : r.value = setting.value
  origin_iff : ∀ name, r.origin = some name ↔ ∃ v, setting = .supplied v name
  hits : List.Forall₂ (fun text hit => FirstHit text setting.value hit) texts r.hits

theorem read_tells (snapshot : Snapshot) (option : OptionName) (texts : List String) :
    (read snapshot option texts).Tells (snapshot.setting option) texts where
  value_eq := rfl
  origin_iff := fun _ => Setting.origin?_eq_some_iff
  hits := by
    refine List.forall₂_map_right_iff.mpr (List.forall₂_same.mpr fun text _ => ?_)
    exact firstHit_patterns? (snapshot.value option) text

end Session

/-! ### Equality -/

namespace Binary64

/-- Equality of numbers: neither sign of zero counts, and `nan` equals nothing. -/
inductive Equal : Binary64 → Binary64 → Prop
  | refl {negative : Bool} {rank : Fin (infinityRank + 1)} :
      Equal (number negative rank) (number negative rank)
  | zeros {s t : Bool} {a b : Fin (infinityRank + 1)} : a.val = 0 → b.val = 0 →
      Equal (number s a) (number t b)

theorem same_iff {x y : Binary64} : x.same y = true ↔ x.Equal y := by
  constructor
  · intro h
    unfold same at h
    cases x with
    | nan => cases h
    | number s a => cases y with
      | nan => cases h
      | number t b =>
          simp only [signedRank?, beq_iff_eq] at h
          cases s <;> cases t <;> simp only [Bool.false_eq_true, if_true, if_false] at h
          · obtain rfl : a = b := Fin.ext (by omega)
            exact .refl
          · exact .zeros (by omega) (by omega)
          · exact .zeros (by omega) (by omega)
          · obtain rfl : a = b := Fin.ext (by omega)
            exact .refl
  · rintro (_ | ⟨ha, hb⟩)
    · simp [same, signedRank?]
    · simp [same, signedRank?, ha, hb]

end Binary64

namespace OptionValue

/-- Equality of values, of numbers and durations as numbers. -/
inductive Equal : OptionValue → OptionValue → Prop
  | float {x y : Binary64} : x.Equal y → Equal (.float x) (.float y)
  | duration {d e : Duration} : d.millis.Equal e.millis → Equal (.duration d) (.duration e)
  | refl {v : OptionValue} : v.kind? ≠ some .float → v.kind? ≠ some .duration → Equal v v

theorem same_iff {v w : OptionValue} : v.same w = true ↔ v.Equal w := by
  constructor
  · intro h
    unfold same at h
    split at h
    · exact .float (Binary64.same_iff.mp h)
    · exact .duration (Binary64.same_iff.mp h)
    · next hfloat hduration =>
      obtain rfl := eq_of_beq h
      refine .refl (fun hkind => ?_) fun hkind => ?_
      · cases v with
        | float x => exact hfloat x x rfl rfl
        | _ => cases hkind
      · cases v with
        | duration d => exact hduration d d rfl rfl
        | _ => cases hkind
  · rintro (h | h | ⟨hfloat, hduration⟩)
    · exact Binary64.same_iff.mpr h
    · exact Binary64.same_iff.mpr h
    · cases v with
      | float => exact absurd rfl hfloat
      | duration => exact absurd rfl hduration
      | _ => exact beq_self_eq_true _

end OptionValue

/-- Settings are equal in value and origin, and in what was refused. -/
structure Setting.Equal (s t : Setting) : Prop where
  value : s.value.Equal t.value
  origin : s.origin? = t.origin?
  rejection : s.rejection? = t.rejection?

theorem Setting.same_iff {s t : Setting} : s.same t = true ↔ s.Equal t := by
  unfold same
  rw [Bool.and_eq_true, Bool.and_eq_true, OptionValue.same_iff, beq_iff_eq, beq_iff_eq]
  constructor
  · rintro ⟨⟨hvalue, horigin⟩, hrejection⟩
    exact ⟨hvalue, horigin, hrejection⟩
  · rintro ⟨hvalue, horigin, hrejection⟩
    exact ⟨⟨hvalue, horigin⟩, hrejection⟩

/-- **Snapshots are the same when all their settings are equal.** -/
theorem Snapshot.same_iff {s t : Snapshot} :
    s.same t = true ↔ ∀ n, (s.setting n).Equal (t.setting n) := by
  unfold same
  rw [List.all_eq_true]
  constructor
  · exact fun h n => Setting.same_iff.mp (h n (OptionName.mem_all n))
  · exact fun h n _ => Setting.same_iff.mpr (h n)

end AgentOptions
