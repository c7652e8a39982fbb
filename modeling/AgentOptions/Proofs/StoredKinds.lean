import AgentOptions.Proofs.Export
import AgentOptions.Proofs.RegistryEntries

/-! # Kinds of stored values

The value that a snapshot has for an option is of the kind of the option, or null where the kind
leaves that open (`OptionValue.Fits`): that holds of every default (`OptionSpec.fits_default`) and
of whatever is read (`OptionSpec.fits_of_read`), and a registry keeps the kinds.

An accessor looks at the value of its own option, in the way of the kind of that option
(`Snapshot.content_eq_ofValue`), so what it gives is what is stored.

Main statement: `accessors_give_stored_values`. -/

namespace AgentOptions

/-! ### Values of a kind -/

/-- An option of the kind may be without a value. -/
def Kind.isOptional : Kind → Bool
  | string | patterns | logLevel | labels => true
  | bool | int | float | duration => false

/-- A value of the kind, or the null value where the kind leaves that open. -/
def OptionValue.Fits (v : OptionValue) (kind : Kind) : Prop :=
  v.kind? = some kind ∨ v = .null ∧ kind.isOptional

namespace OptionSpec

theorem fits_default (spec : OptionSpec) : spec.default.Fits spec.kind := by
  cases spec with
  | string => exact .inr ⟨rfl, rfl⟩
  | optionalPatterns => exact .inr ⟨rfl, rfl⟩
  | labels => exact .inr ⟨rfl, rfl⟩
  | logLevel level =>
      cases level with
      | none => exact .inr ⟨rfl, rfl⟩
      | some l => exact .inl rfl
  | _ => exact .inl rfl

theorem fits_of_read {spec : OptionSpec} {raw : String} {v : OptionValue}
    (h : spec.read raw = .ok v) : v.Fits spec.kind :=
  .inl (kind?_of_read h)

end OptionSpec

/-! ### Values of a snapshot -/

theorem Registry.kind_spec_of_ofEntries {entries : List Entry} {registry : Registry}
    (h : ofEntries entries = .ok registry) (n : OptionName) :
    (registry.spec n).kind = n.kind := by
  have hmem : (n, registry.spec n) ∈ entries := (mem_entries_iff h).mpr rfl
  unfold ofEntries at h
  split at h
  · cases h
  · next hfault => exact kind_of_firstFault?_eq_none hfault _ hmem

theorem fits_value {registry : Registry} {sources : List Source} {snapshot : Snapshot}
    (h : (registry.resolve sources).result = .ok snapshot) (n : OptionName) :
    (snapshot.value n).Fits (registry.spec n).kind := by
  by_cases ho : (snapshot.origin? n).isSome
  · obtain ⟨raw, hread, -, -⟩ := read_of_origin? h ho
    exact OptionSpec.fits_of_read hread
  · rw [value_of_origin?_eq_none h ho]
    exact OptionSpec.fits_default _

/-! ### Contents -/

namespace Snapshot

namespace Content

/-- The kind of the options that have such contents. -/
def kind : Content → Kind
  | bool _ => .bool
  | int _ => .int
  | float _ => .float
  | duration _ => .duration
  | string _ => .string
  | patterns _ => .patterns
  | logLevel _ => .logLevel
  | labels _ => .labels

/-- The value that has the content. -/
def value : Content → OptionValue
  | bool b => .bool b
  | int n => .int n
  | float x => .float x
  | duration d => .duration d
  | string s => s.elim .null .string
  | patterns l => l.elim .null .patterns
  | logLevel l => l.elim .null .logLevel
  | labels l => l.elim .null .labels

/-- There is nothing. -/
def isNone : Content → Bool
  | bool _ | int _ | float _ | duration _ => false
  | string s => s.isNone
  | patterns l => l.isNone
  | logLevel l => l.isNone
  | labels l => l.isNone

/-- What an accessor for a kind makes of a value. -/
def ofValue (kind : Kind) (v : OptionValue) : Content :=
  match kind with
  | .bool => .bool (v.bool?.getD false)
  | .int => .int (v.int?.getD 0)
  | .float => .float (v.float?.getD (Binary64.ofNat 1))
  | .duration => .duration (v.duration?.getD .zero)
  | .string => .string v.string?
  | .patterns => .patterns v.patterns?
  | .logLevel => .logLevel v.logLevel?
  | .labels => .labels v.labels?

theorem kind_ofValue (kind : Kind) (v : OptionValue) : (ofValue kind v).kind = kind := by
  cases kind <;> rfl

theorem value_ofValue {kind : Kind} {v : OptionValue} (h : v.Fits kind) :
    (ofValue kind v).value = v := by
  obtain hkind | ⟨rfl, hoptional⟩ := h
  · cases v with
    | null => cases hkind
    | _ =>
        obtain rfl := Option.some.inj hkind
        rfl
  · cases kind with
    | bool => cases hoptional
    | int => cases hoptional
    | float => cases hoptional
    | duration => cases hoptional
    | _ => rfl

theorem isNone_iff (c : Content) : c.isNone ↔ c.value = .null := by
  cases c with
  | string s => cases s <;> simp [isNone, value]
  | patterns l => cases l <;> simp [isNone, value]
  | logLevel l => cases l <;> simp [isNone, value]
  | labels l => cases l <;> simp [isNone, value]
  | _ => simp [isNone, value]

end Content

/-- Each accessor looks at its own option, in the way of the kind of that option. -/
theorem content_eq_ofValue (s : Snapshot) (n : OptionName) :
    s.content n = .ofValue n.kind (s.value n) := by
  cases n <;> rfl

end Snapshot

/-- **What an accessor gives is what is stored.**  The value of an option is of the kind of the
option, or null where that kind leaves it open.  Its accessor has the type of the kind and gives
the content of that very value: no neutral content stands in for a value of another kind, and an
accessor gives nothing exactly for the null value. -/
theorem accessors_give_stored_values {entries : List Registry.Entry} {registry : Registry}
    {sources : List Source} {snapshot : Snapshot}
    (hr : Registry.ofEntries entries = .ok registry)
    (hs : (registry.resolve sources).result = .ok snapshot) (n : OptionName) :
    (snapshot.value n).Fits n.kind ∧ (snapshot.content n).kind = n.kind ∧
      (snapshot.content n).value = snapshot.value n ∧
      ((snapshot.content n).isNone ↔ snapshot.value n = .null) := by
  have hfits : (snapshot.value n).Fits n.kind := by
    rw [← Registry.kind_spec_of_ofEntries hr n]
    exact fits_value hs n
  have hvalue : (snapshot.content n).value = snapshot.value n := by
    rw [Snapshot.content_eq_ofValue]
    exact Snapshot.Content.value_ofValue hfits
  refine ⟨hfits, ?_, hvalue, ?_⟩
  · rw [Snapshot.content_eq_ofValue, Snapshot.Content.kind_ofValue]
  · rw [Snapshot.Content.isNone_iff, hvalue]

/-- The built-in entries backwards, with bounds for one option that even its default passes. -/
def backwardsEntries : List Registry.Entry :=
  (OptionName.all.map fun n =>
    (n, if n = .transactionMaxSpans then .int (some 9) (some 3) (-1) else builtinSpec n)).reverse

/-- A number beyond these bounds is refused, and the accessor gives the default. -/
theorem accessors_give_stored_values_refused :
    ∃ registry snapshot, Registry.ofEntries backwardsEntries = .ok registry ∧
      (registry.resolve [.overrides ⟨"first", [(.transactionMaxSpans, "5")]⟩]).result =
        .ok snapshot ∧
      snapshot.content .transactionMaxSpans = .int (-1) ∧
      (snapshot.value .transactionMaxSpans).Fits .int ∧
      (snapshot.content .transactionMaxSpans).kind = .int ∧
      (snapshot.content .transactionMaxSpans).value = snapshot.value .transactionMaxSpans ∧
      ((snapshot.content .transactionMaxSpans).isNone ↔
        snapshot.value .transactionMaxSpans = .null) :=
  ⟨_, _, rfl, resolve_overrides _ _, rfl,
    @accessors_give_stored_values backwardsEntries _ _ _ rfl (resolve_overrides _ _)
      .transactionMaxSpans⟩

end AgentOptions
