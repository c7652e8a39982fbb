import AgentOptions.Proofs.Precedence
import AgentOptions.Proofs.RegistryEntries

/-! # The list of hidden fields

The names of the fields to hide are read from `Snapshot.patterns? .sanitizeFieldNames`.
Specifications with and without a default list are of one kind, so a registry may give the option
the one without; then the list is there only if a source supplies it
(`hiddenFields_present_iff`). -/

namespace AgentOptions

namespace OptionSpec

theorem eq_of_kind_patterns {spec : OptionSpec} (h : spec.kind = .patterns) :
    (∃ list, spec = .patterns list) ∨ spec = .optionalPatterns := by
  cases spec with
  | patterns list => exact .inl ⟨list, rfl⟩
  | optionalPatterns => exact .inr rfl
  | _ => cases h

theorem read_of_kind_patterns {spec : OptionSpec} (h : spec.kind = .patterns) (raw : String) :
    spec.read raw = .ok (.patterns (PatternList.ofText raw)) := by
  rcases eq_of_kind_patterns h with ⟨list, rfl⟩ | rfl
  · rfl
  · rfl

theorem patterns?_default_isSome_iff {spec : OptionSpec} (h : spec.kind = .patterns) :
    spec.default.patterns?.isSome ↔ spec ≠ .optionalPatterns := by
  rcases eq_of_kind_patterns h with ⟨list, rfl⟩ | rfl
  · simp [default, OptionValue.patterns?]
  · simp [default, OptionValue.patterns?]

end OptionSpec

/-- **The list of hidden fields is there exactly if the registry has a default list or a source
supplies one.** -/
theorem hiddenFields_present_iff {entries : List Registry.Entry} {registry : Registry}
    {sources : List Source} {snapshot : Snapshot}
    (hr : Registry.ofEntries entries = .ok registry)
    (hs : (registry.resolve sources).result = .ok snapshot) :
    (snapshot.patterns? .sanitizeFieldNames).isSome ↔
      (.sanitizeFieldNames, .optionalPatterns) ∉ entries ∨
        ∃ s raw, Decides sources .sanitizeFieldNames s raw := by
  have hkind : (registry.spec .sanitizeFieldNames).kind = .patterns :=
    registry.kind_spec .sanitizeFieldNames
  have hset := (settles_iff hs (n := .sanitizeFieldNames)).mpr rfl
  rw [Registry.mem_entries_iff hr, Snapshot.patterns?, Snapshot.value]
  generalize snapshot.setting .sanitizeFieldNames = setting at hset
  cases hset with
  | defaulted hu =>
      rw [Setting.value, OptionSpec.patterns?_default_isSome_iff hkind]
      constructor
      · exact .inl
      · rintro (h | ⟨s, raw, hd⟩)
        · exact h
        · exact absurd hd (hu.not_decides s raw)
  | supplied hd hread =>
      rw [OptionSpec.read_of_kind_patterns hkind] at hread
      cases hread
      simp only [Setting.value, OptionValue.patterns?, Option.isSome_some, true_iff]
      exact .inr ⟨_, _, hd⟩
  | rejected hd hread =>
      rw [OptionSpec.read_of_kind_patterns hkind] at hread
      cases hread

/-- The built-in entries without a default list of hidden fields. -/
def entriesWithoutHiddenFields : List Registry.Entry :=
  OptionName.all.map fun n =>
    (n, if n = .sanitizeFieldNames then .optionalPatterns else builtinSpec n)

theorem hiddenFields_present_iff_supplied :
    ∃ registry snapshot, Registry.ofEntries entriesWithoutHiddenFields = .ok registry ∧
      (registry.resolve [.overrides ⟨"first", [(.sanitizeFieldNames, "secret")]⟩]).result =
        .ok snapshot ∧
      ((snapshot.patterns? .sanitizeFieldNames).isSome ↔
        (.sanitizeFieldNames, .optionalPatterns) ∉ entriesWithoutHiddenFields ∨
          ∃ s raw, Decides [.overrides ⟨"first", [(.sanitizeFieldNames, "secret")]⟩]
            .sanitizeFieldNames s raw) :=
  ⟨_, _, rfl, rfl, hiddenFields_present_iff rfl rfl⟩

/-- A registry that keeps the kinds can leave a snapshot without a list of hidden fields. -/
theorem hiddenFields_missing :
    ∃ registry snapshot, Registry.ofEntries entriesWithoutHiddenFields = .ok registry ∧
      (registry.resolve []).result = .ok snapshot ∧
      snapshot.patterns? .sanitizeFieldNames = none :=
  ⟨_, _, rfl, rfl, rfl⟩

end AgentOptions
