import AgentOptions.Proofs.Precedence
import AgentOptions.Proofs.RawText
import AgentOptions.Proofs.RegistryEntries

/-! # Exported configurations

A snapshot is exported as overrides that hold, for every option that a source supplied, the raw
text of its value (`Snapshot.exported`).  Resolved again under the same registry, the overrides
give each option its value back, and nothing is refused; only labels without a pair, whose text is
blank, count as not supplied (`reimport_agrees_iff`). -/

namespace AgentOptions

/-! ### Exporting -/

theorem RawValues.lookup_toList (values : RawValues) (n : OptionName) :
    values.toList.lookup n = values n := by
  have hnd : (values.toList.map Prod.fst).Nodup := by
    have hp := pairwise_entries values OptionName.nodup_all
    rw [List.nodup_iff_pairwise_ne, List.pairwise_map]
    apply hp.imp
    intro p q hlt he
    rw [he] at hlt
    exact Nat.lt_irrefl _ hlt
  have hmem : ∀ raw, (n, raw) ∈ values.toList ↔ values n = some raw := by
    intro raw
    simp [toList, OptionName.mem_all]
  apply Option.ext
  intro raw
  rw [Bindings.lookup_eq_some_iff_mem hnd, hmem]

namespace Snapshot

/-- The raw texts of the values that sources supplied. -/
def suppliedRaws (s : Snapshot) : RawValues := fun n =>
  if (s.origin? n).isSome then (s.value n).raw? else none

/-- Overrides with the raw texts of the values that sources supplied. -/
def exported (s : Snapshot) (name : String) : Overrides := ⟨name, s.suppliedRaws.toList⟩

/-- The option has labels without a pair from a source. -/
def EmptyLabels (s : Snapshot) (n : OptionName) : Prop :=
  (s.origin? n).isSome ∧ s.value n = .labels .empty

end Snapshot

/-! ### Settled options -/

theorem Decides.trimmed {sources : List Source} {n : OptionName} {s : Source} {raw : String}
    (h : Decides sources n s raw) : Text.trim raw = raw ∧ raw ≠ "" := by
  obtain ⟨before, after, -, hs, -⟩ := h
  obtain ⟨loaded, text, -, -, rfl, hne⟩ := hs
  refine ⟨?_, hne⟩
  simp [Text.trim]

section settled

variable {registry : Registry} {sources : List Source} {snapshot : Snapshot} {n : OptionName}

theorem read_of_origin? (h : (registry.resolve sources).result = .ok snapshot)
    (ho : (snapshot.origin? n).isSome) :
    ∃ raw, (registry.spec n).read raw = .ok (snapshot.value n) ∧ Text.trim raw = raw ∧
      raw ≠ "" := by
  have hset := (settles_iff h (n := n)).mpr rfl
  unfold Snapshot.origin? at ho
  unfold Snapshot.value
  generalize snapshot.setting n = setting at hset ho
  cases hset with
  | defaulted hu => cases ho
  | supplied hd hread =>
      obtain ⟨htrim, hne⟩ := hd.trimmed
      exact ⟨_, hread, htrim, hne⟩
  | rejected hd hread => cases ho

theorem value_of_origin?_eq_none (h : (registry.resolve sources).result = .ok snapshot)
    (ho : ¬ (snapshot.origin? n).isSome) : snapshot.value n = (registry.spec n).default := by
  have hset := (settles_iff h (n := n)).mpr rfl
  unfold Snapshot.origin? at ho
  unfold Snapshot.value
  generalize snapshot.setting n = setting at hset ho
  cases hset with
  | defaulted hu => rfl
  | supplied hd hread => exact absurd rfl ho
  | rejected hd hread => rfl

end settled

/-! ### Importing -/

/-- What a registry makes of overrides alone. -/
def Registry.imported (registry : Registry) (o : Overrides) : Snapshot :=
  registry.settle [⟨o.name, o.values.restrict OptionName.all⟩]

theorem resolve_overrides (registry : Registry) (o : Overrides) :
    (registry.resolve [.overrides o]).result = .ok (registry.imported o) := rfl

theorem setting_imported (registry : Registry) (o : Overrides) (n : OptionName) :
    (registry.imported o).setting n =
      .ofChoice (registry.spec n) (((o.values n).map Text.trim).bind fun raw =>
        if raw = "" then none else some (o.name, raw)) := by
  have hr : o.values.restrict OptionName.all n = o.values n := if_pos (OptionName.mem_all n)
  have hs : supplied? [⟨o.name, o.values.restrict OptionName.all⟩] n =
      ((o.values n).map Text.trim).bind fun raw =>
        if raw = "" then none else some (o.name, raw) := by
    rw [supplied?, List.findSome?_singleton]
    simp only [hr]
  exact congrArg (Setting.ofChoice (registry.spec n)) hs

section imported

variable {registry : Registry} {sources : List Source} {snapshot : Snapshot}

theorem imported_of_not_supplied (registry : Registry) (name : String) {n : OptionName}
    (ho : ¬ (snapshot.origin? n).isSome) :
    (registry.imported (snapshot.exported name)).setting n =
      .defaulted (registry.spec n).default := by
  have hv : (snapshot.exported name).values n = none := by
    rw [Overrides.values, Snapshot.exported, RawValues.lookup_toList, Snapshot.suppliedRaws,
      if_neg ho]
  rw [setting_imported, hv]
  rfl

theorem exported_values (h : (registry.resolve sources).result = .ok snapshot) (name : String)
    {n : OptionName} (ho : (snapshot.origin? n).isSome) :
    (snapshot.exported name).values n = some (snapshot.value n).text := by
  obtain ⟨raw, hread, -⟩ := read_of_origin? h ho
  rw [Overrides.values, Snapshot.exported, RawValues.lookup_toList, Snapshot.suppliedRaws,
    if_pos ho]
  exact OptionSpec.raw?_of_read hread

theorem imported_of_supplied (h : (registry.resolve sources).result = .ok snapshot)
    (name : String) {n : OptionName} (ho : (snapshot.origin? n).isSome)
    (hv : snapshot.value n ≠ .labels .empty) :
    (registry.imported (snapshot.exported name)).setting n =
      .supplied (snapshot.value n) name := by
  obtain ⟨raw, hread, htrim, hne⟩ := read_of_origin? h ho
  have hblank : Text.trim (snapshot.value n).text ≠ "" := by
    intro hb
    exact hv ((OptionSpec.trim_text_eq_empty_iff hread htrim hne).mp hb)
  have hagain := OptionSpec.read_trim_text hread htrim
  rw [setting_imported, exported_values h name ho]
  simp only [Option.map_some, Option.bind_some, if_neg hblank, Setting.ofChoice, hagain]
  rfl

/-- Labels without a pair are exported as a blank text, and a blank text is none. -/
theorem imported_of_emptyLabels (h : (registry.resolve sources).result = .ok snapshot)
    (name : String) {n : OptionName} (he : snapshot.EmptyLabels n) :
    (registry.imported (snapshot.exported name)).setting n =
      .defaulted (registry.spec n).default := by
  have hblank : Text.trim (snapshot.value n).text = "" := by
    rw [he.2]
    rfl
  rw [setting_imported, exported_values h name he.1]
  simp only [Option.map_some, Option.bind_some, hblank, if_true]
  rfl

theorem rejection?_imported (h : (registry.resolve sources).result = .ok snapshot)
    (name : String) (n : OptionName) :
    (registry.imported (snapshot.exported name)).rejection? n = none := by
  unfold Snapshot.rejection?
  by_cases ho : (snapshot.origin? n).isSome
  · by_cases hv : snapshot.value n = .labels .empty
    · rw [imported_of_emptyLabels h name ⟨ho, hv⟩]
      rfl
    · rw [imported_of_supplied h name ho hv]
      rfl
  · rw [imported_of_not_supplied registry name ho]
    rfl

theorem imported_agrees (h : (registry.resolve sources).result = .ok snapshot) (name : String)
    {n : OptionName} (hn : ¬ snapshot.EmptyLabels n) :
    (registry.imported (snapshot.exported name)).value n = snapshot.value n ∧
      (((registry.imported (snapshot.exported name)).origin? n).isSome ↔
        (snapshot.origin? n).isSome) := by
  by_cases ho : (snapshot.origin? n).isSome
  · have hset := imported_of_supplied h name ho fun hv => hn ⟨ho, hv⟩
    have hvalue := congrArg Setting.value hset
    have horigin := congrArg Setting.origin? hset
    refine ⟨hvalue, iff_of_true ?_ ho⟩
    rw [Snapshot.origin?, horigin]
    rfl
  · have hset := imported_of_not_supplied registry name ho
    have hvalue := congrArg Setting.value hset
    have horigin := congrArg Setting.origin? hset
    refine ⟨hvalue.trans (value_of_origin?_eq_none h ho).symm, iff_of_false ?_ ho⟩
    rw [Snapshot.origin?, horigin]
    simp [Setting.origin?]

/-- **An exported configuration is imported as it was, but for labels without a pair.**  Nothing is
refused; an option has the value that it had, and a source exactly if it had one, unless a source
gave it labels without a pair. -/
theorem reimport_agrees_iff (h : (registry.resolve sources).result = .ok snapshot)
    (name : String) :
    ∃ again, (registry.resolve [.overrides (snapshot.exported name)]).result = .ok again ∧
      again.rejections = [] ∧
      ∀ n, (again.value n = snapshot.value n ∧
        ((again.origin? n).isSome ↔ (snapshot.origin? n).isSome)) ↔ ¬ snapshot.EmptyLabels n := by
  refine ⟨_, resolve_overrides _ _, ?_, ?_⟩
  · simp [Snapshot.rejections, rejection?_imported h name]
  · intro n
    constructor
    · rintro ⟨-, hsome⟩ he
      have hlost := hsome.mpr he.1
      rw [Snapshot.origin?, imported_of_emptyLabels h name he] at hlost
      cases hlost
    · exact imported_agrees h name

end imported

/-- A duration in minutes and labels with blanks around them. -/
theorem reimport_agrees_iff_minutes_and_labels :
    ∃ snapshot, (Registry.builtin.resolve [.overrides ⟨"first",
        [(.serverTimeout, "2 m"), (.globalLabels, "team = core,, a=b=c")]⟩]).result = .ok snapshot ∧
      ∃ again, (Registry.builtin.resolve [.overrides (snapshot.exported "second")]).result =
          .ok again ∧
        again.rejections = [] ∧
        ∀ n, (again.value n = snapshot.value n ∧
          ((again.origin? n).isSome ↔ (snapshot.origin? n).isSome)) ↔ ¬ snapshot.EmptyLabels n :=
  ⟨_, resolve_overrides _ _, reimport_agrees_iff (resolve_overrides _ _) "second"⟩

/-- Labels of which every entry was dropped are lost on the way. -/
theorem reimport_loses_empty_labels :
    ∃ registry snapshot again, Registry.ofEntries Registry.builtin.entries = .ok registry ∧
      (registry.resolve [.overrides ⟨"first", [(.globalLabels, "novalue")]⟩]).result =
        .ok snapshot ∧
      (registry.resolve [.overrides (snapshot.exported "second")]).result = .ok again ∧
      snapshot.setting .globalLabels = .supplied (.labels .empty) "first" ∧
      again.setting .globalLabels = .defaulted .null :=
  ⟨_, _, _, rfl, rfl, rfl, rfl, rfl⟩

end AgentOptions
