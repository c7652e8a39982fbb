import AgentOptions.Registry
import Mathlib.Data.List.Nodup
import Mathlib.Data.List.Perm.Basic

/-! # Entries of a registry

A list of entries makes a registry exactly if it names every option once and every entry has the
kind of its option; the registry then gives an option the specification that is listed for it
(`mem_entries_iff`), in whatever order the entries stand, and never the one that the option comes
with instead (`lookup_of_ofEntries`).  Any other list is refused for its first entry with a fault
(`Fault`), or for the first option that is missing if no entry has one (`Refuses`).

Main statement: `ofEntries_makes_or_refuses`. -/

namespace AgentOptions

namespace Registry

variable {entries : List Entry} {registry : Registry} {n : OptionName} {spec : OptionSpec}

/-! ### Faults -/

/-- What is wrong with an entry that follows others with these names: its kind, or else its name. -/
inductive Fault (seen : List OptionName) : Entry → RegistryError → Prop
  | wrongKind {n : OptionName} {spec : OptionSpec} : spec.kind ≠ n.kind →
      Fault seen (n, spec) (.wrongKind n n.kind spec.kind)
  | repeated {n : OptionName} {spec : OptionSpec} : spec.kind = n.kind → n ∈ seen →
      Fault seen (n, spec) (.repeated n)

/-- Every entry has the kind of its option, and no option is named twice. -/
structure Sound (entries : List Entry) : Prop where
  kind_eq : ∀ e ∈ entries, e.2.kind = e.1.kind
  nodup : (entries.map Prod.fst).Nodup

theorem Fault.congr {seen seen' : List OptionName} (hs : ∀ n, n ∈ seen ↔ n ∈ seen') {e : Entry}
    {error : RegistryError} (h : Fault seen e error) : Fault seen' e error := by
  cases h with
  | wrongKind hk => exact .wrongKind hk
  | repeated hk hn => exact .repeated hk ((hs _).mp hn)

theorem exists_fault_or (seen : List OptionName) (e : Entry) :
    (∃ error, Fault seen e error) ∨ e.2.kind = e.1.kind ∧ e.1 ∉ seen := by
  by_cases hk : e.2.kind = e.1.kind
  · by_cases hn : e.1 ∈ seen
    · exact .inl ⟨_, .repeated hk hn⟩
    · exact .inr ⟨hk, hn⟩
  · exact .inl ⟨_, .wrongKind hk⟩

/-- One step of the search: it ends at an entry with a fault. -/
theorem firstFault?_cons_of_fault {seen : List OptionName} {e : Entry} {error : RegistryError}
    (h : Fault seen e error) (rest : List Entry) : firstFault? seen (e :: rest) = some error := by
  cases h with
  | wrongKind hk => exact if_pos hk
  | repeated hk hn => rw [firstFault?, if_neg (not_not.mpr hk), if_pos hn]

theorem firstFault?_cons_of_sound {seen : List OptionName} {e : Entry} (hk : e.2.kind = e.1.kind)
    (hn : e.1 ∉ seen) (rest : List Entry) :
    firstFault? seen (e :: rest) = firstFault? (e.1 :: seen) rest := by
  rw [firstFault?, if_neg (not_not.mpr hk), if_neg hn]

theorem sound_cons_iff {e : Entry} {rest : List Entry} :
    Sound (e :: rest) ↔ e.2.kind = e.1.kind ∧ e.1 ∉ rest.map Prod.fst ∧ Sound rest := by
  constructor
  · rintro ⟨hk, hnd⟩
    rw [List.forall_mem_cons] at hk
    rw [List.map_cons, List.nodup_cons] at hnd
    exact ⟨hk.1, hnd.1, hk.2, hnd.2⟩
  · rintro ⟨hk, hn, hkinds, hnd⟩
    exact ⟨List.forall_mem_cons.mpr ⟨hk, hkinds⟩, List.nodup_cons.mpr ⟨hn, hnd⟩⟩

theorem firstFault?_eq_none_iff {seen : List OptionName} :
    firstFault? seen entries = none ↔ Sound entries ∧ ∀ e ∈ entries, e.1 ∉ seen := by
  induction entries generalizing seen with
  | nil => simp [firstFault?, Sound.mk]
  | cons e rest ih =>
      rcases exists_fault_or seen e with ⟨error, hfault⟩ | ⟨hk, hn⟩
      · rw [firstFault?_cons_of_fault hfault]
        constructor
        · intro h
          cases h
        · rintro ⟨hsound, hseen⟩
          cases hfault with
          | wrongKind hk => exact absurd (hsound.kind_eq _ List.mem_cons_self) hk
          | repeated hk hn => exact absurd hn (hseen _ List.mem_cons_self)
      · rw [firstFault?_cons_of_sound hk hn, ih, sound_cons_iff, List.forall_mem_cons]
        simp only [List.mem_cons, not_or, List.mem_map, not_exists, not_and]
        constructor
        · rintro ⟨hsound, hseen⟩
          exact ⟨⟨hk, fun e' he' => (hseen e' he').1, hsound⟩, hn, fun e' he' => (hseen e' he').2⟩
        · rintro ⟨⟨-, hnew, hsound⟩, -, hseen⟩
          exact ⟨hsound, fun e' he' => ⟨hnew e' he', hseen e' he'⟩⟩

theorem firstFault?_append_of_fault {seen : List OptionName} {before : List Entry} {e : Entry}
    {error : RegistryError} (hsound : Sound before) (hseen : ∀ b ∈ before, b.1 ∉ seen)
    (h : Fault (before.map Prod.fst ++ seen) e error) (after : List Entry) :
    firstFault? seen (before ++ e :: after) = some error := by
  -- Each entry in front moves its name from those to come to those that were seen.
  induction before generalizing seen with
  | nil => exact firstFault?_cons_of_fault h after
  | cons b before ih =>
      obtain ⟨hk, hn, hrest⟩ := sound_cons_iff.mp hsound
      rw [List.forall_mem_cons] at hseen
      rw [List.cons_append, firstFault?_cons_of_sound hk hseen.1]
      apply ih hrest
      · intro b' hb'
        rw [List.mem_cons, not_or]
        exact ⟨fun he => hn (List.mem_map.mpr ⟨b', hb', he⟩), hseen.2 b' hb'⟩
      · apply h.congr
        intro n
        simp [or_left_comm]

theorem exists_fault_of_firstFault?_eq_some {seen : List OptionName} {error : RegistryError}
    (h : firstFault? seen entries = some error) :
    ∃ before e after, entries = before ++ e :: after ∧ Sound before ∧
      (∀ b ∈ before, b.1 ∉ seen) ∧ Fault (before.map Prod.fst ++ seen) e error := by
  induction entries generalizing seen with
  | nil => cases h
  | cons e rest ih =>
      rcases exists_fault_or seen e with ⟨found, hfault⟩ | ⟨hk, hn⟩
      · rw [firstFault?_cons_of_fault hfault] at h
        obtain rfl := Option.some.inj h
        exact ⟨[], e, rest, rfl, ⟨by simp, by simp⟩, by simp, hfault⟩
      · rw [firstFault?_cons_of_sound hk hn] at h
        obtain ⟨before, f, after, rfl, hsound, hseen, hfault⟩ := ih h
        simp only [List.mem_cons, not_or] at hseen
        refine ⟨e :: before, f, after, rfl, sound_cons_iff.mpr ⟨hk, ?_, hsound⟩, ?_, ?_⟩
        · intro hmem
          obtain ⟨b, hb, he⟩ := List.mem_map.mp hmem
          exact (hseen b hb).1 he
        · exact List.forall_mem_cons.mpr ⟨hn, fun b hb => (hseen b hb).2⟩
        · apply hfault.congr
          intro n
          simp [or_left_comm]

/-! ### Missing options -/

theorem firstMissing?_eq_none_iff :
    firstMissing? entries = none ↔ ∀ n, n ∈ entries.map Prod.fst := by
  simp [firstMissing?, OptionName.mem_all]

theorem firstMissing?_eq_some_iff :
    firstMissing? entries = some n ↔
      n ∉ entries.map Prod.fst ∧ ∃ before after, OptionName.all = before ++ n :: after ∧
        ∀ m ∈ before, m ∈ entries.map Prod.fst := by
  have hnamed : ∀ m, (entries.any fun e => e.1 == m) = true ↔ m ∈ entries.map Prod.fst := by
    intro m
    rw [List.any_eq_true, List.mem_map]
    simp only [beq_iff_eq]
  rw [firstMissing?, List.find?_eq_some_iff_append, Bool.not_eq_true', ← Bool.not_eq_true, hnamed]
  simp only [Bool.not_not, hnamed]

/-- Where nothing is missing every option is found, and no fallback is needed. -/
theorem exists_lookup_of_firstMissing?_eq_none (h : firstMissing? entries = none)
    (n : OptionName) : ∃ spec, entries.lookup n = some spec := by
  obtain ⟨e, he, rfl⟩ := List.mem_map.mp (firstMissing?_eq_none_iff.mp h n)
  cases hl : entries.lookup e.1 with
  | some spec => exact ⟨spec, rfl⟩
  | none => exact absurd (List.lookup_eq_none_iff.mp hl e he) (by simp)

/-! ### Registries -/

theorem eq_of_spec_eq {r s : Registry} (h : ∀ n, r.spec n = s.spec n) : r = s := by
  cases r
  cases s
  rw [mk.injEq]
  exact funext h

/-- A list makes a registry if it is sound and names every option, and what it lists for an option
is what the registry gives. -/
theorem ofEntries_eq_ok_iff :
    ofEntries entries = .ok registry ↔
      Sound entries ∧ ∀ n spec, (n, spec) ∈ entries ↔ registry.spec n = spec := by
  have hlookup : Sound entries → ∀ n spec, entries.lookup n = some spec ↔ (n, spec) ∈ entries :=
    fun hs n spec => Bindings.lookup_eq_some_iff_mem hs.nodup
  constructor
  · intro h
    unfold ofEntries at h
    split at h
    · cases h
    · next hfault =>
      split at h
      · cases h
      · next hmissing =>
        cases h
        have hsound := (firstFault?_eq_none_iff.mp hfault).1
        refine ⟨hsound, fun n spec => ?_⟩
        obtain ⟨listed, hfound⟩ := exists_lookup_of_firstMissing?_eq_none hmissing n
        change _ ↔ (entries.lookup n).getD (builtinSpec n) = spec
        rw [← hlookup hsound, hfound, Option.some.injEq, Option.getD_some]
  · rintro ⟨hsound, hlisted⟩
    have hfault : firstFault? [] entries = none :=
      firstFault?_eq_none_iff.mpr ⟨hsound, by simp⟩
    have hmissing : firstMissing? entries = none :=
      firstMissing?_eq_none_iff.mpr fun n =>
        List.mem_map.mpr ⟨_, (hlisted n (registry.spec n)).mpr rfl, rfl⟩
    unfold ofEntries
    split
    · next hf => simp [hfault] at hf
    · rw [hmissing]
      refine congrArg Except.ok (eq_of_spec_eq fun n => ?_)
      have hfound := (hlookup hsound n _).mpr ((hlisted n _).mpr rfl)
      change (entries.lookup n).getD (builtinSpec n) = registry.spec n
      rw [hfound, Option.getD_some]

theorem mem_entries_iff (h : ofEntries entries = .ok registry) :
    (n, spec) ∈ entries ↔ registry.spec n = spec :=
  (ofEntries_eq_ok_iff.mp h).2 n spec

/-- The registry looks every option up in its entries; none falls back on what it comes with. -/
theorem lookup_of_ofEntries (h : ofEntries entries = .ok registry) (n : OptionName) :
    entries.lookup n = some (registry.spec n) :=
  (Bindings.lookup_eq_some_iff_mem (ofEntries_eq_ok_iff.mp h).1.nodup).mpr
    ((mem_entries_iff h).mpr rfl)

/-- Why a list of entries makes no registry: the first entry with a fault, or else the first option
in declared order that no entry names. -/
inductive Refuses (entries : List Entry) : RegistryError → Prop
  | faulty {before after : List Entry} {e : Entry} {error : RegistryError} :
      entries = before ++ e :: after → Sound before → Fault (before.map Prod.fst) e error →
      Refuses entries error
  | missing {before after : List OptionName} {n : OptionName} : Sound entries →
      OptionName.all = before ++ n :: after → (∀ m ∈ before, m ∈ entries.map Prod.fst) →
      n ∉ entries.map Prod.fst → Refuses entries (.missing n)

theorem ofEntries_eq_error_iff {error : RegistryError} :
    ofEntries entries = .error error ↔ Refuses entries error := by
  constructor
  · intro h
    unfold ofEntries at h
    split at h
    · next fault hfault =>
      cases h
      obtain ⟨before, e, after, rfl, hsound, -, hfault⟩ :=
        exists_fault_of_firstFault?_eq_some hfault
      rw [List.append_nil] at hfault
      exact .faulty rfl hsound hfault
    · next hfault =>
      split at h
      · next n hmissing =>
        cases h
        obtain ⟨hn, before, after, hall, hbefore⟩ := firstMissing?_eq_some_iff.mp hmissing
        exact .missing (firstFault?_eq_none_iff.mp hfault).1 hall hbefore hn
      · cases h
  · intro h
    unfold ofEntries
    cases h with
    | @faulty before after e error he hsound hfault =>
        have hfound : firstFault? [] entries = some error := by
          rw [he]
          apply firstFault?_append_of_fault hsound (by simp)
          rwa [List.append_nil]
        split
        · next hf =>
          rw [hfound] at hf
          obtain rfl := Option.some.inj hf
          rfl
        · next hf => simp [hfound] at hf
    | @missing before after n hsound hall hbefore hn =>
        have hfault : firstFault? [] entries = none :=
          firstFault?_eq_none_iff.mpr ⟨hsound, by simp⟩
        have hmissing := firstMissing?_eq_some_iff.mpr ⟨hn, before, after, hall, hbefore⟩
        split
        · next hf => simp [hfault] at hf
        · rw [hmissing]

theorem Sound.perm {other : List Entry} (h : Sound entries) (hp : other.Perm entries) :
    Sound other :=
  ⟨fun e he => h.kind_eq e (hp.mem_iff.mp he), (hp.map Prod.fst).nodup_iff.mpr h.nodup⟩

theorem ofEntries_perm {other : List Entry} (h : ofEntries entries = .ok registry)
    (hp : other.Perm entries) : ofEntries other = .ok registry := by
  obtain ⟨hsound, hlisted⟩ := ofEntries_eq_ok_iff.mp h
  rw [ofEntries_eq_ok_iff]
  refine ⟨hsound.perm hp, fun n spec => ?_⟩
  rw [hp.mem_iff]
  exact hlisted n spec

theorem names_entries (registry : Registry) :
    registry.entries.map Prod.fst = OptionName.all := by
  simp [Registry.entries, Function.comp_def]

theorem entries_perm (h : ofEntries entries = .ok registry) : registry.entries.Perm entries := by
  obtain ⟨hsound, hlisted⟩ := ofEntries_eq_ok_iff.mp h
  have hnodup : registry.entries.Nodup := by
    apply List.Nodup.of_map Prod.fst
    rw [names_entries]
    exact OptionName.nodup_all
  rw [List.perm_ext_iff_of_nodup hnodup hsound.nodup.of_map]
  rintro ⟨n, spec⟩
  rw [hlisted]
  simp [Registry.entries, OptionName.mem_all]

theorem exists_ofEntries_iff :
    (∃ registry, ofEntries entries = .ok registry) ↔
      Sound entries ∧ ∀ n, n ∈ entries.map Prod.fst := by
  constructor
  · rintro ⟨registry, h⟩
    obtain ⟨hsound, hlisted⟩ := ofEntries_eq_ok_iff.mp h
    exact ⟨hsound, fun n => List.mem_map.mpr ⟨_, (hlisted n _).mpr rfl, rfl⟩⟩
  · rintro ⟨hsound, hall⟩
    have hexists : ∀ n, ∃ spec, (n, spec) ∈ entries := by
      intro n
      obtain ⟨⟨_, spec⟩, hmem, rfl⟩ := List.mem_map.mp (hall n)
      exact ⟨spec, hmem⟩
    choose listed hlisted using hexists
    have hkind : ∀ n, (listed n).kind = n.kind := fun n => hsound.kind_eq _ (hlisted n)
    refine ⟨⟨listed, hkind⟩, ofEntries_eq_ok_iff.mpr ⟨hsound, fun n spec => ?_⟩⟩
    rw [← Bindings.lookup_eq_some_iff_mem hsound.nodup,
      (Bindings.lookup_eq_some_iff_mem hsound.nodup).mpr (hlisted n), Option.some.injEq]

theorem sound_and_all_named_iff :
    (Sound entries ∧ ∀ n, n ∈ entries.map Prod.fst) ↔
      (∀ n, (entries.map Prod.fst).count n = 1) ∧ ∀ e ∈ entries, e.2.kind = e.1.kind := by
  constructor
  · rintro ⟨hsound, hall⟩
    exact ⟨fun n => List.count_eq_one_of_mem hsound.nodup (hall n), hsound.kind_eq⟩
  · rintro ⟨hcount, hkind⟩
    refine ⟨⟨hkind, List.nodup_iff_count_le_one.mpr fun n => Nat.le_of_eq (hcount n)⟩, fun n => ?_⟩
    apply List.count_pos_iff.mp
    rw [hcount n]
    exact Nat.one_pos

/-- **Which lists of entries make a registry, and which one.**  A list is accepted if and only if
it names every option once and every entry has the kind of its option.  The registry then gives
every option what is listed for it, runs through the entries in declared order, and is the same
for every order of the list.  Any other list is refused for its first entry with a fault, and for
the first missing option only if no entry has one. -/
theorem ofEntries_makes_or_refuses (entries : List Entry) :
    ((∃ registry, ofEntries entries = .ok registry) ↔
      (∀ n, (entries.map Prod.fst).count n = 1) ∧ ∀ e ∈ entries, e.2.kind = e.1.kind) ∧
    (∀ registry, ofEntries entries = .ok registry →
      (∀ n spec, (n, spec) ∈ entries ↔ registry.spec n = spec) ∧
        registry.entries.map Prod.fst = OptionName.all ∧ registry.entries.Perm entries ∧
        ∀ other : List Entry, other.Perm entries → ofEntries other = .ok registry) ∧
    ∀ error, ofEntries entries = .error error ↔ Refuses entries error := by
  refine ⟨?_, fun registry h => ?_, fun error => ofEntries_eq_error_iff⟩
  · rw [exists_ofEntries_iff]
    exact sound_and_all_named_iff
  · exact ⟨fun n spec => mem_entries_iff h, names_entries registry, entries_perm h,
      fun other hp => ofEntries_perm h hp⟩

/-- The built-in entries, but with another default for one option, which stands in front. -/
def disabledEntries : List Entry :=
  (.enabled, .bool false) :: builtin.entries.filter fun e => e.1 ≠ .enabled

/-- The order does not matter for a registry; for a refusal it does, where a name comes again with
another kind. -/
theorem ofEntries_makes_or_refuses_disabled :
    (∃ registry, ofEntries disabledEntries = .ok registry ∧ registry.spec .enabled = .bool false ∧
      registry.entries.map Prod.fst = OptionName.all ∧
      disabledEntries.reverse.Perm disabledEntries ∧
      ofEntries disabledEntries.reverse = .ok registry) ∧
    ofEntries [(.enabled, .bool true), (.enabled, .string), (.enabled, .bool true)] =
      .error (.wrongKind .enabled .bool .string) ∧
    ofEntries [(.enabled, .bool true), (.enabled, .bool true), (.enabled, .string)] =
      .error (.repeated .enabled) := by
  refine ⟨⟨_, rfl, ?_⟩, ?_, ?_⟩
  · obtain ⟨hspec, hnames, -, hperm⟩ := (ofEntries_makes_or_refuses disabledEntries).2.1 _ rfl
    have hreverse := List.reverse_perm disabledEntries
    exact ⟨(hspec _ _).mp List.mem_cons_self, hnames, hreverse, hperm _ hreverse⟩
  · apply ((ofEntries_makes_or_refuses _).2.2 _).mpr
    exact @Refuses.faulty _ [(.enabled, .bool true)] _ _ _ rfl ⟨by decide, by decide⟩
      (.wrongKind (by decide))
  · apply ((ofEntries_makes_or_refuses _).2.2 _).mpr
    exact @Refuses.faulty _ [(.enabled, .bool true)] _ _ _ rfl ⟨by decide, by decide⟩
      (.repeated (by decide) (by decide))

end Registry

end AgentOptions
