import AgentOptions.Resolution
import Mathlib.Data.List.Forall2
import Mathlib.Data.List.Nodup

/-! # Precedence of sources

What decides an option, said of the sources and not of the layers that are made of them:
`Source.Supplies` is a text that is not blank, trimmed, and `Decides` the first source in order of
precedence that supplies one.  `Registry.Settles` is the outcome for an option, one rule for each
of the three cases.

Resolution gives every option the one setting that the rules allow (`settles_iff`), and the lists
of a snapshot hold exactly these settings (`holds_setting`), the refused texts in declared order.
Main statement: `resolve_settles_each_option`. -/

namespace AgentOptions

/-! ### Lists with an entry for some of the options -/

section entries

variable {α : Type} (f : OptionName → Option α)

theorem filter_entries_of_not_mem {names : List OptionName} {n : OptionName} (hn : n ∉ names) :
    (names.filterMap fun m => (f m).map (m, ·)).filter (fun p => p.1 = n) = [] := by
  rw [List.filter_eq_nil_iff]
  intro p hp
  obtain ⟨m, hm, he⟩ := List.mem_filterMap.mp hp
  obtain ⟨a, _, rfl⟩ := Option.map_eq_some_iff.mp he
  simp only [decide_eq_true_eq]
  rintro rfl
  exact hn hm

theorem filter_entries {names : List OptionName} (hnd : names.Nodup) {n : OptionName}
    (hn : n ∈ names) :
    (names.filterMap fun m => (f m).map (m, ·)).filter (fun p => p.1 = n) =
      (f n).toList.map (n, ·) := by
  induction names with
  | nil => cases hn
  | cons m names ih =>
      obtain ⟨hm, hnd⟩ := List.nodup_cons.mp hnd
      by_cases hmn : m = n
      · subst hmn
        cases hf : f m with
        | none => simp [hf, filter_entries_of_not_mem f hm]
        | some a => simp [hf, filter_entries_of_not_mem f hm]
      · have hn := (List.mem_cons.mp hn).resolve_left (Ne.symm hmn)
        cases hf : f m with
        | none => simp [hf, ih hnd hn]
        | some a => simp [hf, hmn, ih hnd hn]

theorem pairwise_idxOf {names : List OptionName} (hnd : names.Nodup) :
    names.Pairwise fun n m => names.idxOf n < names.idxOf m := by
  rw [List.pairwise_iff_getElem]
  intro i j hi hj hij
  rw [hnd.idxOf_getElem, hnd.idxOf_getElem]
  exact hij

theorem pairwise_entries {names : List OptionName} (hnd : names.Nodup) :
    (names.filterMap fun m => (f m).map (m, ·)).Pairwise
      fun p q => names.idxOf p.1 < names.idxOf q.1 := by
  rw [List.pairwise_filterMap]
  refine (pairwise_idxOf hnd).imp fun {n m} hlt => ?_
  intro p hp q hq
  obtain ⟨a, _, rfl⟩ := Option.map_eq_some_iff.mp hp
  obtain ⟨b, _, rfl⟩ := Option.map_eq_some_iff.mp hq
  exact hlt

end entries

/-! ### Loaded sources -/

/-- The source loads, and this is its layer. -/
def Source.LoadsAs (s : Source) (layer : Layer) : Prop :=
  ∃ loaded, s.load OptionName.all = .ok loaded ∧ layer = ⟨s.name, loaded.values⟩

theorem loadAll_eq_ok_iff {sources : List Source} {layers : List Layer} :
    (loadAll sources).1 = .ok layers ↔ List.Forall₂ Source.LoadsAs sources layers := by
  induction sources generalizing layers with
  | nil => simp [loadAll, eq_comm]
  | cons s rest ih =>
      rw [loadAll, List.forall₂_cons_left_iff]
      cases hs : s.load OptionName.all with
      | error cause => simp [Source.LoadsAs, hs]
      | ok loaded =>
          simp only [Source.LoadsAs, hs, ← ih]
          cases hr : (loadAll rest).1 with
          | error e => simp [Except.map]
          | ok others =>
              constructor
              · intro h
                cases h
                exact ⟨_, _, ⟨loaded, rfl, rfl⟩, rfl, rfl⟩
              · rintro ⟨_, _, ⟨_, hl, rfl⟩, ho, rfl⟩
                cases hl
                cases ho
                rfl

theorem exists_loadsAs {sources : List Source}
    (h : ∀ s ∈ sources, ∃ loaded, s.load OptionName.all = .ok loaded) :
    ∃ layers, List.Forall₂ Source.LoadsAs sources layers := by
  induction sources with
  | nil => exact ⟨[], .nil⟩
  | cons s rest ih =>
      obtain ⟨loaded, hs⟩ := h s List.mem_cons_self
      obtain ⟨layers, hl⟩ := ih fun t ht => h t (List.mem_cons_of_mem _ ht)
      exact ⟨_, .cons ⟨loaded, hs, rfl⟩ hl⟩

theorem resolve_eq_ok_iff {registry : Registry} {sources : List Source} {snapshot : Snapshot} :
    (registry.resolve sources).result = .ok snapshot ↔
      ∃ layers, List.Forall₂ Source.LoadsAs sources layers ∧ snapshot = registry.settle layers := by
  simp only [Registry.resolve, ← loadAll_eq_ok_iff]
  cases (loadAll sources).1 with
  | error e => simp
  | ok layers => simp [eq_comm]

/-! ### The source that decides -/

/-- The source loads, and its text for the option, trimmed, is `raw` and not blank. -/
def Source.Supplies (s : Source) (n : OptionName) (raw : String) : Prop :=
  ∃ loaded text, s.load OptionName.all = .ok loaded ∧ loaded.values n = some text ∧
    raw = Text.trim text ∧ raw ≠ ""

/-- The first of the sources that supplies the option, and its text. -/
def Decides (sources : List Source) (n : OptionName) (s : Source) (raw : String) : Prop :=
  ∃ before after, sources = before ++ s :: after ∧ s.Supplies n raw ∧
    ∀ b ∈ before, ∀ r, ¬ b.Supplies n r

/-- No source supplies the option. -/
def Undecided (sources : List Source) (n : OptionName) : Prop :=
  ∀ s ∈ sources, ∀ raw, ¬ s.Supplies n raw

theorem decides_cons_iff {s t : Source} {sources : List Source} {n : OptionName} {raw : String} :
    Decides (t :: sources) n s raw ↔
      (s = t ∧ t.Supplies n raw) ∨ ((∀ r, ¬ t.Supplies n r) ∧ Decides sources n s raw) := by
  constructor
  · rintro ⟨before, after, he, hs, hb⟩
    cases before with
    | nil =>
        obtain ⟨rfl, _⟩ := List.cons.inj he
        exact .inl ⟨rfl, hs⟩
    | cons b before =>
        obtain ⟨rfl, rfl⟩ := List.cons.inj he
        exact .inr ⟨hb t List.mem_cons_self, before, after, rfl, hs,
          fun c hc => hb c (List.mem_cons_of_mem _ hc)⟩
  · rintro (⟨rfl, hs⟩ | ⟨ht, before, after, rfl, hs, hb⟩)
    · exact ⟨[], sources, rfl, hs, by simp⟩
    · refine ⟨t :: before, after, rfl, hs, fun c hc => ?_⟩
      rcases List.mem_cons.mp hc with rfl | hc
      · exact ht
      · exact hb c hc

theorem undecided_cons_iff {t : Source} {sources : List Source} {n : OptionName} :
    Undecided (t :: sources) n ↔ (∀ r, ¬ t.Supplies n r) ∧ Undecided sources n := by
  simp [Undecided]

theorem undecided_append_iff {above below : List Source} {n : OptionName} :
    Undecided (above ++ below) n ↔ Undecided above n ∧ Undecided below n := by
  unfold Undecided
  exact List.forall_mem_append

theorem decides_append_iff {above below : List Source} {n : OptionName} {s : Source}
    {raw : String} : Decides (above ++ below) n s raw ↔
      Decides above n s raw ∨ (Undecided above n ∧ Decides below n s raw) := by
  induction above with
  | nil => simp [Decides, Undecided]
  | cons t above ih =>
      rw [List.cons_append, decides_cons_iff, decides_cons_iff, undecided_cons_iff, ih]
      tauto

/-- The text of a layer for an option, trimmed, unless it is blank. -/
def Layer.text? (layer : Layer) (n : OptionName) : Option String :=
  ((layer.values n).map Text.trim).bind fun raw => if raw = "" then none else some raw

theorem supplied?_cons (layer : Layer) (layers : List Layer) (n : OptionName) :
    supplied? (layer :: layers) n =
      match layer.text? n with
      | some raw => some (layer.source, raw)
      | none => supplied? layers n := by
  rw [supplied?, List.findSome?_cons, Layer.text?]
  cases (layer.values n).map Text.trim with
  | none => rfl
  | some raw =>
      simp only [Option.bind_some]
      split <;> simp_all [supplied?]

theorem supplies_iff {s : Source} {layer : Layer} (h : s.LoadsAs layer) {n : OptionName}
    {raw : String} : s.Supplies n raw ↔ layer.text? n = some raw := by
  obtain ⟨loaded, hs, rfl⟩ := h
  simp only [Source.Supplies, Layer.text?, hs, Except.ok.injEq]
  constructor
  · rintro ⟨_, text, rfl, ht, rfl, hne⟩
    simp [ht, hne]
  · intro h
    obtain ⟨r, hr, h⟩ := Option.bind_eq_some_iff.mp h
    obtain ⟨text, ht, rfl⟩ := Option.map_eq_some_iff.mp hr
    split at h
    · cases h
    · next hne => exact ⟨loaded, text, rfl, ht, (Option.some.inj h).symm, Option.some.inj h ▸ hne⟩

/-- **The layers agree with the sources on what decides an option.** -/
theorem supplied?_spec {sources : List Source} {layers : List Layer}
    (h : List.Forall₂ Source.LoadsAs sources layers) (n : OptionName) :
    match supplied? layers n with
    | none => Undecided sources n
    | some (source, raw) => ∃ s, Decides sources n s raw ∧ s.name = source := by
  induction h with
  | nil => simp [supplied?, Undecided]
  | @cons s layer sources layers hs hrest ih =>
      rw [supplied?_cons]
      cases ht : layer.text? n with
      | some raw =>
          have hname : s.name = layer.source := by
            obtain ⟨_, _, rfl⟩ := hs
            rfl
          exact ⟨s, decides_cons_iff.mpr (.inl ⟨rfl, (supplies_iff hs).mpr ht⟩), hname⟩
      | none =>
          have hsilent : ∀ r, ¬ s.Supplies n r := by
            intro r hr
            rw [supplies_iff hs, ht] at hr
            cases hr
          cases hd : supplied? layers n with
          | none =>
              rw [hd] at ih
              exact undecided_cons_iff.mpr ⟨hsilent, ih⟩
          | some p =>
              rw [hd] at ih
              obtain ⟨t, ht, hname⟩ := ih
              exact ⟨t, decides_cons_iff.mpr (.inr ⟨hsilent, ht⟩), hname⟩

theorem Undecided.not_decides {sources : List Source} {n : OptionName} (h : Undecided sources n)
    (s : Source) (raw : String) : ¬ Decides sources n s raw := by
  rintro ⟨before, after, rfl, hs, _⟩
  exact h s (by simp) raw hs

theorem Source.Supplies.unique {s : Source} {n : OptionName} {raw raw' : String}
    (h : s.Supplies n raw) (h' : s.Supplies n raw') : raw = raw' := by
  obtain ⟨loaded, text, hl, ht, rfl, _⟩ := h
  obtain ⟨loaded', text', hl', ht', rfl, _⟩ := h'
  rw [hl] at hl'
  cases hl'
  rw [ht] at ht'
  cases ht'
  rfl

theorem Decides.unique {sources : List Source} {n : OptionName} {s s' : Source}
    {raw raw' : String} (h : Decides sources n s raw) (h' : Decides sources n s' raw') :
    s = s' ∧ raw = raw' := by
  induction sources with
  | nil =>
      obtain ⟨before, after, he, _⟩ := h
      simp at he
  | cons t sources ih =>
      rcases decides_cons_iff.mp h with ⟨rfl, hs⟩ | ⟨hn, h⟩
      · rcases decides_cons_iff.mp h' with ⟨rfl, hs'⟩ | ⟨hn, _⟩
        · exact ⟨rfl, hs.unique hs'⟩
        · exact absurd hs (hn _)
      · rcases decides_cons_iff.mp h' with ⟨rfl, hs'⟩ | ⟨_, h'⟩
        · exact absurd hs' (hn _)
        · exact ih h h'

/-! ### The setting of an option -/

/-- The outcomes for an option: no source decides; the text that decides is read; it is not. -/
inductive Registry.Settles (registry : Registry) (sources : List Source) (n : OptionName) :
    Setting → Prop
  | defaulted : Undecided sources n →
      registry.Settles sources n (.defaulted (registry.spec n).default)
  | supplied {s : Source} {raw : String} {value : OptionValue} : Decides sources n s raw →
      (registry.spec n).read raw = .ok value →
      registry.Settles sources n (.supplied value s.name)
  | rejected {s : Source} {raw : String} {error : ReadError} : Decides sources n s raw →
      (registry.spec n).read raw = .error error →
      registry.Settles sources n
        (.rejected (registry.spec n).default ⟨s.name, raw, error⟩)

theorem Registry.Settles.unique {registry : Registry} {sources : List Source} {n : OptionName}
    {setting setting' : Setting} (h : registry.Settles sources n setting)
    (h' : registry.Settles sources n setting') : setting = setting' := by
  cases h with
  | defaulted hu =>
      cases h' with
      | defaulted _ => rfl
      | supplied hd _ => exact absurd hd (hu.not_decides _ _)
      | rejected hd _ => exact absurd hd (hu.not_decides _ _)
  | supplied hd hr =>
      cases h' with
      | defaulted hu => exact absurd hd (hu.not_decides _ _)
      | supplied hd' hr' =>
          obtain ⟨rfl, rfl⟩ := hd.unique hd'
          rw [hr] at hr'
          cases hr'
          rfl
      | rejected hd' hr' =>
          obtain ⟨rfl, rfl⟩ := hd.unique hd'
          rw [hr] at hr'
          cases hr'
  | rejected hd hr =>
      cases h' with
      | defaulted hu => exact absurd hd (hu.not_decides _ _)
      | supplied hd' hr' =>
          obtain ⟨rfl, rfl⟩ := hd.unique hd'
          rw [hr] at hr'
          cases hr'
      | rejected hd' hr' =>
          obtain ⟨rfl, rfl⟩ := hd.unique hd'
          rw [hr] at hr'
          cases hr'
          rfl

theorem settles_setting {registry : Registry} {sources : List Source} {layers : List Layer}
    (h : List.Forall₂ Source.LoadsAs sources layers) (n : OptionName) :
    registry.Settles sources n ((registry.settle layers).setting n) := by
  have hspec := supplied?_spec h n
  simp only [Registry.settle]
  cases hc : supplied? layers n with
  | none =>
      rw [hc] at hspec
      exact .defaulted hspec
  | some choice =>
      obtain ⟨source, raw⟩ := choice
      rw [hc] at hspec
      obtain ⟨s, hd, rfl⟩ := hspec
      simp only [Setting.ofChoice]
      cases hr : (registry.spec n).read raw with
      | ok value => exact .supplied hd hr
      | error error => exact .rejected hd hr

/-- The rules allow one setting for an option, the one that the snapshot has. -/
theorem settles_iff {registry : Registry} {sources : List Source} {snapshot : Snapshot}
    (h : (registry.resolve sources).result = .ok snapshot) {n : OptionName} {setting : Setting} :
    registry.Settles sources n setting ↔ setting = snapshot.setting n := by
  obtain ⟨layers, hl, rfl⟩ := resolve_eq_ok_iff.mp h
  constructor
  · intro hs
    exact hs.unique (settles_setting hl n)
  · rintro rfl
    exact settles_setting hl n

/-! ### The lists of a snapshot -/

/-- The entries of the snapshot for an option are those of the setting. -/
def Snapshot.Holds (s : Snapshot) (n : OptionName) (setting : Setting) : Prop :=
  s.values.filter (fun p => p.1 = n) = [(n, setting.value)] ∧
    s.origins.filter (fun p => p.1 = n) = setting.origin?.toList.map (n, ·) ∧
    s.rejections.filter (fun p => p.1 = n) = setting.rejection?.toList.map (n, ·)

theorem holds_setting (s : Snapshot) (n : OptionName) : s.Holds n (s.setting n) := by
  refine ⟨?_, ?_, ?_⟩
  · have := filter_entries (fun m => some (s.value m)) OptionName.nodup_all (OptionName.mem_all n)
    simpa [Snapshot.values, Snapshot.value] using this
  · exact filter_entries s.origin? OptionName.nodup_all (OptionName.mem_all n)
  · exact filter_entries s.rejection? OptionName.nodup_all (OptionName.mem_all n)

/-! ### Settling entry by entry -/

/-- The entries of a map, in declared order. -/
def inOrder {α : Type} (f : OptionName → Option α) : List (OptionName × α) :=
  OptionName.all.filterMap fun n => (f n).map (n, ·)

/-- What has been collected while the options are settled one after another: a map of values, one of
origins, and the refused texts. -/
@[ext]
structure Collected where
  values : OptionName → Option OptionValue
  origins : OptionName → Option String
  rejections : List (OptionName × Rejection)
  events : List Event

namespace Collected

/-- Settles the option of an entry and adds what comes of it. -/
def add (layers : List Layer) (c : Collected) (e : Registry.Entry) : Collected :=
  match supplied? layers e.1 with
  | none =>
    { c with
      values := Function.update c.values e.1 (some e.2.default)
      events := c.events ++ [.notSupplied e.1] }
  | some (source, raw) =>
    match e.2.read raw with
    | .ok value =>
      { c with
        values := Function.update c.values e.1 (some value)
        origins := Function.update c.origins e.1 (some source)
        events := c.events ++ (e.2.warnings raw ++ [.resolved e.1 source raw]) }
    | .error error =>
      { c with
        values := Function.update c.values e.1 (some e.2.default)
        rejections := c.rejections ++ [(e.1, ⟨source, raw, error⟩)]
        events := c.events ++ (e.2.warnings raw ++ [.invalidValue e.1 source raw error]) }

/-- What is collected when some of the options have been settled. -/
def after (registry : Registry) (layers : List Layer) (settled : List OptionName) : Collected where
  values n := if n ∈ settled then some ((registry.settle layers).value n) else none
  origins n := if n ∈ settled then (registry.settle layers).origin? n else none
  rejections := settled.filterMap fun n =>
    ((registry.settle layers).rejection? n).map (n, ·)
  events := settled.flatMap fun n =>
    Setting.events n (registry.spec n) (supplied? layers n)

end Collected

/-- Settles the entries of a registry in order. -/
def Registry.collect (registry : Registry) (layers : List Layer) : Collected :=
  registry.entries.foldl (Collected.add layers) ⟨fun _ => none, fun _ => none, [], []⟩

section collect

variable (registry : Registry) (layers : List Layer)

theorem update_restrict {α : Type} (f : OptionName → Option α) (settled : List OptionName)
    (n : OptionName) :
    Function.update (fun m => if m ∈ settled then f m else none) n (f n) =
      fun m => if m ∈ settled ++ [n] then f m else none := by
  funext m
  rw [Function.update_apply]
  by_cases hm : m = n
  · simp [hm]
  · simp [hm]

theorem Collected.after_concat (settled : List OptionName) (n : OptionName) :
    after registry layers (settled ++ [n]) =
      let setting := (registry.settle layers).setting n
      { values := Function.update (after registry layers settled).values n (some setting.value)
        origins := Function.update (after registry layers settled).origins n setting.origin?
        rejections :=
          (after registry layers settled).rejections ++ (setting.rejection?.map (n, ·)).toList
        events := (after registry layers settled).events ++
          Setting.events n (registry.spec n) (supplied? layers n) } := by
  apply Collected.ext
  · exact (update_restrict (fun m => some ((registry.settle layers).value m)) settled n).symm
  · exact (update_restrict (registry.settle layers).origin? settled n).symm
  · cases h : ((registry.settle layers).setting n).rejection? with
    | none => simp [after, Snapshot.rejection?, h]
    | some r => simp [after, Snapshot.rejection?, h]
  · simp [after]

theorem Collected.update_origins_after {n : OptionName}
    (h : (registry.settle layers).origin? n = none) (settled : List OptionName) :
    Function.update (after registry layers settled).origins n none =
      (after registry layers settled).origins := by
  refine Function.update_eq_self_iff.mpr ?_
  simp only [after, h, ite_self]

/-- One step of the loop settles one more option. -/
theorem Collected.add_after (settled : List OptionName) (n : OptionName) :
    (after registry layers settled).add layers (n, registry.spec n) =
      after registry layers (settled ++ [n]) := by
  have hsetting : (registry.settle layers).setting n =
      .ofChoice (registry.spec n) (supplied? layers n) := rfl
  have hsilent := update_origins_after registry layers (n := n)
  rw [after_concat, add]
  simp only [Snapshot.origin?, hsetting] at hsilent ⊢
  cases hc : supplied? layers n with
  | none =>
      simp only [hc, Setting.ofChoice, Setting.origin?] at hsilent
      simp [Setting.ofChoice, Setting.value, Setting.origin?, Setting.rejection?, Setting.events,
        hsilent]
  | some choice =>
      cases hr : (registry.spec n).read choice.2 with
      | ok value =>
          simp [Setting.ofChoice, Setting.value, Setting.origin?, Setting.rejection?,
            Setting.events, hr]
      | error error =>
          simp only [hc, Setting.ofChoice, hr, Setting.origin?] at hsilent
          simp [Setting.ofChoice, Setting.value, Setting.origin?, Setting.rejection?,
            Setting.events, hr, hsilent]

theorem collect_eq_after :
    registry.collect layers = Collected.after registry layers OptionName.all := by
  have hrun : ∀ names settled : List OptionName,
      (names.map fun n => (n, registry.spec n)).foldl (Collected.add layers)
        (Collected.after registry layers settled) =
      Collected.after registry layers (settled ++ names) := by
    intro names
    induction names with
    | nil =>
        intro settled
        rw [List.map_nil, List.foldl_nil, List.append_nil]
    | cons n names ih =>
        intro settled
        rw [List.map_cons, List.foldl_cons, Collected.add_after, ih, List.append_assoc,
          List.singleton_append]
  exact hrun OptionName.all []

/-- **The loop over the entries gives the snapshot**: its maps, read in declared order, are the
values and the origins, its list the refused texts, and its events those of settling. -/
theorem collect_settles :
    inOrder (registry.collect layers).values = (registry.settle layers).values ∧
      inOrder (registry.collect layers).origins = (registry.settle layers).origins ∧
      (registry.collect layers).rejections = (registry.settle layers).rejections ∧
      (registry.collect layers).events = registry.settleEvents layers := by
  rw [collect_eq_after]
  refine ⟨?_, ?_, rfl, rfl⟩
  · simp [Collected.after, inOrder, Snapshot.values, OptionName.mem_all]
  · simp [Collected.after, inOrder, Snapshot.origins, OptionName.mem_all]

end collect

/-- **Resolution settles every option in exactly one way.**  The values, origins and refused
texts of the snapshot are those of the one setting that the rules allow, and the refused texts
come in declared order. -/
theorem resolve_settles_each_option (registry : Registry) (sources : List Source)
    (h : ∀ s ∈ sources, ∃ loaded, s.load OptionName.all = .ok loaded) :
    ∃ snapshot, (registry.resolve sources).result = .ok snapshot ∧
      (∀ n, ∃ setting, registry.Settles sources n setting ∧ snapshot.Holds n setting ∧
        ∀ other, registry.Settles sources n other → other = setting) ∧
      snapshot.rejections.Pairwise fun p q =>
        OptionName.all.idxOf p.1 < OptionName.all.idxOf q.1 := by
  obtain ⟨layers, hl⟩ := exists_loadsAs h
  have hr : (registry.resolve sources).result = .ok (registry.settle layers) :=
    resolve_eq_ok_iff.mpr ⟨layers, hl, rfl⟩
  refine ⟨_, hr, fun n => ?_, pairwise_entries _ OptionName.nodup_all⟩
  exact ⟨_, (settles_iff hr).mpr rfl, holds_setting _ n, fun other => (settles_iff hr).mp⟩

/-- A blank text above one that is no number, above one that is. -/
def blankOverInvalidOverValid : List Source :=
  [.overrides ⟨"high", [(.transactionSampleRate, "  ")]⟩,
    .overrides ⟨"middle", [(.transactionSampleRate, " lots ")]⟩,
    .environment [("ELASTIC_OTEL_TRANSACTION_SAMPLE_RATE", .text "0.25")]]

theorem loads_blankOverInvalidOverValid :
    ∀ s ∈ blankOverInvalidOverValid, ∃ loaded, s.load OptionName.all = .ok loaded := by
  simp [blankOverInvalidOverValid, Source.overrides, Source.environment]

/-- The blank text is passed over, the one that is no number is refused, and the number below it is
not asked for. -/
theorem resolve_settles_blank_over_invalid_over_valid :
    (∀ s ∈ blankOverInvalidOverValid, ∃ loaded, s.load OptionName.all = .ok loaded) ∧
      ∃ snapshot, (Registry.builtin.resolve blankOverInvalidOverValid).result = .ok snapshot ∧
        (∀ n, ∃ setting, Registry.builtin.Settles blankOverInvalidOverValid n setting ∧
          snapshot.Holds n setting ∧
          ∀ other, Registry.builtin.Settles blankOverInvalidOverValid n other → other = setting) ∧
        (snapshot.rejections.Pairwise fun p q =>
          OptionName.all.idxOf p.1 < OptionName.all.idxOf q.1) ∧
        Registry.builtin.Settles blankOverInvalidOverValid .transactionSampleRate
          (.rejected (.float (.ofNat 1)) ⟨"middle", "lots", .notFinite "lots"⟩) ∧
        snapshot.rejections =
          [(.transactionSampleRate, ⟨"middle", "lots", .notFinite "lots"⟩)] ∧
        snapshot.origins = [] ∧ snapshot.value .transactionSampleRate = .float (.ofNat 1) := by
  obtain ⟨snapshot, hr, heach, horder⟩ :=
    resolve_settles_each_option Registry.builtin _ loads_blankOverInvalidOverValid
  refine ⟨loads_blankOverInvalidOverValid, snapshot, hr, heach, horder, ?_⟩
  rw [settles_iff hr]
  cases hr
  decide +kernel

end AgentOptions
