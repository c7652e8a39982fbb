import AgentOptions.Proofs.ListText
import AgentOptions.Proofs.Loading

/-! # The warnings of a resolution

A resolution warns of everything that it drops: of variables that are no text (`Source.Drops`),
of a text that decides an option and is no value of it, and of the pieces of a deciding label text
that bind nothing (`Labels.unbound`).  `Registry.Warns` says which warnings an option causes, by the
source that decides it; what the sources below that one hold makes no difference (`Warns.upper`).

Main statement: `resolve_warns_of_what_is_dropped`. -/

namespace AgentOptions

/-! ### Warnings -/

/-- What a warning says in the log. -/
structure Warning where
  message : String
  fields : List (String × FieldValue)
  deriving DecidableEq

namespace Warning

def undecodable (n : OptionName) : Warning :=
  ⟨"ignoring environment variable that is not valid UTF-8", [("var", .text n.variableName)]⟩

def invalid (n : OptionName) (source raw : String) (error : ReadError) : Warning :=
  ⟨"invalid option value, falling back to default",
    [("option", .text n.text), ("source", .text source), ("raw", .text raw),
      ("error", .text error.message)]⟩

def unbound (piece : String) : Warning :=
  ⟨"dropping malformed label (expected `key=value`)", [("entry", .text piece)]⟩

end Warning

/-- The warning that an event is, if it is one. -/
def Event.warning? (e : Event) : Option Warning :=
  if e.urgency = .warn then some ⟨e.message, e.fields⟩ else none

/-- The refused text that an event tells of. -/
def Event.rejection? : Event → Option (OptionName × Rejection)
  | invalidValue n source raw error => some (n, ⟨source, raw, error⟩)
  | _ => none

namespace Resolution

def warnings (r : Resolution) : List Warning := r.events.filterMap Event.warning?

/-- The refused texts that the events tell of. -/
def reported (r : Resolution) : List (OptionName × Rejection) := r.events.filterMap Event.rejection?

end Resolution

theorem Event.rejection?_of_not_isSettling {e : Event} (h : ¬ e.IsSettling) :
    e.rejection? = none := by
  cases e with
  | invalidValue n source raw error => exact absurd trivial h
  | _ => rfl

/-- A function that keeps some of the entries and changes them in one way. -/
theorem filterMap_eq_map_filter {α β : Type} {g : α → Option β} {p : α → Bool} {f : α → β}
    (h : ∀ a, g a = if p a then some (f a) else none) (l : List α) :
    l.filterMap g = (l.filter p).map f := by
  rw [← List.filterMap_eq_filter, List.map_filterMap]
  congr 1
  funext a
  rw [h a]
  cases hp : p a with
  | false => simp [Option.guard, hp]
  | true => simp [Option.guard, hp]

/-! ### Labels -/

namespace Labels

/-- The piece is not empty, and has no `=` or nothing but blanks before the first. -/
def BindsNothing (piece : String) : Prop :=
  piece ≠ "" ∧ ('=' ∉ piece.toList ∨ ∀ c ∈ piece.toList.takeWhile (· ≠ '='), Text.isBlank c)

instance : DecidablePred BindsNothing := fun piece =>
  inferInstanceAs (Decidable (piece ≠ "" ∧
    ('=' ∉ piece.toList ∨ ∀ c ∈ piece.toList.takeWhile (· ≠ '='), Text.isBlank c)))

/-- The trimmed pieces between commas that bind nothing, in text order. -/
def unbound (raw : String) : List String := (Text.commaPieces raw).filter (BindsNothing ·)

theorem takeWhile_of_cutAt {s before after : List Char}
    (h : Text.cutAt '=' s = some (before, after)) : s.takeWhile (· ≠ '=') = before := by
  obtain ⟨rfl, hmark⟩ := Text.cutAt_eq_some_iff.mp h
  have hbefore : ∀ c ∈ before, (decide (c ≠ '=')) = true := by
    intro c hc
    exact decide_eq_true fun he => hmark (he ▸ hc)
  rw [List.takeWhile_append_of_pos hbefore]
  simp

theorem warning?_entryOf (piece : String) :
    (entryOf piece).warning? =
      if BindsNothing piece then some (.malformedLabel piece) else none := by
  unfold entryOf
  split
  · next hempty =>
    rw [if_neg fun h => h.1 hempty]
    rfl
  · next hne =>
    split
    · next hcut =>
      rw [if_pos ⟨hne, .inl (Text.cutAt_eq_none_iff.mp hcut)⟩]
      rfl
    · next key value hcut =>
      have hmark : '=' ∈ piece.toList := by
        rw [(Text.cutAt_eq_some_iff.mp hcut).1]
        simp
      have hkey := takeWhile_of_cutAt hcut
      split
      · next hblank =>
        rw [if_pos ⟨hne, .inr (hkey ▸ Text.trimChars_eq_nil_iff.mp hblank)⟩]
        rfl
      · next hblank =>
        rw [if_neg]
        · rfl
        · rintro ⟨-, hno | hall⟩
          · exact hno hmark
          · exact hblank (Text.trimChars_eq_nil_iff.mpr (hkey ▸ hall))

theorem warnings_eq_map_unbound (raw : String) :
    warnings raw = (unbound raw).map .malformedLabel := by
  rw [warnings, entries, List.filterMap_map]
  refine filterMap_eq_map_filter (fun piece => ?_) (Text.commaPieces raw)
  simp [warning?_entryOf]

theorem filterMap_warnings (raw : String) :
    (warnings raw).filterMap Event.warning? = (unbound raw).map .unbound := by
  have hwarn : Event.warning? ∘ Event.malformedLabel = some ∘ Warning.unbound := rfl
  rw [warnings_eq_map_unbound, List.filterMap_map, hwarn, List.filterMap_eq_map]

end Labels

/-! ### Variables -/

/-- The variable of the option is set, to what is no text. -/
def Environment.isUndecodable (env : Environment) (n : OptionName) : Bool :=
  (env.get? n.variableName).any fun content => content.text?.isNone

/-- What a source that comes with the program drops when it is loaded: an environment the options
whose variable is set to what is no text, in declared order, and other sources nothing. -/
inductive Source.Drops : Source → List OptionName → Prop
  | overrides (o : Overrides) : Drops (.overrides o) []
  | environment (env : Environment) :
      Drops (.environment env) (OptionName.all.filter env.isUndecodable)
  | file (path : String) (content : FileContent) : Drops (.file path content) []

theorem Environment.filterMap_warnings (env : Environment) (requested : List OptionName) :
    (env.warnings requested).filterMap Event.warning? =
      (requested.filter env.isUndecodable).map .undecodable := by
  rw [warnings, List.filterMap_filterMap]
  refine filterMap_eq_map_filter (fun n => ?_) requested
  unfold isUndecodable
  cases env.get? n.variableName with
  | none => rfl
  | some content =>
      cases content with
      | text s => rfl
      | bytes b => rfl

theorem Source.Drops.warnings_loadEvents {s : Source} {dropped : List OptionName}
    (h : s.Drops dropped) : s.loadEvents.filterMap Event.warning? = dropped.map .undecodable := by
  have hdone : ∀ name count, (Event.sourceLoaded name count).warning? = none := fun _ _ => rfl
  unfold loadEvents
  cases h with
  | overrides o => rfl
  | environment env =>
      simp only [Source.environment, List.filterMap_append, Environment.filterMap_warnings,
        List.filterMap_cons, hdone, List.filterMap_nil, List.append_nil]
  | file path content =>
      cases ha : content.assignments path with
      | error cause => simp [load_file_of_error ha]
      | ok assignments =>
          have hkeys : ((unknownKeys OptionName.all assignments).map
              (Event.unknownKey · path)).filterMap Event.warning? = [] := by
            rw [List.filterMap_map]
            exact List.filterMap_eq_nil_iff.mpr fun _ _ => rfl
          simp only [load_file ha, List.filterMap_append, hkeys, List.filterMap_cons, hdone,
            List.filterMap_nil, List.append_nil, List.map_nil]

/-! ### Options -/

/-- The warnings that an option causes: none if no source supplies it; one if the text that decides
is no value; one for each piece of a label text that binds nothing; none for any other value. -/
inductive Registry.Warns (registry : Registry) (sources : List Source) (n : OptionName) :
    List Warning → Prop
  | undecided : Undecided sources n → registry.Warns sources n []
  | invalid {s : Source} {raw : String} {error : ReadError} : Decides sources n s raw →
      (registry.spec n).read raw = .error error →
      registry.Warns sources n [.invalid n s.name raw error]
  | labels {s : Source} {raw : String} : Decides sources n s raw → registry.spec n = .labels →
      registry.Warns sources n ((Labels.unbound raw).map .unbound)
  | value {s : Source} {raw : String} {value : OptionValue} : Decides sources n s raw →
      registry.spec n ≠ .labels → (registry.spec n).read raw = .ok value →
      registry.Warns sources n []

namespace OptionSpec

theorem warnings_of_ne_labels {spec : OptionSpec} (h : spec ≠ .labels) (raw : String) :
    spec.warnings raw = [] := by
  cases spec with
  | labels => exact absurd rfl h
  | _ => rfl

theorem ne_labels_of_read_eq_error {spec : OptionSpec} {raw : String} {error : ReadError}
    (h : spec.read raw = .error error) : spec ≠ .labels := by
  rintro rfl
  cases h

end OptionSpec

namespace Registry.Warns

variable {registry : Registry} {sources : List Source} {n : OptionName}
  {lines lines' : List Warning}

theorem unique (h : registry.Warns sources n lines) (h' : registry.Warns sources n lines') :
    lines = lines' := by
  cases h with
  | undecided hu =>
      cases h' with
      | undecided _ => rfl
      | invalid hd _ => exact absurd hd (hu.not_decides _ _)
      | labels hd _ => exact absurd hd (hu.not_decides _ _)
      | value hd _ _ => rfl
  | invalid hd hr =>
      cases h' with
      | undecided hu => exact absurd hd (hu.not_decides _ _)
      | invalid hd' hr' =>
          obtain ⟨rfl, rfl⟩ := hd.unique hd'
          rw [hr] at hr'
          cases hr'
          rfl
      | labels _ hl => exact absurd hl (OptionSpec.ne_labels_of_read_eq_error hr)
      | value hd' _ hr' =>
          obtain ⟨rfl, rfl⟩ := hd.unique hd'
          rw [hr] at hr'
          cases hr'
  | labels hd hl =>
      cases h' with
      | undecided hu => exact absurd hd (hu.not_decides _ _)
      | invalid _ hr => exact absurd hl (OptionSpec.ne_labels_of_read_eq_error hr)
      | labels hd' _ =>
          obtain ⟨rfl, rfl⟩ := hd.unique hd'
          rfl
      | value _ hne _ => exact absurd hl hne
  | value hd hne hr =>
      cases h' with
      | undecided _ => rfl
      | invalid hd' hr' =>
          obtain ⟨rfl, rfl⟩ := hd.unique hd'
          rw [hr] at hr'
          cases hr'
      | labels _ hl => exact absurd hl hne
      | value _ _ _ => rfl

/-- What the sources below one that supplies the option hold makes no difference. -/
theorem upper {above below : List Source} (h : registry.Warns (above ++ below) n lines)
    (hs : ¬ Undecided above n) : registry.Warns above n lines := by
  have habove : ∀ {s raw}, Decides (above ++ below) n s raw → Decides above n s raw := fun hd =>
    (decides_append_iff.mp hd).resolve_right fun hbelow => hs hbelow.1
  cases h with
  | undecided hu => exact absurd (undecided_append_iff.mp hu).1 hs
  | invalid hd hr => exact .invalid (habove hd) hr
  | labels hd hl => exact .labels (habove hd) hl
  | value hd hne hr => exact .value (habove hd) hne hr

end Registry.Warns

/-- The warnings among the events of settling an option. -/
def Setting.warnings (n : OptionName) (spec : OptionSpec) (choice : Option (String × String)) :
    List Warning :=
  (Setting.events n spec choice).filterMap Event.warning?

/-- Settling an option causes the warnings that the rules allow. -/
theorem warns_setting {registry : Registry} {sources : List Source} {layers : List Layer}
    (h : List.Forall₂ Source.LoadsAs sources layers) (n : OptionName) :
    registry.Warns sources n (Setting.warnings n (registry.spec n) (supplied? layers n)) := by
  have hspec := supplied?_spec h n
  unfold Setting.warnings
  cases hc : supplied? layers n with
  | none =>
      rw [hc] at hspec
      exact .undecided hspec
  | some choice =>
      obtain ⟨source, raw⟩ := choice
      rw [hc] at hspec
      obtain ⟨s, hd, rfl⟩ := hspec
      simp only [Setting.events, List.filterMap_append]
      cases hr : (registry.spec n).read raw with
      | error error =>
          rw [OptionSpec.warnings_of_ne_labels (OptionSpec.ne_labels_of_read_eq_error hr)]
          exact .invalid hd hr
      | ok value =>
          by_cases hl : registry.spec n = .labels
          · have hdrop : ((registry.spec n).warnings raw).filterMap Event.warning? =
                (Labels.unbound raw).map .unbound := by
              rw [hl]
              exact Labels.filterMap_warnings raw
            have hdone : (Event.resolved n s.name raw).warning? = none := rfl
            simp only [hdrop, List.filterMap_cons, hdone, List.filterMap_nil, List.append_nil]
            exact .labels hd hl
          · rw [OptionSpec.warnings_of_ne_labels hl]
            exact .value hd hl hr

/-- The refused text among the events of settling an option is that of the setting. -/
theorem Setting.reported_events (n : OptionName) (spec : OptionSpec)
    (choice : Option (String × String)) :
    (Setting.events n spec choice).filterMap Event.rejection? =
      ((Setting.ofChoice spec choice).rejection?.map (n, ·)).toList := by
  cases choice with
  | none => rfl
  | some choice =>
      obtain ⟨source, raw⟩ := choice
      have hlabels : (spec.warnings raw).filterMap Event.rejection? = [] := by
        cases spec with
        | labels =>
            rw [OptionSpec.warnings, Labels.warnings_eq_map_unbound, List.filterMap_map]
            exact List.filterMap_eq_nil_iff.mpr fun _ _ => rfl
        | _ => rfl
      simp only [Setting.events, Setting.ofChoice, List.filterMap_append, hlabels, List.nil_append]
      cases spec.read raw with
      | ok value => rfl
      | error error => rfl

/-! ### Resolution -/

theorem events_resolve (registry : Registry) {sources : List Source} {layers : List Layer}
    (h : List.Forall₂ Source.LoadsAs sources layers) :
    (registry.resolve sources).events =
      .resolving sources.length :: sources.flatMap Source.loadEvents ++
        registry.settleEvents layers ++
        [.resolutionDone (registry.settle layers).origins.length
          (registry.settle layers).rejections.length] := by
  have hload := events_loadAll_append (loads_of_forall₂ h) []
  rw [List.append_nil] at hload
  unfold Registry.resolve
  simp only [loadAll_eq_ok_iff.mpr h, hload]
  simp [loadAll]

theorem warnings_resolve (registry : Registry) {sources : List Source} {layers : List Layer}
    (h : List.Forall₂ Source.LoadsAs sources layers) :
    (registry.resolve sources).warnings =
      (sources.flatMap fun s => s.loadEvents.filterMap Event.warning?) ++
        OptionName.all.flatMap fun n =>
          Setting.warnings n (registry.spec n) (supplied? layers n) := by
  have hstart : (Event.resolving sources.length).warning? = none := rfl
  have hdone : ∀ a b, (Event.resolutionDone a b).warning? = none := fun _ _ => rfl
  rw [Resolution.warnings, events_resolve registry h, Registry.settleEvents]
  simp only [List.cons_append, List.filterMap_cons, List.filterMap_append, List.filterMap_nil,
    hstart, hdone, List.append_nil, List.filterMap_flatMap]
  rfl

theorem reported_resolve (registry : Registry) {sources : List Source} {layers : List Layer}
    (h : List.Forall₂ Source.LoadsAs sources layers) :
    (registry.resolve sources).reported = (registry.settle layers).rejections := by
  have hload : (.resolving sources.length :: sources.flatMap Source.loadEvents).filterMap
      Event.rejection? = [] :=
    List.filterMap_eq_nil_iff.mpr fun e he =>
      Event.rejection?_of_not_isSettling (not_isSettling_of_mem_loading he)
  have hdone : ∀ a b, (Event.resolutionDone a b).rejection? = none := fun _ _ => rfl
  rw [Resolution.reported, events_resolve registry h, Registry.settleEvents]
  simp only [List.filterMap_append, hload, List.filterMap_flatMap, Setting.reported_events,
    List.filterMap_cons, hdone, List.filterMap_nil, List.nil_append, List.append_nil]
  exact (List.filterMap_eq_flatMap_toList _ _).symm

/-- **A resolution warns of everything that it drops, once and in order.**  It warns of what is
dropped in loading, source by source, which for overrides, environments and files are the variables
that are no text, and then of what the options cause, in declared order; for an option that is what
the rules allow, and what is shadowed by a source above causes nothing.  The refused texts that the
events tell of are those of the snapshot. -/
theorem resolve_warns_of_what_is_dropped {registry : Registry} {sources : List Source}
    {snapshot : Snapshot} (h : (registry.resolve sources).result = .ok snapshot) :
    (∃ about : OptionName → List Warning,
      (registry.resolve sources).warnings =
        (sources.flatMap fun s => s.loadEvents.filterMap Event.warning?) ++
          OptionName.all.flatMap about ∧
      (∀ n lines, registry.Warns sources n lines ↔ lines = about n) ∧
      ∀ n above below, sources = above ++ below → ¬ Undecided above n →
        registry.Warns above n (about n)) ∧
    (∀ (s : Source) (dropped : List OptionName), s.Drops dropped →
      s.loadEvents.filterMap Event.warning? = dropped.map .undecodable) ∧
    (registry.resolve sources).reported = snapshot.rejections := by
  obtain ⟨layers, hl, rfl⟩ := resolve_eq_ok_iff.mp h
  refine ⟨⟨_, warnings_resolve registry hl, fun n lines => ⟨fun hw => ?_, ?_⟩, ?_⟩,
    fun s dropped hd => hd.warnings_loadEvents, reported_resolve registry hl⟩
  · exact hw.unique (warns_setting hl n)
  · rintro rfl
    exact warns_setting hl n
  · rintro n above below rfl hs
    exact (warns_setting hl n).upper hs

/-- Labels of which two bind nothing and a rate that is no number, above a variable that is no text
and variables that are shadowed. -/
def droppedAboveShadowed : List Source :=
  [.overrides ⟨"high",
      [(.globalLabels, " team=a, novalue,, =x"), (.transactionSampleRate, " lots ")]⟩,
    .environment [("ELASTIC_OTEL_API_KEY", .bytes [0xFF]),
      ("ELASTIC_OTEL_GLOBAL_LABELS", .text "shadowed"),
      ("ELASTIC_OTEL_TRANSACTION_SAMPLE_RATE", .text "shadowed")]]

theorem resolve_warns_of_labels_and_rate :
    ∃ snapshot, (Registry.builtin.resolve droppedAboveShadowed).result = .ok snapshot ∧
      (Registry.builtin.resolve droppedAboveShadowed).warnings =
        [.undecodable .apiKey, .unbound "novalue", .unbound "=x",
          .invalid .transactionSampleRate "high" "lots" (.notFinite "lots")] ∧
      (∃ about : OptionName → List Warning,
        (Registry.builtin.resolve droppedAboveShadowed).warnings =
          (droppedAboveShadowed.flatMap fun s => s.loadEvents.filterMap Event.warning?) ++
            OptionName.all.flatMap about ∧
        (∀ n lines, Registry.builtin.Warns droppedAboveShadowed n lines ↔ lines = about n) ∧
        ∀ n above below, droppedAboveShadowed = above ++ below → ¬ Undecided above n →
          Registry.builtin.Warns above n (about n)) ∧
      (∀ (s : Source) (dropped : List OptionName), s.Drops dropped →
        s.loadEvents.filterMap Event.warning? = dropped.map .undecodable) ∧
      (Registry.builtin.resolve droppedAboveShadowed).reported = snapshot.rejections :=
  ⟨_, rfl, by decide +kernel, resolve_warns_of_what_is_dropped rfl⟩

end AgentOptions
