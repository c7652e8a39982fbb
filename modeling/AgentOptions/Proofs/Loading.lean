import AgentOptions.Proofs.Layering

/-! # Loading the sources of a resolution

Resolution loads every source before it settles any option.  The sources that load leave their
events behind, in order (`Source.loadEvents`, `events_loadAll_append`); the first one that does not
(`FirstUnreadable`) ends the resolution with its error, and neither the sources after it nor the
options are looked at (`resolve_of_firstUnreadable`).

Main statement: `resolve_ends_at_first_unreadable`. -/

namespace AgentOptions

/-! ### One source -/

namespace Source

/-- The source can be loaded. -/
def Loads (s : Source) : Prop := ∃ loaded, s.load OptionName.all = .ok loaded

/-- The events of a source that is loaded. -/
def loadEvents (s : Source) : List Event :=
  match s.load OptionName.all with
  | .ok loaded => loaded.events ++ [.sourceLoaded s.name loaded.values.count]
  | .error _ => []

/-- Overrides set by the program, or variables of an environment. -/
def InMemory (s : Source) : Prop := (∃ o, s = .overrides o) ∨ ∃ env, s = .environment env

theorem InMemory.loads {s : Source} (h : s.InMemory) : s.Loads := by
  obtain ⟨o, rfl⟩ | ⟨env, rfl⟩ := h
  · exact ⟨_, rfl⟩
  · exact ⟨_, rfl⟩

theorem not_loads_iff {s : Source} : ¬ s.Loads ↔ ∃ cause, s.load OptionName.all = .error cause := by
  unfold Loads
  cases s.load OptionName.all with
  | ok loaded => simp
  | error cause => simp

end Source

/-! ### Sources in order -/

theorem loads_of_forall₂ {sources : List Source} {layers : List Layer}
    (h : List.Forall₂ Source.LoadsAs sources layers) : ∀ s ∈ sources, s.Loads := by
  induction h with
  | nil => simp
  | cons hs _ ih =>
      obtain ⟨loaded, hload, -⟩ := hs
      intro t ht
      rcases List.mem_cons.mp ht with rfl | ht
      · exact ⟨loaded, hload⟩
      · exact ih t ht

theorem events_loadAll_cons {s : Source} (h : s.Loads) (rest : List Source) :
    (loadAll (s :: rest)).2 = s.loadEvents ++ (loadAll rest).2 := by
  obtain ⟨loaded, hs⟩ := h
  simp [loadAll, Source.loadEvents, hs]

theorem events_loadAll_append {before : List Source} (h : ∀ b ∈ before, b.Loads)
    (rest : List Source) :
    (loadAll (before ++ rest)).2 = before.flatMap Source.loadEvents ++ (loadAll rest).2 := by
  induction before with
  | nil => rfl
  | cons b before ih =>
      have hrest := ih fun c hc => h c (List.mem_cons_of_mem _ hc)
      rw [List.cons_append, events_loadAll_cons (h b List.mem_cons_self), hrest,
        List.flatMap_cons, List.append_assoc]

/-- `s` is the first of the sources that cannot be loaded. -/
structure FirstUnreadable (sources before : List Source) (s : Source) (after : List Source)
    (cause : SourceError) : Prop where
  eq_append : sources = before ++ s :: after
  loads_before : ∀ b ∈ before, b.Loads
  load_eq : s.load OptionName.all = .error cause

namespace FirstUnreadable

variable {sources before after : List Source} {s : Source} {cause : SourceError}

theorem mem (h : FirstUnreadable sources before s after cause) : s ∈ sources := by
  rw [h.eq_append]
  exact List.mem_append_right before List.mem_cons_self

theorem cons {b : Source} (hb : b.Loads) (h : FirstUnreadable sources before s after cause) :
    FirstUnreadable (b :: sources) (b :: before) s after cause := by
  refine ⟨by rw [h.eq_append, List.cons_append], fun c hc => ?_, h.load_eq⟩
  rcases List.mem_cons.mp hc with rfl | hc
  · exact hb
  · exact h.loads_before c hc

/-- Loading stops at the first source that cannot be loaded. -/
theorem loadAll_eq (h : FirstUnreadable sources before s after cause) :
    loadAll sources = (.error ⟨s.name, cause⟩, before.flatMap Source.loadEvents) := by
  obtain ⟨rfl, hb, hs⟩ := h
  have hstop : loadAll (s :: after) = (.error ⟨s.name, cause⟩, []) := by
    simp [loadAll, hs]
  obtain ⟨layers, hl⟩ := exists_loadsAs hb
  apply Prod.ext
  · rw [loadAll_append, hstop, loadAll_eq_ok_iff.mpr hl]
    rfl
  · rw [events_loadAll_append hb, hstop, List.append_nil]

end FirstUnreadable

/-- Either all sources load, or one is the first that does not. -/
theorem loads_or_exists_firstUnreadable (sources : List Source) :
    (∀ s ∈ sources, s.Loads) ∨
      ∃ before s after cause, FirstUnreadable sources before s after cause := by
  induction sources with
  | nil => exact .inl (by simp)
  | cons s rest ih =>
      by_cases hs : s.Loads
      · rcases ih with hrest | ⟨before, t, after, cause, h⟩
        · refine .inl fun t ht => ?_
          rcases List.mem_cons.mp ht with rfl | ht
          · exact hs
          · exact hrest t ht
        · exact .inr ⟨s :: before, t, after, cause, h.cons hs⟩
      · obtain ⟨cause, hcause⟩ := Source.not_loads_iff.mp hs
        exact .inr ⟨[], s, rest, cause, rfl, by simp, hcause⟩

theorem exists_of_loadAll_eq_error {sources : List Source} {e : ResolutionError}
    (h : (loadAll sources).1 = .error e) :
    ∃ s ∈ sources, ∃ cause, s.load OptionName.all = .error cause ∧ e = ⟨s.name, cause⟩ := by
  rcases loads_or_exists_firstUnreadable sources with hall | ⟨before, s, after, cause, hfirst⟩
  · obtain ⟨layers, hl⟩ := exists_loadsAs hall
    rw [loadAll_eq_ok_iff.mpr hl] at h
    cases h
  · rw [hfirst.loadAll_eq] at h
    exact ⟨s, hfirst.mem, cause, hfirst.load_eq, (Except.error.inj h).symm⟩

/-! ### Events of options -/

theorem Source.not_isSettling_of_mem_loadEvents {s : Source} {e : Event}
    (h : e ∈ s.loadEvents) : ¬ e.IsSettling := by
  unfold loadEvents at h
  cases hs : s.load OptionName.all with
  | error cause =>
      simp only [hs] at h
      cases h
  | ok loaded =>
      simp only [hs] at h
      rcases List.mem_append.mp h with h | h
      · exact s.quiet hs e h
      · rw [List.mem_singleton.mp h]
        exact id

/-! ### Resolution -/

section resolve

variable (registry : Registry) {sources before after : List Source} {s : Source}
  {cause : SourceError}

theorem resolve_of_firstUnreadable (h : FirstUnreadable sources before s after cause) :
    registry.resolve sources =
      ⟨.error ⟨s.name, cause⟩,
        .resolving sources.length :: before.flatMap Source.loadEvents⟩ := by
  unfold Registry.resolve
  simp only [h.loadAll_eq]

theorem exists_resolve_of_loads (h : ∀ s ∈ sources, s.Loads) :
    ∃ snapshot, (registry.resolve sources).result = .ok snapshot := by
  obtain ⟨layers, hl⟩ := exists_loadsAs h
  exact ⟨_, resolve_eq_ok_iff.mpr ⟨layers, hl, rfl⟩⟩

theorem resolve_firstUnreadable_congr (h : FirstUnreadable sources before s after cause)
    {others : List Source} (hlen : others.length = after.length) :
    registry.resolve (before ++ s :: others) = registry.resolve sources := by
  have hothers : FirstUnreadable (before ++ s :: others) before s others cause :=
    ⟨rfl, h.loads_before, h.load_eq⟩
  have hcount : (before ++ s :: others).length = sources.length := by
    rw [h.eq_append]
    simp [hlen]
  rw [resolve_of_firstUnreadable registry hothers, resolve_of_firstUnreadable registry h, hcount]

theorem not_isSettling_of_mem_loading {n : Nat} {e : Event}
    (h : e ∈ Event.resolving n :: before.flatMap Source.loadEvents) : ¬ e.IsSettling := by
  rcases List.mem_cons.mp h with rfl | h
  · exact id
  · obtain ⟨b, -, hb⟩ := List.mem_flatMap.mp h
    exact Source.not_isSettling_of_mem_loadEvents hb

end resolve

/-- **A resolution gives everything or ends at the first source that cannot be loaded.**  It fails
exactly if some source cannot be loaded, and then with the name and the error of the first such
source; the events are those of loading the sources before it, none tells of an option, and it makes
no difference what the sources after it are.  Overrides and environments can always be loaded. -/
theorem resolve_ends_at_first_unreadable (registry : Registry) (sources : List Source) :
    ((∃ e, (registry.resolve sources).result = .error e) ↔
      ∃ s ∈ sources, ∃ cause, s.load OptionName.all = .error cause) ∧
    (∀ e, (registry.resolve sources).result = .error e →
      ∃ before s after cause, FirstUnreadable sources before s after cause ∧
        e = ⟨s.name, cause⟩ ∧
        (registry.resolve sources).events =
          .resolving sources.length :: before.flatMap Source.loadEvents ∧
        (∀ event ∈ (registry.resolve sources).events, ¬ event.IsSettling) ∧
        ∀ others : List Source, others.length = after.length →
          registry.resolve (before ++ s :: others) = registry.resolve sources) ∧
    ((∀ s ∈ sources, s.InMemory) →
      ∃ snapshot, (registry.resolve sources).result = .ok snapshot) := by
  refine ⟨?_, ?_, fun h => exists_resolve_of_loads registry fun s hs => (h s hs).loads⟩
  · rcases loads_or_exists_firstUnreadable sources with hall | ⟨before, s, after, cause, h⟩
    · obtain ⟨snapshot, hok⟩ := exists_resolve_of_loads registry hall
      rw [hok]
      refine iff_of_false (by simp) ?_
      rintro ⟨s, hs, hcause⟩
      exact Source.not_loads_iff.mpr hcause (hall s hs)
    · refine iff_of_true ⟨_, congrArg Resolution.result (resolve_of_firstUnreadable registry h)⟩ ?_
      exact ⟨s, h.mem, cause, h.load_eq⟩
  · intro e he
    rcases loads_or_exists_firstUnreadable sources with hall | ⟨before, s, after, cause, h⟩
    · obtain ⟨snapshot, hok⟩ := exists_resolve_of_loads registry hall
      rw [hok] at he
      cases he
    · have hresolve := resolve_of_firstUnreadable registry h
      refine ⟨before, s, after, cause, h, ?_, congrArg Resolution.events hresolve, ?_,
        fun others => resolve_firstUnreadable_congr registry h⟩
      · rw [hresolve] at he
        exact (Except.error.inj he).symm
      · rw [hresolve]
        exact fun event => not_isSettling_of_mem_loading

/-- Texts that are no values, a variable that is no text, a file that is not there, and a file with
a bad line after it. -/
def missingBeforeMalformed : List Source :=
  [.overrides ⟨"first", [(.transactionSampleRate, "lots"), (.globalLabels, "novalue")]⟩,
    .environment [("ELASTIC_OTEL_API_KEY", .bytes [0xFF])],
    .file "missing.ini" (.failure .notFound),
    .file "malformed.ini" (.bytes [0x3D])]

/-- The missing file ends the resolution.  The variable before it is warned of, the texts that are
no values are not, and the bad line is not found. -/
theorem resolve_ends_at_missing_file :
    ∃ e, (Registry.builtin.resolve missingBeforeMalformed).result = .error e ∧
      (∃ before s after cause, FirstUnreadable missingBeforeMalformed before s after cause ∧
        e = ⟨s.name, cause⟩ ∧
        (Registry.builtin.resolve missingBeforeMalformed).events =
          .resolving 4 :: before.flatMap Source.loadEvents ∧
        (∀ event ∈ (Registry.builtin.resolve missingBeforeMalformed).events,
          ¬ event.IsSettling) ∧
        ∀ others : List Source, others.length = after.length →
          Registry.builtin.resolve (before ++ s :: others) =
            Registry.builtin.resolve missingBeforeMalformed) ∧
      e = ⟨"ini:missing.ini", .unreadable "missing.ini" .notFound⟩ ∧
      (Registry.builtin.resolve missingBeforeMalformed).events =
        [.resolving 4, .sourceLoaded "first" 2, .undecodableVariable "ELASTIC_OTEL_API_KEY",
          .sourceLoaded "env" 0] := by
  refine ⟨_, rfl, ?_, rfl, by decide +kernel⟩
  exact (resolve_ends_at_first_unreadable Registry.builtin missingBeforeMalformed).2.1 _ rfl

end AgentOptions
