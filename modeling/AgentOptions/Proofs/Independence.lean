import AgentOptions.Proofs.Interchange

/-! # Independence of options

What a snapshot has for an option comes from the specification of that option and from what the
sources say about it.  Two sources of one kind and name can say the same about an option
(`Source.SameAbout`) and differ in everything else: in other options, variables and keys, in
comments, and in the order of lines.  They load alike for the option (`SameAbout.values_eq`), and
layers with the same text for it, blanks at the ends apart, settle it alike
(`setting_settle_congr`).

Main statement: `options_do_not_interfere`. -/

namespace AgentOptions

/-! ### Layers -/

/-- The text, perhaps with blanks before and behind it. -/
def Text.Padded (raw padded : String) : Prop :=
  ∃ left right, padded.toList = left ++ (raw.toList ++ right) ∧ (∀ c ∈ left, isBlank c) ∧
    ∀ c ∈ right, isBlank c

theorem Text.Padded.trim_eq {raw padded : String} (h : Padded raw padded) :
    trim padded = trim raw := by
  obtain ⟨left, right, he, hl, hr⟩ := h
  rw [trim, trim, he, trimChars_blanks_append hl, trimChars_append_blanks hr]

namespace Layer

/-- The layers have the same text for the option, trimmed, and the same source. -/
structure SameText (n : OptionName) (layer other : Layer) : Prop where
  source_eq : other.source = layer.source
  text?_eq : other.text? n = layer.text? n

/-- The source is the same, and so is the text for the option, but for blanks around it. -/
structure PaddedFor (n : OptionName) (layer padded : Layer) : Prop where
  source_eq : padded.source = layer.source
  values_rel : Option.Rel Text.Padded (layer.values n) (padded.values n)

theorem PaddedFor.sameText {n : OptionName} {layer padded : Layer} (h : layer.PaddedFor n padded) :
    layer.SameText n padded := by
  refine ⟨h.source_eq, ?_⟩
  have hmap : (padded.values n).map Text.trim = (layer.values n).map Text.trim := by
    have hrel := h.values_rel
    generalize layer.values n = text at hrel
    generalize padded.values n = paddedText at hrel
    cases hrel with
    | none => rfl
    | some hpad => exact congrArg some hpad.trim_eq
  rw [text?, text?, hmap]

end Layer

section settle

variable {n : OptionName} {layers others : List Layer}

theorem supplied?_congr (h : List.Forall₂ (Layer.SameText n) layers others) :
    supplied? others n = supplied? layers n := by
  induction h with
  | nil => rfl
  | cons hl _ ih => rw [supplied?_cons, supplied?_cons, hl.text?_eq, hl.source_eq, ih]

theorem setting_settle_congr {registry other : Registry}
    (hspec : other.spec n = registry.spec n)
    (h : List.Forall₂ (Layer.SameText n) layers others) :
    (other.settle others).setting n = (registry.settle layers).setting n := by
  change Setting.ofChoice (other.spec n) (supplied? others n) =
    Setting.ofChoice (registry.spec n) (supplied? layers n)
  rw [hspec, supplied?_congr h]

end settle

/-! ### Sources that say the same -/

open ConfigFile (lines Stands Assigns)

/-- Sources of one kind and name that say the same about an option: the same text is set, the
variable of the option has the same content, or the same value stands for its key. -/
inductive Source.SameAbout (n : OptionName) : Source → Source → Prop
  | overrides {o o' : Overrides} : o.name = o'.name → o.values n = o'.values n →
      SameAbout n (.overrides o) (.overrides o')
  | environment {env env' : Environment} : env.get? n.variableName = env'.get? n.variableName →
      SameAbout n (.environment env) (.environment env')
  | file {path : String} {content content' : FileContent} :
      (∀ text text', content.text path = .ok text → content'.text path = .ok text' →
        ∀ raw, Stands (lines text) n.fileKey raw ↔ Stands (lines text') n.fileKey raw) →
      SameAbout n (.file path content) (.file path content')

namespace Source

theorem values_file_eq_some_iff {path : String} {content : FileContent} {loaded : Loaded}
    (h : (Source.file path content).load OptionName.all = .ok loaded) :
    ∃ text, content.text path = .ok text ∧
      ∀ n raw, loaded.values n = some raw ↔ Stands (lines text) n.fileKey raw := by
  cases ha : content.assignments path with
  | error cause =>
      rw [load_file_of_error ha] at h
      cases h
  | ok assignments =>
      rw [load_file ha] at h
      cases h
      cases ht : content.text path with
      | error cause => simp [FileContent.assignments, ht] at ha
      | ok text =>
          obtain ⟨-, rfl⟩ := (ConfigFile.assignments_eq_ok_iff ht).mp ha
          refine ⟨text, rfl, fun n raw => ?_⟩
          simp only [RawValues.restrict, OptionName.mem_all, if_true]
          exact ConfigFile.value?_filterMap_iff

/-- Sources that say the same about an option load the same text for it. -/
theorem SameAbout.values_eq {n : OptionName} {s t : Source} (h : s.SameAbout n t)
    {loaded loaded' : Loaded} (hs : s.load OptionName.all = .ok loaded)
    (ht : t.load OptionName.all = .ok loaded') : loaded'.values n = loaded.values n := by
  cases h with
  | overrides _ hvalues =>
      cases hs
      cases ht
      simp only [RawValues.restrict, hvalues]
  | environment hget =>
      cases hs
      cases ht
      simp only [RawValues.restrict, Environment.values, hget]
  | file hstands =>
      obtain ⟨text, htext, hvalues⟩ := values_file_eq_some_iff hs
      obtain ⟨text', htext', hvalues'⟩ := values_file_eq_some_iff ht
      apply Option.ext
      intro raw
      rw [hvalues, hvalues', hstands text text' htext htext']

theorem SameAbout.name_eq {n : OptionName} {s t : Source} (h : s.SameAbout n t) :
    t.name = s.name := by
  cases h with
  | overrides hname => exact hname.symm
  | environment => rfl
  | file => rfl

theorem SameAbout.sameText {n : OptionName} {s t : Source} (h : s.SameAbout n t)
    {layer layer' : Layer} (hs : s.LoadsAs layer) (ht : t.LoadsAs layer') :
    layer.SameText n layer' := by
  obtain ⟨loaded, hload, rfl⟩ := hs
  obtain ⟨loaded', hload', rfl⟩ := ht
  refine ⟨h.name_eq, ?_⟩
  simp only [Layer.text?, h.values_eq hload hload']

end Source

theorem forall₂_sameText {n : OptionName} {sources sources' : List Source}
    (h : List.Forall₂ (Source.SameAbout n) sources sources') {layers layers' : List Layer}
    (hl : List.Forall₂ Source.LoadsAs sources layers)
    (hl' : List.Forall₂ Source.LoadsAs sources' layers') :
    List.Forall₂ (Layer.SameText n) layers layers' := by
  induction h generalizing layers layers' with
  | nil =>
      cases hl
      cases hl'
      exact .nil
  | cons hst _ ih =>
      cases hl with
      | cons hs hl => cases hl' with
        | cons ht hl' => exact .cons (hst.sameText hs ht) (ih hl hl')

/-! ### What other options leave alone -/

namespace ConfigFile

theorem stands_iff_getLast? {lines : List (List Char)} {key value : String} :
    Stands lines key value ↔ (lines.filterMap (given? key)).getLast? = some value := by
  rw [← value?_filterMap_iff, value?, ← List.filterMap_reverse, Bindings.lookup_filterMap,
    ← List.head?_reverse, ← List.filterMap_reverse, List.head?_filterMap]
  rfl

/-- A line that does not assign to the key makes no difference to it, wherever it stands. -/
theorem stands_insert_iff {line : List Char} {key : String} (h : ∀ other, ¬ Assigns line key other)
    (before after : List (List Char)) {value : String} :
    Stands (before ++ line :: after) key value ↔ Stands (before ++ after) key value := by
  have hnone : given? key line = none := by
    simpa only [Option.eq_none_iff_forall_ne_some, ne_eq, given?_eq_some_iff] using h
  rw [stands_iff_getLast?, stands_iff_getLast?, List.filterMap_append, List.filterMap_append,
    List.filterMap_cons_none hnone]

theorem Assigns.not_of_ne {line : List Char} {n m : OptionName} {raw : String}
    (h : Assigns line m.fileKey raw) (hne : m ≠ n) (other : String) :
    ¬ Assigns line n.fileKey other := fun hn =>
  hne (OptionName.fileKey_inj (h.unique hn).1)

end ConfigFile

namespace Source

variable {n m : OptionName}

theorem sameAbout_set (hne : m ≠ n) (o : Overrides) (raw : String) :
    SameAbout n (.overrides o) (.overrides (o.set m raw)) := by
  refine .overrides rfl ?_
  rw [Overrides.values_set, if_neg (Ne.symm hne)]

theorem sameAbout_variable (hne : m ≠ n) (before after : Environment) (content : SystemText) :
    SameAbout n (.environment (before ++ after))
      (.environment (before ++ (m.variableName, content) :: after)) := by
  have hname : n.variableName ≠ m.variableName := fun h =>
    hne (OptionName.variableName_inj h).symm
  refine .environment ?_
  simp only [Environment.get?, List.reverse_append, List.reverse_cons, List.lookup_append,
    Bindings.lookup_cons_eq_ite, if_neg hname, List.lookup_nil, Option.or_none]

theorem sameAbout_line {path : String} {content content' : FileContent} {text text' : String}
    (ht : content.text path = .ok text) (ht' : content'.text path = .ok text')
    {before after : List (List Char)} {line : List Char} (hlines : lines text = before ++ after)
    (hlines' : lines text' = before ++ line :: after)
    (hline : ∀ raw, ¬ Assigns line n.fileKey raw) :
    SameAbout n (.file path content) (.file path content') := by
  refine .file fun t t' h h' raw => ?_
  obtain rfl := Except.ok.inj (ht.symm.trans h)
  obtain rfl := Except.ok.inj (ht'.symm.trans h')
  rw [hlines, hlines']
  exact (ConfigFile.stands_insert_iff hline before after).symm

end Source

/-! ### The result -/

/-- **Options do not interfere.**  What is resolved for an option depends on its specification and
on what the sources say about it, not on anything else in the sources.  Blanks around the texts that
the sources load for it change nothing.  And what is said about another option, by setting it, by
its variable or by a line with its key, is nothing about this one. -/
theorem options_do_not_interfere (n : OptionName) :
    (∀ (registry registry' : Registry) (sources sources' : List Source) (s t : Snapshot),
      registry'.spec n = registry.spec n →
      List.Forall₂ (Source.SameAbout n) sources sources' →
      (registry.resolve sources).result = .ok s → (registry'.resolve sources').result = .ok t →
      t.AgreesOn s n) ∧
    (∀ (registry : Registry) (sources : List Source) (layers padded : List Layer) (s : Snapshot),
      (registry.resolve sources).result = .ok s → List.Forall₂ Source.LoadsAs sources layers →
      List.Forall₂ (Layer.PaddedFor n) layers padded → (registry.settle padded).AgreesOn s n) ∧
    ∀ m ≠ n, (∀ o raw, Source.SameAbout n (.overrides o) (.overrides (o.set m raw))) ∧
      (∀ before after content, Source.SameAbout n (.environment (before ++ after))
        (.environment (before ++ (m.variableName, content) :: after))) ∧
      ∀ path content content' text text' before line after raw,
        FileContent.text path content = .ok text → FileContent.text path content' = .ok text' →
        lines text = before ++ after → lines text' = before ++ line :: after →
        Assigns line m.fileKey raw →
        Source.SameAbout n (.file path content) (.file path content') := by
  refine ⟨?_, ?_, fun m hne => ⟨Source.sameAbout_set hne, Source.sameAbout_variable hne, ?_⟩⟩
  · intro registry registry' sources sources' s t hspec hsame hs ht
    obtain ⟨layers, hl, rfl⟩ := resolve_eq_ok_iff.mp hs
    obtain ⟨layers', hl', rfl⟩ := resolve_eq_ok_iff.mp ht
    exact Snapshot.agreesOn_of_setting_eq
      (setting_settle_congr hspec (forall₂_sameText hsame hl hl'))
  · intro registry sources layers padded s hs hl hpad
    have hlayers : registry.settle layers = s :=
      Except.ok.inj ((resolve_eq_ok_iff.mpr ⟨layers, hl, rfl⟩).symm.trans hs)
    rw [← hlayers]
    exact Snapshot.agreesOn_of_setting_eq
      (setting_settle_congr rfl (hpad.imp fun _ _ h => h.sameText))
  · intro path content content' text text' before line after raw ht ht' hlines hlines' hline
    exact Source.sameAbout_line ht ht' hlines hlines' (hline.not_of_ne hne)

/-- A file that gives a name twice, the second time with its key in other letters. -/
def nameSetTwice : String :=
  "elastic_otel.service_name = cart\n; agent\nElastic_Otel.Service_Name=\"checkout\"\n"

/-- A file that gives the name once, among other things. -/
def nameSetOnce : String := "[elastic]\nelastic_otel.service_name='checkout'\nother = 1"

def nameAmongOthers : List Source :=
  [.overrides ⟨"first", [(.enabled, "maybe")]⟩,
    .environment [("ELASTIC_OTEL_API_KEY", .bytes [0xFF])],
    .file "agent.ini" (.ofText nameSetTwice)]

def nameAlone : List Source :=
  [.overrides ⟨"first", []⟩, .environment [], .file "agent.ini" (.ofText nameSetOnce)]

/-- The built-in specifications, but for one option. -/
def disabledByDefault : Registry where
  spec n := if n = .enabled then .bool false else builtinSpec n
  kind_spec n := by cases n <;> rfl

/-- The layer with a blank before and behind each of its texts. -/
def Layer.spaced (layer : Layer) : Layer :=
  ⟨layer.source, fun n => (layer.values n).map fun raw => " " ++ raw ++ "\t"⟩

theorem Layer.paddedFor_spaced (n : OptionName) (layer : Layer) :
    layer.PaddedFor n layer.spaced := by
  refine ⟨rfl, ?_⟩
  simp only [spaced]
  cases layer.values n with
  | none => exact .none
  | some raw =>
      exact .some ⟨[' '], ['\t'], by simp, List.forall_mem_singleton.mpr (by decide),
        List.forall_mem_singleton.mpr (by decide)⟩

theorem forall₂_sameAbout_name :
    List.Forall₂ (Source.SameAbout .serviceName) nameAmongOthers nameAlone := by
  refine .cons (.overrides rfl rfl) (.cons (.environment rfl) (.cons (.file ?_) .nil))
  intro text text' ht ht' raw
  rw [FileContent.text_ofText] at ht ht'
  cases ht
  cases ht'
  have hlast : ∀ text ∈ [nameSetTwice, nameSetOnce], ((lines text).filterMap
      (ConfigFile.given? (OptionName.fileKey .serviceName))).getLast? = some "checkout" := by
    decide +kernel
  rw [ConfigFile.stands_iff_getLast?, ConfigFile.stands_iff_getLast?,
    hlast nameSetTwice (by simp), hlast nameSetOnce (by simp)]

theorem loads_name : ∀ s ∈ nameAmongOthers ++ nameAlone, s.Loads := by
  have htwice : (FileContent.ofText nameSetTwice).assignments "agent.ini" =
      .ok [("elastic_otel.service_name", "cart"), ("elastic_otel.service_name", "checkout")] := by
    decide +kernel
  have honce : (FileContent.ofText nameSetOnce).assignments "agent.ini" =
      .ok [("elastic_otel.service_name", "checkout"), ("other", "1")] := by
    decide +kernel
  simp only [nameAmongOthers, nameAlone, List.cons_append, List.nil_append, List.forall_mem_cons]
  exact ⟨⟨_, rfl⟩, ⟨_, rfl⟩, ⟨_, Source.load_file htwice _⟩, ⟨_, rfl⟩, ⟨_, rfl⟩,
    ⟨_, Source.load_file honce _⟩, by simp⟩

/-- What else is set, and another registry, make no difference to the name; neither do blanks, the
variable of an option whose name starts alike, or a line with its key. -/
theorem options_do_not_interfere_name :
    List.Forall₂ (Source.SameAbout .serviceName) nameAmongOthers nameAlone ∧
      (∃ s t layers, (Registry.builtin.resolve nameAmongOthers).result = .ok s ∧
        (disabledByDefault.resolve nameAlone).result = .ok t ∧ t.AgreesOn s .serviceName ∧
        List.Forall₂ Source.LoadsAs nameAmongOthers layers ∧
        List.Forall₂ (Layer.PaddedFor .serviceName) layers (layers.map Layer.spaced) ∧
        (Registry.builtin.settle (layers.map Layer.spaced)).AgreesOn s .serviceName) ∧
      Source.SameAbout .serviceName (.environment [])
        (.environment [("ELASTIC_OTEL_SERVICE_NODE_NAME", .text "node")]) ∧
      Source.SameAbout .serviceName (.file "agent.ini" (.ofText "other = 1"))
        (.file "agent.ini" (.ofText "other = 1\nelastic_otel.service_node_name = node")) := by
  have hamong : ∀ s ∈ nameAmongOthers, s.Loads := fun s hs =>
    loads_name s (List.mem_append_left _ hs)
  have halone : ∀ s ∈ nameAlone, s.Loads := fun s hs => loads_name s (List.mem_append_right _ hs)
  obtain ⟨layers, hl⟩ := exists_loadsAs hamong
  obtain ⟨s, hs⟩ := exists_resolve_of_loads Registry.builtin hamong
  obtain ⟨t, ht⟩ := exists_resolve_of_loads disabledByDefault halone
  have hpad : List.Forall₂ (Layer.PaddedFor .serviceName) layers (layers.map Layer.spaced) := by
    rw [List.forall₂_map_right_iff]
    exact List.forall₂_same.mpr fun layer _ => layer.paddedFor_spaced .serviceName
  obtain ⟨hagree, hpadded, hothers⟩ := options_do_not_interfere .serviceName
  obtain ⟨-, hvariable, hline⟩ := hothers .serviceNodeName (by decide)
  have hassigns : Assigns "elastic_otel.service_node_name = node".toList
      (OptionName.fileKey .serviceNodeName) "node" :=
    ConfigFile.assigns_iff.mpr (by decide +kernel)
  refine ⟨forall₂_sameAbout_name, ⟨s, t, layers, hs, ht, ?_, hl, hpad, ?_⟩, ?_, ?_⟩
  · exact hagree Registry.builtin disabledByDefault _ _ s t rfl forall₂_sameAbout_name hs ht
  · exact hpadded Registry.builtin _ _ _ s hs hl hpad
  · exact hvariable [] [] (.text "node")
  · exact hline "agent.ini" _ _ _ _ ["other = 1".toList] _ [] "node"
      (FileContent.text_ofText _ _) (FileContent.text_ofText _ _) (by decide +kernel)
      (by decide +kernel) hassigns

end AgentOptions
