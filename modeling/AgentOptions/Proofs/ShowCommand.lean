import AgentOptions.Command.Program
import AgentOptions.Proofs.Assignments
import AgentOptions.Proofs.Independence
import AgentOptions.Proofs.ShowOutput

/-! # What the command for showing options does

The command fails if an assignment names no option, and else if its file is of no use
(`FileContent.Unusable`); the first such assignment is reported, and the file is not read then.
Otherwise every option has a list of offers (`ShowRequest.offers`): its last assignment, its
variable, and what stands for its key in the file.  The first offer that is not blank is taken
(`Taken`), and what is shown of the option follows from it (`Yields`).

The sources of the command make these offers (`forall₂_makes`), so the rules for sources turn into
rules for offers (`yields_iff_settles`).  How the outcomes are printed is said in
`AgentOptions.Proofs.ShowOutput`.  Main statement: `show_reports_first_offers`. -/

namespace AgentOptions

/-- The assignment names no option. -/
def Overrides.NamesNone (assignment : String) : Prop :=
  ∃ name raw, Splits assignment name raw ∧ ∀ n : OptionName, name ≠ n.text

theorem Overrides.Splits.not_namesNone {assignment raw : String} {n : OptionName}
    (h : Splits assignment n.text raw) : ¬ NamesNone assignment := by
  rintro ⟨name, raw', h', hname⟩
  exact hname n (h'.unique h).1

/-! ### Files of no use -/

namespace FileContent

/-- The file cannot be read, is no text, or has a line that a configuration file may not hold. -/
inductive Unusable : FileContent → Prop
  | unreadable {reason : ReadFailure} : Unusable (.failure reason)
  | notText {bytes : List UInt8} : Utf8.text? bytes = none → Unusable (.bytes bytes)
  | malformed {bytes : List UInt8} {content : String} {line : List Char} :
      Utf8.text? bytes = some content → line ∈ ConfigFile.lines content →
      ¬ ConfigFile.Legal line → Unusable (.bytes bytes)

/-- The file is a text, in which the value stands for the key. -/
def Gives (file : FileContent) (key value : String) : Prop :=
  ∃ bytes content, file = .bytes bytes ∧ Utf8.text? bytes = some content ∧
    ConfigFile.Stands (ConfigFile.lines content) key value

variable {path : String} {file : FileContent}

theorem text_eq_ok_iff {content : String} : file.text path = .ok content ↔
    ∃ bytes, file = .bytes bytes ∧ Utf8.text? bytes = some content := by
  cases file with
  | failure reason => simp [FileContent.text]
  | bytes content' =>
      simp only [FileContent.text, FileContent.bytes.injEq, exists_eq_left']
      cases Utf8.text? content' with
      | none => simp
      | some s => simp

theorem unusable_iff (path : String) (file : FileContent) :
    file.Unusable ↔ ∃ cause, file.assignments path = .error cause := by
  constructor
  · intro h
    cases h with
    | unreadable => exact ⟨_, rfl⟩
    | notText hnone => exact ⟨_, by rw [FileContent.assignments, FileContent.text, hnone]⟩
    | malformed htext hline hlegal =>
        have htext' : FileContent.text path _ = .ok _ := text_eq_ok_iff.mpr ⟨_, rfl, htext⟩
        cases ha : FileContent.assignments path _ with
        | error cause => exact ⟨cause, rfl⟩
        | ok assignments =>
            exact absurd (((ConfigFile.assignments_eq_ok_iff htext').mp ha).1 _ hline) hlegal
  · rintro ⟨cause, hcause⟩
    cases htext : file.text path with
    | ok content =>
        obtain ⟨bytes, rfl, hbytes⟩ := text_eq_ok_iff.mp htext
        obtain ⟨before, line, after, hlines, -, hlegal, -⟩ :=
          (ConfigFile.assignments_eq_error_iff htext).mp hcause
        exact .malformed hbytes (by simp [hlines]) hlegal
    | error cause' =>
        cases file with
        | failure reason => exact .unreadable
        | bytes bytes =>
            refine .notText ?_
            cases hbytes : Utf8.text? bytes with
            | none => rfl
            | some s => simp [FileContent.text, hbytes] at htext

end FileContent

theorem Source.loads_file_iff (path : String) (file : FileContent) :
    (Source.file path file).Loads ↔ ¬ file.Unusable := by
  rw [FileContent.unusable_iff path, Source.Loads]
  cases ha : file.assignments path with
  | ok assignments => simp [Source.load_file ha]
  | error cause => simp [Source.load_file_of_error ha]

/-! ### Offers for an option -/

/-- An origin for the value of an option, and the texts that it has for it. -/
structure Offer where
  origin : String
  gives : String → Prop

/-- The first of the offers with a text that is not blank, and this text without the blanks around
it. -/
inductive Taken : List Offer → String → String → Prop
  | first {offer : Offer} {rest : List Offer} {text : String} : offer.gives text →
      Text.trim text ≠ "" → Taken (offer :: rest) offer.origin (Text.trim text)
  | later {offer : Offer} {rest : List Offer} {origin raw : String} :
      (∀ text, offer.gives text → Text.trim text = "") → Taken rest origin raw →
      Taken (offer :: rest) origin raw

/-- The outcomes for an option: all offers are blank; the text that is taken is read; it is not. -/
inductive Yields (spec : OptionSpec) (offers : List Offer) : Setting → Prop
  | defaulted : (∀ offer ∈ offers, ∀ text, offer.gives text → Text.trim text = "") →
      Yields spec offers (.defaulted spec.default)
  | supplied {origin raw : String} {value : OptionValue} : Taken offers origin raw →
      spec.read raw = .ok value → Yields spec offers (.supplied value origin)
  | rejected {origin raw : String} {error : ReadError} : Taken offers origin raw →
      spec.read raw = .error error →
      Yields spec offers (.rejected spec.default ⟨origin, raw, error⟩)

/-- The source supplies for the option what the offer gives. -/
structure Source.Makes (n : OptionName) (source : Source) (offer : Offer) : Prop where
  name_eq : source.name = offer.origin
  supplies_iff : ∀ raw, source.Supplies n raw ↔
    ∃ text, offer.gives text ∧ raw = Text.trim text ∧ raw ≠ ""

section offers

variable {n : OptionName} {sources : List Source} {offers : List Offer}

theorem Source.Makes.silent_iff {source : Source} {offer : Offer} (h : source.Makes n offer) :
    (∀ raw, ¬ source.Supplies n raw) ↔ ∀ text, offer.gives text → Text.trim text = "" := by
  simp only [h.supplies_iff]
  constructor
  · intro hnone text htext
    by_contra hne
    exact hnone _ ⟨text, htext, rfl, hne⟩
  · rintro hblank raw ⟨text, htext, rfl, hne⟩
    exact hne (hblank text htext)

theorem undecided_iff_blank (h : List.Forall₂ (Source.Makes n) sources offers) :
    Undecided sources n ↔ ∀ offer ∈ offers, ∀ text, offer.gives text → Text.trim text = "" := by
  induction h with
  | nil => simp [Undecided]
  | cons hhead _ ih => rw [undecided_cons_iff, hhead.silent_iff, ih, List.forall_mem_cons]

theorem decides_iff_taken (h : List.Forall₂ (Source.Makes n) sources offers)
    {origin raw : String} :
    (∃ source, Decides sources n source raw ∧ source.name = origin) ↔
      Taken offers origin raw := by
  induction h with
  | nil =>
      refine iff_of_false ?_ (fun h => nomatch h)
      rintro ⟨source, ⟨before, after, he, -⟩, -⟩
      simp at he
  | @cons source offer sources offers hhead _ ih =>
      simp only [decides_cons_iff]
      constructor
      · rintro ⟨s, ⟨rfl, hs⟩ | ⟨hsilent, hs⟩, rfl⟩
        · obtain ⟨text, htext, rfl, hne⟩ := (hhead.supplies_iff raw).mp hs
          rw [hhead.name_eq]
          exact .first htext hne
        · exact .later (hhead.silent_iff.mp hsilent) (ih.mp ⟨s, hs, rfl⟩)
      · intro ht
        cases ht with
        | first htext hne =>
            exact ⟨source, .inl ⟨rfl, (hhead.supplies_iff _).mpr ⟨_, htext, rfl, hne⟩⟩,
              hhead.name_eq⟩
        | later hblank hrest =>
            obtain ⟨s, hs, hname⟩ := ih.mpr hrest
            exact ⟨s, .inr ⟨hhead.silent_iff.mpr hblank, hs⟩, hname⟩

/-- **What sources settle is what their offers yield.** -/
theorem yields_iff_settles (registry : Registry)
    (h : List.Forall₂ (Source.Makes n) sources offers) {setting : Setting} :
    Yields (registry.spec n) offers setting ↔ registry.Settles sources n setting := by
  constructor
  · intro hy
    cases hy with
    | defaulted hblank => exact .defaulted ((undecided_iff_blank h).mpr hblank)
    | supplied ht hr =>
        obtain ⟨source, hd, rfl⟩ := (decides_iff_taken h).mpr ht
        exact .supplied hd hr
    | rejected ht hr =>
        obtain ⟨source, hd, rfl⟩ := (decides_iff_taken h).mpr ht
        exact .rejected hd hr
  · intro hs
    cases hs with
    | defaulted hu => exact .defaulted ((undecided_iff_blank h).mp hu)
    | supplied hd hr => exact .supplied ((decides_iff_taken h).mp ⟨_, hd, rfl⟩) hr
    | rejected hd hr => exact .rejected ((decides_iff_taken h).mp ⟨_, hd, rfl⟩) hr

theorem Source.makes_of_load {source : Source} {offer : Offer} {loaded : Loaded}
    (hname : source.name = offer.origin) (hload : source.load OptionName.all = .ok loaded)
    (hgives : ∀ text, loaded.values n = some text ↔ offer.gives text) : source.Makes n offer := by
  refine ⟨hname, fun raw => ?_⟩
  simp only [Source.Supplies, hload, Except.ok.injEq, exists_and_left, exists_eq_left', hgives]

end offers

namespace ShowRequest

/-! ### Assignments in order -/

/-- The text of the last assignment to the option. -/
def SetTo (assignments : List String) (n : OptionName) (raw : String) : Prop :=
  LastGiven (fun assignment raw => Overrides.Splits assignment n.text raw) assignments raw

theorem assignAll_of_unknown {before : List String} {assignment name raw : String}
    (hbefore : ∀ b ∈ before, ¬ Overrides.NamesNone b) (h : Overrides.Splits assignment name raw)
    (hname : ∀ n : OptionName, name ≠ n.text) (after : List String) (o : Overrides) :
    assignAll o (before ++ assignment :: after) = .error (assignment, name) := by
  induction before generalizing o with
  | nil => simp only [List.nil_append, assignAll, Overrides.assign_of_unknown h hname]
  | cons b before ih =>
      rw [List.forall_mem_cons] at hbefore
      obtain ⟨n, raw', hb⟩ := (Overrides.splits_or_unknown b).resolve_right hbefore.1
      simp only [List.cons_append, assignAll, Overrides.assign_of_splits hb]
      exact ih hbefore.2 _

/-- Assignments to options are all carried out, and the last one to each option counts. -/
theorem exists_assignAll {assignments : List String}
    (h : ∀ assignment ∈ assignments, ¬ Overrides.NamesNone assignment) (o : Overrides) :
    ∃ changed, assignAll o assignments = .ok changed ∧ changed.name = o.name ∧
      ∀ n raw, changed.values n = some raw ↔ SetTo assignments n raw ∨
        (∀ a ∈ assignments, ∀ other, ¬ Overrides.Splits a n.text other) ∧
          o.values n = some raw := by
  induction assignments generalizing o with
  | nil => exact ⟨o, rfl, rfl, fun n raw => by simp [SetTo, LastGiven.not_nil]⟩
  | cons a rest ih =>
      rw [List.forall_mem_cons] at h
      obtain ⟨m, text, ha⟩ := (Overrides.splits_or_unknown a).resolve_right h.1
      obtain ⟨changed, hchanged, hname, hvalues⟩ := ih h.2 (o.set m text)
      refine ⟨changed, ?_, hname, fun n raw => ?_⟩
      · rw [assignAll, Overrides.assign_of_splits ha]
        exact hchanged
      · simp only [hvalues, Overrides.values_set, SetTo, LastGiven.cons_iff, List.forall_mem_cons]
        by_cases hnm : n = m
        · subst hnm
          have hraw : Overrides.Splits a n.text raw ↔ text = raw :=
            ⟨fun h => (ha.unique h).2, fun h => h ▸ ha⟩
          have hsome : ¬ ∀ other, ¬ Overrides.Splits a n.text other := fun h => h text ha
          simp only [if_true, Option.some.injEq, hraw, hsome, false_and, or_false]
          exact or_congr_right and_comm
        · have hnone : ∀ other, ¬ Overrides.Splits a n.text other := fun other hs =>
            hnm (OptionName.text_inj (hs.unique ha).1)
          simp only [if_neg hnm, hnone, not_false_eq_true, implies_true, true_and, false_and,
            or_false]

/-! ### What the command does -/

variable (request : ShowRequest) (host : Host)

/-- The offers for an option, from the highest precedence to the lowest: its last assignment, its
variable, and what stands for its key in the file. -/
def offers (n : OptionName) : List Offer :=
  [⟨"cli", SetTo request.assignments n⟩] ++
    (if request.useEnvironment then
      [⟨"env", fun text => host.environment.get? n.variableName = some (.text text)⟩] else []) ++
    (request.file.toList.map fun path =>
      ⟨"ini:" ++ path.shown, (host.fileAt path).Gives n.fileKey⟩)

/-- The file of the command is of no use. -/
def Fails : Prop := ∃ path, request.file = some path ∧ (host.fileAt path).Unusable

variable {request host}

theorem makes_environment (n : OptionName) (env : Environment) :
    (Source.environment env).Makes n
      ⟨"env", fun text => env.get? n.variableName = some (.text text)⟩ := by
  refine Source.makes_of_load rfl rfl fun text => ?_
  simp only [RawValues.restrict, OptionName.mem_all, if_true, Environment.values]
  cases env.get? n.variableName with
  | none => simp
  | some content => cases content with
    | text s => simp [SystemText.text?]
    | bytes b => simp [SystemText.text?]

theorem makes_file (n : OptionName) {path : String} {file : FileContent} (h : ¬ file.Unusable) :
    (Source.file path file).Makes n ⟨"ini:" ++ path, file.Gives n.fileKey⟩ := by
  obtain ⟨loaded, hload⟩ := (Source.loads_file_iff path file).mpr h
  refine Source.makes_of_load rfl hload fun text => ?_
  obtain ⟨content, hcontent, hvalues⟩ := Source.values_file_eq_some_iff hload
  obtain ⟨bytes, rfl, hbytes⟩ := FileContent.text_eq_ok_iff.mp hcontent
  rw [hvalues]
  constructor
  · intro hs
    exact ⟨bytes, content, rfl, hbytes, hs⟩
  · rintro ⟨bytes', content', he, hbytes', hs⟩
    cases he
    rw [hbytes] at hbytes'
    cases hbytes'
    exact hs

theorem forall₂_makes {overrides : Overrides} (hname : overrides.name = "cli")
    (hvalues : ∀ n raw, overrides.values n = some raw ↔ SetTo request.assignments n raw)
    (hfile : ¬ request.Fails host) (n : OptionName) :
    List.Forall₂ (Source.Makes n) (request.sources host overrides) (request.offers host n) := by
  have hcli : (Source.overrides overrides).Makes n ⟨"cli", SetTo request.assignments n⟩ := by
    refine Source.makes_of_load hname rfl fun text => ?_
    simp only [RawValues.restrict, OptionName.mem_all, if_true, hvalues]
  refine .cons hcli (List.rel_append ?_ ?_)
  · cases request.useEnvironment with
    | false => exact .nil
    | true => exact .cons (makes_environment n host.environment) .nil
  · cases hf : request.file with
    | none => exact .nil
    | some path => exact .cons (makes_file n fun h => hfile ⟨path, hf, h⟩) .nil

/-- The sources of the command that need no file. -/
def inMemory (request : ShowRequest) (host : Host) (overrides : Overrides) : List Source :=
  [Source.overrides overrides] ++
    (if request.useEnvironment then [Source.environment host.environment] else [])

theorem loads_inMemory (overrides : Overrides) :
    ∀ source ∈ request.inMemory host overrides, source.Loads := by
  intro source hs
  refine Source.InMemory.loads ?_
  rcases List.mem_append.mp hs with hs | hs
  · exact .inl ⟨overrides, List.mem_singleton.mp hs⟩
  · split at hs
    · exact .inr ⟨host.environment, List.mem_singleton.mp hs⟩
    · cases hs

theorem loads_sources (hfile : ¬ request.Fails host) (overrides : Overrides) :
    ∀ source ∈ request.sources host overrides, source.Loads := by
  intro source hs
  rcases List.mem_append.mp hs with hs | hs
  · exact loads_inMemory overrides source hs
  · obtain ⟨path, hpath, rfl⟩ := List.mem_map.mp hs
    rw [Option.mem_toList] at hpath
    exact (Source.loads_file_iff _ _).mpr fun h => hfile ⟨path, hpath, h⟩

/-- An assignment that names no option is all that the command looks at. -/
theorem run_of_unknown {before after : List String} {assignment name raw : String}
    (he : request.assignments = before ++ assignment :: after)
    (hbefore : ∀ b ∈ before, ¬ Overrides.NamesNone b) (h : Overrides.Splits assignment name raw)
    (hname : ∀ n : OptionName, name ≠ n.text) (host : Host) :
    request.run host =
      .failure ["Invalid --set value: " ++ assignment, unknownOptionMessage name] [] := by
  rw [run, he, assignAll_of_unknown hbefore h hname]

theorem run_of_unusable
    (h : ∀ assignment ∈ request.assignments, ¬ Overrides.NamesNone assignment)
    {path : SystemText} (hpath : request.file = some path) {cause : SourceError}
    (hcause : (host.fileAt path).assignments path.shown = .error cause) :
    ∃ events, request.run host =
      .failure (ResolutionError.messages ⟨"ini:" ++ path.shown, cause⟩) events := by
  obtain ⟨overrides, hassign, -, -⟩ := exists_assignAll h (.new "cli")
  have hfirst : FirstUnreadable (request.sources host overrides)
      (request.inMemory host overrides) (.file path.shown (host.fileAt path)) [] cause := by
    refine ⟨?_, loads_inMemory overrides, ?_⟩
    · rw [sources, hpath]
      rfl
    · exact Source.load_file_of_error hcause _
  simp only [run, hassign, resolve_of_firstUnreadable Registry.builtin hfirst]
  exact ⟨_, rfl⟩

theorem run_of_usable
    (h : ∀ assignment ∈ request.assignments, ¬ Overrides.NamesNone assignment)
    (hfile : ¬ request.Fails host) :
    ∃ snapshot events,
      (∀ n setting, Yields (Registry.builtin.spec n) (request.offers host n) setting ↔
        setting = snapshot.setting n) ∧
      request.run host =
        .success (if request.json then snapshot.json.pretty ++ "\n" else table snapshot)
          events := by
  obtain ⟨overrides, hassign, hname, hvalues⟩ := exists_assignAll h (.new "cli")
  have hset : ∀ n raw, overrides.values n = some raw ↔ SetTo request.assignments n raw := by
    intro n raw
    rw [hvalues]
    exact or_iff_left fun h => nomatch h.2
  obtain ⟨snapshot, hs⟩ := exists_resolve_of_loads Registry.builtin (loads_sources hfile overrides)
  refine ⟨snapshot, (Registry.builtin.resolve (request.sources host overrides)).events,
    fun n setting => ?_, ?_⟩
  · rw [yields_iff_settles Registry.builtin (forall₂_makes hname hset hfile n)]
    exact settles_iff hs
  · simp only [run, hassign, hs]

theorem exists_first_namesNone {assignments : List String}
    (h : ∃ assignment ∈ assignments, Overrides.NamesNone assignment) :
    ∃ before assignment after, assignments = before ++ assignment :: after ∧
      (∀ b ∈ before, ¬ Overrides.NamesNone b) ∧ Overrides.NamesNone assignment := by
  rcases forall_or_exists_first (fun a => ¬ Overrides.NamesNone a) assignments with
    hall | ⟨before, a, after, he, hbefore, ha⟩
  · obtain ⟨assignment, hmem, hnone⟩ := h
    exact absurd hnone (hall assignment hmem)
  · exact ⟨before, a, after, he, hbefore, not_not.mp ha⟩

/-- The command fails without output just if an assignment names no option or its file is of no
use. -/
theorem run_fails_iff : (request.run host).exit = 1 ∧ (request.run host).output = "" ↔
    (∃ assignment ∈ request.assignments, Overrides.NamesNone assignment) ∨
      request.Fails host := by
  by_cases hset : ∃ assignment ∈ request.assignments, Overrides.NamesNone assignment
  · refine iff_of_true ?_ (.inl hset)
    obtain ⟨before, assignment, after, he, hbefore, name, raw, h, hname⟩ :=
      exists_first_namesNone hset
    rw [run_of_unknown he hbefore h hname]
    exact ⟨rfl, rfl⟩
  · have hall : ∀ assignment ∈ request.assignments, ¬ Overrides.NamesNone assignment :=
      fun a ha hnone => hset ⟨a, ha, hnone⟩
    by_cases hfile : request.Fails host
    · refine iff_of_true ?_ (.inr hfile)
      obtain ⟨path, hpath, hunusable⟩ := hfile
      obtain ⟨cause, hcause⟩ := (FileContent.unusable_iff path.shown _).mp hunusable
      obtain ⟨events, hrun⟩ := run_of_unusable hall hpath hcause
      rw [hrun]
      exact ⟨rfl, rfl⟩
    · refine iff_of_false ?_ (not_or.mpr ⟨hset, hfile⟩)
      obtain ⟨snapshot, events, -, hrun⟩ := run_of_usable hall hfile
      rw [hrun]
      exact fun h => Nat.zero_ne_one h.1

/-! ### What the command reports -/

theorem reports_unknown {before after : List String} {assignment name raw : String}
    (he : request.assignments = before ++ assignment :: after)
    (hbefore : ∀ b ∈ before, ¬ Overrides.NamesNone b) (h : Overrides.Splits assignment name raw)
    (hname : ∀ n : OptionName, name ≠ n.text) :
    (request.run host).error = some (Report.errorText
        ["Invalid --set value: " ++ assignment, unknownOptionMessage name]) ∧
      ∃ shown, (request.run host).error = some
          ("Error: " ++ ("Invalid --set value: " ++ assignment) ++ "\n\nCaused by:\n" ++
            ("    " ++ unknownOptionMessage shown ++ "\n")) ∧
        ('\n' ∉ name.toList → shown = name) := by
  have herror : (request.run host).error = some (Report.errorText
      ["Invalid --set value: " ++ assignment, unknownOptionMessage name]) := by
    rw [run_of_unknown he hbefore h hname]
    rfl
  obtain ⟨shown, htext, hshown⟩ := exists_invalidAssignment assignment name
  exact ⟨herror, shown, by rw [herror, htext], hshown⟩

theorem reports_unusable
    (h : ∀ assignment ∈ request.assignments, ¬ Overrides.NamesNone assignment)
    {path : SystemText} (hpath : request.file = some path)
    (hfile : (host.fileAt path).Unusable) :
    ∃ cause, (host.fileAt path).assignments path.shown = .error cause ∧
      (request.run host).error = some (Report.errorText
        (ResolutionError.messages ⟨"ini:" ++ path.shown, cause⟩)) ∧
      ∃ causes, (request.run host).error = some
        ("Error: " ++ ("config source " ++ quoted ("ini:" ++ path.shown) ++ " is unreadable") ++
          "\n\nCaused by:\n" ++ causes) := by
  obtain ⟨cause, hcause⟩ := (FileContent.unusable_iff path.shown _).mp hfile
  obtain ⟨events, hrun⟩ := run_of_unusable h hpath hcause
  have herror : (request.run host).error = some (Report.errorText
      (ResolutionError.messages ⟨"ini:" ++ path.shown, cause⟩)) := by
    rw [hrun]
    rfl
  obtain ⟨causes, htext⟩ := exists_unreadableSource path.shown cause
  exact ⟨cause, hcause, herror, causes, by rw [herror, htext]⟩

theorem reports_outcomes
    (h : ∀ assignment ∈ request.assignments, ¬ Overrides.NamesNone assignment)
    (hfile : ¬ request.Fails host) :
    (request.run host).exit = 0 ∧ (request.run host).error = none ∧
      ∃ outcome : OptionName → Setting,
        (∀ n setting, Yields (Registry.builtin.spec n) (request.offers host n) setting ↔
          setting = outcome n) ∧
        (request.json = false → ShowsTable outcome (request.run host).output) ∧
        (request.json = true → ShowsDocument outcome (request.run host).output) ∧
        ∀ n v r, outcome n = .rejected v r → r.error.Quotes r.raw ∧
          ('\n' ∈ (entry n r).toList ↔ '\n' ∈ r.source.toList ∨ '\n' ∈ r.raw.toList) := by
  obtain ⟨snapshot, events, hyields, hrun⟩ := run_of_usable h hfile
  have houtput : (request.run host).output =
      if request.json then snapshot.json.pretty ++ "\n" else table snapshot := by
    rw [hrun]
    rfl
  refine ⟨by rw [hrun]; rfl, by rw [hrun]; rfl, snapshot.setting, hyields, fun hjson => ?_,
    fun hjson => ?_, ?_⟩
  · rw [houtput, hjson, if_neg Bool.false_ne_true]
    exact showsTable snapshot
  · rw [houtput, hjson, if_pos rfl]
    exact showsDocument snapshot
  · intro n v r hr
    have hquotes : r.error.Quotes r.raw := by
      cases (hyields n _).mpr hr.symm with
      | rejected _ hread => exact OptionSpec.quotes_of_read_eq_error hread
    exact ⟨hquotes, lineFeed_mem_entry_iff n hquotes⟩

end ShowRequest

/-! ### The program -/

/-- The report with those of its events that are to be kept. -/
def Report.keeping (keep : Event → Bool) (report : Report) : Report :=
  { report with events := report.events.filter keep }

namespace Program

variable {host : Host} {args : List String} {verbose : Bool} {a : Arguments}
  {file : Option SystemText}

theorem run_show (hread : read args = .command .show verbose a)
    (hfile : configurationFile host.environment a = .ok file) :
    run host args =
      (ShowRequest.run ⟨file, a.values "set", !a.has "no-env", a.has "json"⟩ host).keeping
        (Event.isLogged (directives host.environment verbose)) := by
  simp only [run, hread, runCommand, hfile, Report.keeping]

theorem configurationFile_congr (h : a.values "ini" ≠ []) (env env' : Environment) :
    configurationFile env' a = configurationFile env a := by
  obtain ⟨path, more, hini⟩ := List.exists_cons_of_ne_nil h
  simp only [configurationFile, hini]

end Program

theorem ShowRequest.run_environment_congr {request : ShowRequest}
    (h : request.useEnvironment = false) (host : Host) (environment : Environment) :
    request.run { host with environment } = request.run host := by
  simp only [run, sources, h, Bool.false_eq_true, if_false]

/-- **What the command for showing options does.**  It fails without output just if an assignment
names no option or the file is of no use.  The first such assignment is reported, and then no file
is read; else the error is that of the file.  If the command does not fail, it prints every option
as its offers yield it, in a table or a document.  Under a table stands one entry for each refused
text, which quotes the text, and is one line unless the text or the name of its source has several.
With a file given by a flag and without the environment, the environment makes no difference. -/
theorem show_reports_first_offers (host : Host) (args : List String) (verbose : Bool)
    (a : Arguments) (file : Option SystemText)
    (hread : Program.read args = .command .show verbose a)
    (hfile : Program.configurationFile host.environment a = .ok file) :
    let request : ShowRequest := ⟨file, a.values "set", !a.has "no-env", a.has "json"⟩
    let report := Program.run host args
    (report.exit = 1 ∧ report.output = "" ↔
      (∃ assignment ∈ request.assignments, Overrides.NamesNone assignment) ∨
        request.Fails host) ∧
    (∀ before assignment after name raw,
      request.assignments = before ++ assignment :: after →
      (∀ b ∈ before, ¬ Overrides.NamesNone b) → Overrides.Splits assignment name raw →
      (∀ n : OptionName, name ≠ n.text) →
      report.error = some (Report.errorText
        ["Invalid --set value: " ++ assignment, unknownOptionMessage name]) ∧
      (∃ shown, report.error = some
          ("Error: " ++ ("Invalid --set value: " ++ assignment) ++ "\n\nCaused by:\n" ++
            ("    " ++ unknownOptionMessage shown ++ "\n")) ∧
        ('\n' ∉ name.toList → shown = name)) ∧
      ∀ fileAt, Program.run { host with fileAt } args = report) ∧
    ((∀ assignment ∈ request.assignments, ¬ Overrides.NamesNone assignment) →
      (∀ path, request.file = some path → (host.fileAt path).Unusable →
        ∃ cause, (host.fileAt path).assignments path.shown = .error cause ∧
          report.error = some (Report.errorText
            (ResolutionError.messages ⟨"ini:" ++ path.shown, cause⟩)) ∧
          ∃ causes, report.error = some
            ("Error: " ++ ("config source " ++ quoted ("ini:" ++ path.shown) ++
              " is unreadable") ++ "\n\nCaused by:\n" ++ causes)) ∧
      (¬ request.Fails host → report.exit = 0 ∧ report.error = none ∧
        ∃ outcome : OptionName → Setting,
          (∀ n setting, Yields (Registry.builtin.spec n) (request.offers host n) setting ↔
            setting = outcome n) ∧
          (request.json = false → ShowsTable outcome report.output) ∧
          (request.json = true → ShowsDocument outcome report.output) ∧
          ∀ n v r, outcome n = .rejected v r → r.error.Quotes r.raw ∧
            ('\n' ∈ (entry n r).toList ↔ '\n' ∈ r.source.toList ∨ '\n' ∈ r.raw.toList))) ∧
    (a.has "no-env" → a.values "ini" ≠ [] → ∀ environment,
      let other := Program.run { host with environment } args
      other.exit = report.exit ∧ other.output = report.output ∧ other.error = report.error) := by
  intro request report
  have hreport : report = (request.run host).keeping _ := Program.run_show hread hfile
  rw [hreport]
  refine ⟨ShowRequest.run_fails_iff, ?_, fun hall => ⟨fun path => ShowRequest.reports_unusable hall,
    ShowRequest.reports_outcomes hall⟩, ?_⟩
  · intro before assignment after name raw he hbefore h hname
    obtain ⟨herror, hshown⟩ := ShowRequest.reports_unknown he hbefore h hname
    refine ⟨herror, hshown, fun fileAt => ?_⟩
    have hother : Program.run { host with fileAt } args =
        (request.run { host with fileAt }).keeping _ := Program.run_show hread hfile
    rw [hother, ShowRequest.run_of_unknown he hbefore h hname,
      ShowRequest.run_of_unknown he hbefore h hname]
  · intro hnoenv hini environment
    have hother : Program.run { host with environment } args =
        (request.run { host with environment }).keeping _ :=
      Program.run_show hread ((Program.configurationFile_congr hini _ _).trans hfile)
    have huse : request.useEnvironment = false := by simp only [request, hnoenv, Bool.not_true]
    rw [hother, ShowRequest.run_environment_congr huse]
    exact ⟨rfl, rfl, rfl⟩

/-- A file that enables the agent, under a variable that disables it. -/
def enabledByFile : Host :=
  ⟨[("ELASTIC_OTEL_ENABLED", .text "no")], fun _ => .ofText "elastic_otel.enabled = on"⟩

def enabledArguments : Arguments :=
  ⟨[("set", "enabled=maybe"), ("no-env", ""), ("ini", "agent.ini")], []⟩

def misspelledArguments : Arguments := ⟨[("set", "enable=yes")], []⟩

theorem show_reports_first_offers_enabled :
    let args := ["show", "--set", "enabled=maybe", "--no-env", "--ini=agent.ini"]
    let report := Program.run enabledByFile args
    Program.read args = .command .show false enabledArguments ∧
      Program.configurationFile enabledByFile.environment enabledArguments =
        .ok (some (.text "agent.ini")) ∧
      report.exit = 0 ∧
      (∃ outcome : OptionName → Setting,
        outcome .enabled = .rejected (.bool true) ⟨"cli", "maybe", .notBoolean "maybe"⟩ ∧
        ShowsTable outcome report.output) ∧
      (∃ rows entries,
        HasLines report.output (rows ++ ["", "Rejected values:"] ++ entries) ∧
        (∃ row ∈ rows, ∃ blanks : List Char, (∀ c ∈ blanks, c = ' ') ∧
          row.toList = "enabled".toList ++ blanks ++ "true  (default)".toList) ∧
        "  enabled from cli: `maybe` is not a boolean (expected true/false, yes/no, on/off or 1/0)"
          ∈ entries) ∧
      (Program.run ⟨[], enabledByFile.fileAt⟩ args).output = report.output ∧
      (Program.run enabledByFile ["show", "-senable=yes"]).error =
        some ("Error: Invalid --set value: enable=yes\n\nCaused by:\n" ++
          "    unknown option `enable`\n") := by
  intro args report
  have hread : Program.read args = .command .show false enabledArguments := by rfl
  have hfile : Program.configurationFile enabledByFile.environment enabledArguments =
    .ok (some (.text "agent.ini")) := by rfl
  obtain ⟨-, -, hrest, hsame⟩ :=
    show_reports_first_offers enabledByFile args false enabledArguments _ hread hfile
  have hset : Overrides.Splits "enabled=maybe" (OptionName.text .enabled) "maybe" :=
    Overrides.splits_splitAssignment "enabled=maybe"
  have hall : ∀ assignment ∈ ["enabled=maybe"], ¬ Overrides.NamesNone assignment :=
    List.forall_mem_singleton.mpr hset.not_namesNone
  have huse : ¬ (FileContent.ofText "elastic_otel.enabled = on").Unusable := by
    have hread : (FileContent.ofText "elastic_otel.enabled = on").assignments "agent.ini" =
        .ok [("elastic_otel.enabled", "on")] := by decide +kernel
    exact (Source.loads_file_iff "agent.ini" _).mp ⟨_, Source.load_file hread _⟩
  obtain ⟨hexit, -, outcome, hyields, htable, -⟩ := (hrest hall).2 fun ⟨_, _, h⟩ => huse h
  have htaken : Taken
      (ShowRequest.offers ⟨some (.text "agent.ini"), ["enabled=maybe"], false, false⟩
        enabledByFile .enabled) "cli" (Text.trim "maybe") :=
    .first (LastGiven.cons_iff.mpr (.inr ⟨hset, by simp⟩)) (by decide)
  have henabled : outcome .enabled =
      .rejected (.bool true) ⟨"cli", "maybe", .notBoolean "maybe"⟩ :=
    ((hyields .enabled _).mp (.rejected htaken (by decide))).symm
  refine ⟨hread, hfile, hexit, ⟨outcome, henabled, htable rfl⟩, ?_,
    (hsame (by decide) (by decide) []).2.1, ?_⟩
  · obtain ⟨column, rows, entries, hlines, ⟨row, hrow, hmk⟩, hentry⟩ :=
      (htable rfl).exists_entry henabled
    refine ⟨rows, entries, hlines, ⟨row, hrow, ?_⟩, hentry⟩
    obtain ⟨hshown, hblanks, -, htext⟩ := hmk
    cases hshown with
    | rejected hcell => cases hcell with
      | raw hraw =>
          cases hraw
          refine ⟨_, hblanks, ?_⟩
          simp only [htext, List.append_assoc]
          rfl
  · obtain ⟨-, hfirst, -, -⟩ :=
      show_reports_first_offers enabledByFile ["show", "-senable=yes"] false misspelledArguments
        none rfl rfl
    have herror := hfirst [] "enable=yes" [] "enable" "yes" rfl (by simp)
      (Overrides.splits_splitAssignment "enable=yes") (by intro n; cases n <;> decide)
    rw [herror.1]
    decide +kernel

/-- A refused text is printed as it is, so that the entry for it can be two lines. -/
theorem show_enters_one_text_on_two_lines :
    let report := Program.run ⟨[], fun _ => .failure .notFound⟩
      ["show", "--no-env", "--set", "enabled=may\nbe"]
    report.exit = 0 ∧
      (∃ snapshot, (Registry.builtin.resolve
          [.overrides ⟨"cli", [(.enabled, "may\nbe")]⟩]).result = .ok snapshot ∧
        snapshot.rejections = [(.enabled, ⟨"cli", "may\nbe", .notBoolean "may\nbe"⟩)]) ∧
      (∃ rows, HasLines report.output (rows ++ ["", "Rejected values:", "  enabled from cli: `may",
        "be` is not a boolean (expected true/false, yes/no, on/off or 1/0)"])) ∧
      ¬ ∃ rows line, '\n' ∉ line.toList ∧
        HasLines report.output (rows ++ ["", "Rejected values:", line]) := by
  intro report
  obtain ⟨s, hresolve, hreport⟩ : ∃ s, (Registry.builtin.resolve
      [.overrides ⟨"cli", [(.enabled, "may\nbe")]⟩]).result = .ok s ∧
      report.output = ShowRequest.table s := ⟨_, rfl, rfl⟩
  have htable : HasLines (ShowRequest.table s) _ := hasLines_lines _
  have hnotes : (ShowRequest.rejectionLines s).flatMap (fun line => line.toList ++ ['\n']) =
      ["", "Rejected values:", "  enabled from cli: `may",
        "be` is not a boolean (expected true/false, yes/no, on/off or 1/0)"].flatMap
          fun line => line.toList ++ ['\n'] := by
    cases hresolve
    decide +kernel
  have hlines : HasLines report.output
      (OptionName.all.map (ShowRequest.settingLine nameWidth s) ++ ["", "Rejected values:",
        "  enabled from cli: `may",
        "be` is not a boolean (expected true/false, yes/no, on/off or 1/0)"]) := by
    unfold HasLines at htable ⊢
    rw [hreport, htable, List.flatMap_append, List.flatMap_append, hnotes]
    rfl
  refine ⟨rfl, ⟨s, hresolve, ?_⟩, ⟨_, hlines⟩, ?_⟩
  · cases hresolve
    decide +kernel
  · rintro ⟨rows, line, hline, h⟩
    have hlast : '\n' ∉
        "be` is not a boolean (expected true/false, yes/no, on/off or 1/0)".toList := by
      decide +kernel
    rw [List.append_cons rows] at h
    rw [List.append_cons, List.append_cons _ "Rejected values:"] at hlines
    obtain ⟨-, hsuffix | hsuffix⟩ := h.last_eq hlines hline hlast
    · exact absurd hsuffix (by decide +kernel)
    · exact absurd hsuffix (by decide +kernel)

end AgentOptions
