import AgentOptions.Proofs.FileFormat
import AgentOptions.Proofs.Loading

/-! # Sources that carry the same texts

Overrides, an environment and a file can all be written for the same texts of options, whatever
other variables and lines they hold (`Source.Carries`).  Such a source loads these texts and
nothing else (`Source.Carries.exists_load`), because no two options share a variable or a key and
the quotes around a text come off exactly once.  So one of them can stand for another in every
list of sources, up to its name (`Setting.SameBut`).

Main statement: `carriers_interchange`. -/

namespace AgentOptions

/-! ### Names of options -/

/-- A key character that is no capital letter. -/
def ConfigFile.isSmallKeyChar (c : Char) : Bool := isKeyChar c && c.toLower == c

theorem ConfigFile.isSmallKeyChar_iff {c : Char} :
    isSmallKeyChar c = true ↔ KeyChar c ∧ c.toLower = c := by
  rw [isSmallKeyChar, Bool.and_eq_true, isKeyChar_iff, beq_iff_eq]

namespace OptionName

theorem eq_of_nodup_map {α : Type} {f : OptionName → α} (h : (all.map f).Nodup)
    {n m : OptionName} (he : f n = f m) : n = m :=
  List.inj_on_of_nodup_map h (mem_all n) (mem_all m) he

theorem variableName_inj {n m : OptionName} (h : n.variableName = m.variableName) : n = m :=
  eq_of_nodup_map (by decide +kernel) h

theorem fileKey_inj {n m : OptionName} (h : n.fileKey = m.fileKey) : n = m :=
  eq_of_nodup_map (by decide +kernel) h

theorem small_of_mem_fileKey {n : OptionName} {c : Char} (h : c ∈ n.fileKey.toList) :
    ConfigFile.isSmallKeyChar c = true := by
  have htext : ∀ n ∈ all, n.text.toList.all ConfigFile.isSmallKeyChar = true := by
    decide +kernel
  have hsection : ∀ v ∈ Vendor.all, v.sectionName.toList.all ConfigFile.isSmallKeyChar = true := by
    decide +kernel
  have hvendor : n.vendor ∈ Vendor.all := by
    cases n.vendor with
    | otel => decide
    | otelPhp => decide
    | elasticOtel => decide
  simp only [fileKey, String.toList_append, List.mem_append] at h
  rcases h with (h | h) | h
  · exact List.all_eq_true.mp (hsection n.vendor hvendor) c h
  · obtain rfl := List.mem_singleton.mp h
    decide
  · exact List.all_eq_true.mp (htext n (mem_all n)) c h

end OptionName

/-! ### Overrides -/

namespace Overrides

/-- Sets texts one after another. -/
def setAll (o : Overrides) (sets : List (OptionName × String)) : Overrides :=
  sets.foldl (fun o p => o.set p.1 p.2) o

theorem writes_setAll (o : Overrides) (sets : List (OptionName × String)) :
    (o.setAll sets).writes = sets.reverse ++ o.writes := by
  induction sets generalizing o with
  | nil => rfl
  | cons p sets ih =>
      rw [List.reverse_cons, List.append_assoc]
      exact ih (o.set p.1 p.2)

theorem values_setAll {name : String} {f : RawValues} {sets : List (OptionName × String)}
    (h : ∀ n raw, (n, raw) ∈ sets ↔ f n = some raw) : ((new name).setAll sets).values = f := by
  funext n
  rw [values, writes_setAll]
  refine Bindings.lookup_eq_of_mem_iff fun raw => ?_
  rw [← h]
  simp [new]

end Overrides

/-! ### Environments -/

namespace Environment

/-- The environment has the variable of every option with a text, with that text, and otherwise
variables that belong to no option. -/
structure Carries (f : RawValues) (env : Environment) : Prop where
  assigned : ∀ n raw, f n = some raw → (n.variableName, .text raw) ∈ env
  others : ∀ name content, (name, content) ∈ env →
    (∃ n raw, f n = some raw ∧ name = n.variableName ∧ content = .text raw) ∨
      ∀ n : OptionName, name ≠ n.variableName

theorem Carries.mem_iff {f : RawValues} {env : Environment} (h : env.Carries f) (n : OptionName)
    (content : SystemText) :
    (n.variableName, content) ∈ env ↔ (f n).map SystemText.text = some content := by
  rw [Option.map_eq_some_iff]
  constructor
  · intro hmem
    rcases h.others _ _ hmem with ⟨m, raw, hf, hname, rfl⟩ | hother
    · obtain rfl := OptionName.variableName_inj hname
      exact ⟨raw, hf, rfl⟩
    · exact absurd rfl (hother n)
  · rintro ⟨raw, hf, rfl⟩
    exact h.assigned n raw hf

theorem Carries.values_eq {f : RawValues} {env : Environment} (h : env.Carries f) :
    env.values = f := by
  funext n
  have hget : env.get? n.variableName = (f n).map SystemText.text := by
    refine Bindings.lookup_eq_of_mem_iff fun content => ?_
    rw [List.mem_reverse]
    exact h.mem_iff n content
  rw [values, hget]
  cases f n with
  | none => rfl
  | some raw => rfl

end Environment

/-! ### Files -/

theorem Text.trimChars_of_ends {first last : Char} (hf : isBlank first = false)
    (hl : isBlank last = false) (middle : List Char) :
    trimChars (first :: (middle ++ [last])) = first :: (middle ++ [last]) := by
  rw [trimChars_eq_self_iff]
  constructor
  · intro c hc
    obtain rfl : first = c := Option.some.inj hc
    exact hf
  · intro c hc
    rw [← List.cons_append, List.getLast?_concat] at hc
    obtain rfl : last = c := Option.some.inj hc
    exact hl

namespace ConfigFile

theorem keyChar_of_toLower {c : Char} (h : KeyChar c.toLower) : KeyChar c := by
  unfold Char.toLower at h
  split at h
  · next hupper => exact .inl ⟨hupper.1, hupper.2⟩
  · exact h

/-- A line with the key of an option in any letter case and a text in quotes, with blanks around
the key, the `=` and the quotes. -/
inductive OptionLine (n : OptionName) (raw : String) : List Char → Prop
  | mk {left key before after right : List Char} : key.map Char.toLower = n.fileKey.toList →
      (∀ c ∈ left, Text.isBlank c) → (∀ c ∈ before, Text.isBlank c) →
      (∀ c ∈ after, Text.isBlank c) → (∀ c ∈ right, Text.isBlank c) →
      OptionLine n raw
        (left ++ (key ++ (before ++ '=' :: (after ++ '"' :: (raw.toList ++ ['"'])))) ++ right)

/-- The line of an option, a line without a meaning, or a line with a key of no option. -/
inductive FileLine (f : RawValues) (line : List Char) : Prop
  | option {n : OptionName} {raw : String} : f n = some raw → OptionLine n raw line →
      FileLine f line
  | idle : Idle (Text.trimChars line) → FileLine f line
  | other {key value : String} : Assigns (Text.trimChars line) key value →
      (∀ n : OptionName, key ≠ n.fileKey) → FileLine f line

/-- The text has a line for every option with a text, and otherwise lines that say nothing about
options. -/
structure Carries (f : RawValues) (content : String) : Prop where
  assigned : ∀ n raw, f n = some raw → ∃ line ∈ content.toList.splitOn '\n', OptionLine n raw line
  others : ∀ line ∈ content.toList.splitOn '\n', FileLine f line

theorem Assigns.unique {line : List Char} {key key' value value' : String}
    (h : Assigns line key value) (h' : Assigns line key' value') : key = key' ∧ value = value' := by
  rw [assigns_iff] at h h'
  exact Prod.mk.inj (Option.some.inj (h.symm.trans h'))

/-- The line of an option assigns the text to its key: the blanks go with the trimming, and of the
quotes only the outer ones. -/
theorem OptionLine.assigns {n : OptionName} {raw : String} {line : List Char}
    (h : OptionLine n raw line) : Assigns (Text.trimChars line) n.fileKey raw := by
  rcases h with @⟨left, key, before, after, right, hkey, hleft, hbefore, hafter, hright⟩
  have hquote : Text.isBlank '"' = false := by decide
  have hchars : ∀ c ∈ key, KeyChar c := by
    intro c hc
    have hmem : c.toLower ∈ n.fileKey.toList := hkey ▸ List.mem_map_of_mem hc
    exact keyChar_of_toLower (isSmallKeyChar_iff.mp (OptionName.small_of_mem_fileKey hmem)).1
  obtain ⟨c, rest, rfl⟩ : ∃ c rest, key = c :: rest := by
    refine List.exists_cons_of_ne_nil ?_
    rintro rfl
    simp [OptionName.fileKey] at hkey
  have hc : Text.isBlank c = false := (hchars c List.mem_cons_self).isBlank_eq_false
  have hvalue : Unquotes (Text.trimChars (after ++ '"' :: (raw.toList ++ ['"']))) raw.toList := by
    rw [Text.trimChars_blanks_append hafter, Text.trimChars_of_ends hquote hquote]
    exact .quoted (.inl rfl)
  have hassigns := Assigns.mk (List.cons_ne_nil c rest) hchars hbefore hvalue
  rw [hkey, String.ofList_toList, String.ofList_toList] at hassigns
  have hbody : c :: rest ++ (before ++ '=' :: (after ++ '"' :: (raw.toList ++ ['"']))) =
      c :: ((rest ++ (before ++ '=' :: (after ++ '"' :: raw.toList))) ++ ['"']) := by
    simp
  rw [hbody] at hassigns ⊢
  rw [Text.trimChars_append_blanks hright, Text.trimChars_blanks_append hleft,
    Text.trimChars_of_ends hc hquote]
  exact hassigns

theorem FileLine.legal {f : RawValues} {line : List Char} (h : FileLine f line) :
    Legal (Text.trimChars line) := by
  cases h with
  | option _ hline => exact .inr ⟨_, _, hline.assigns⟩
  | idle hidle => exact .inl hidle
  | other ha _ => exact .inr ⟨_, _, ha⟩

theorem FileLine.eq_some_of_assigns {f : RawValues} {line : List Char} (h : FileLine f line)
    {n : OptionName} {raw : String} (ha : Assigns (Text.trimChars line) n.fileKey raw) :
    f n = some raw := by
  cases h with
  | option hf hline =>
      obtain ⟨hkey, rfl⟩ := hline.assigns.unique ha
      obtain rfl := OptionName.fileKey_inj hkey
      exact hf
  | idle hidle => exact absurd ha (hidle.not_assigns _ _)
  | other ho hkey => exact absurd (ho.unique ha).1 (hkey n)

theorem Carries.value?_eq {f : RawValues} {content : String} (h : Carries f content)
    (n : OptionName) : value? ((lines content).filterMap assignment?) n.fileKey = f n := by
  refine Bindings.lookup_eq_of_mem_iff fun raw => ?_
  rw [List.mem_reverse, List.mem_filterMap]
  constructor
  · rintro ⟨line, hline, ha⟩
    obtain ⟨piece, hpiece, rfl⟩ := mem_lines_iff.mp hline
    exact (h.others piece hpiece).eq_some_of_assigns (assigns_iff.mpr ha)
  · intro hf
    obtain ⟨piece, hpiece, hline⟩ := h.assigned n raw hf
    exact ⟨_, mem_lines_iff.mpr ⟨piece, hpiece, rfl⟩, assigns_iff.mp hline.assigns⟩

theorem Carries.legal {f : RawValues} {content : String} (h : Carries f content) :
    ∀ line ∈ lines content, Legal line := by
  intro line hline
  obtain ⟨piece, hpiece, rfl⟩ := mem_lines_iff.mp hline
  exact (h.others piece hpiece).legal

end ConfigFile

/-! ### Sources -/

/-- The source is written for the texts: overrides that set them, or an environment or a file that
carries them. -/
inductive Source.Carries (f : RawValues) : Source → Prop
  | overrides {name : String} {sets : List (OptionName × String)} :
      (∀ n raw, (n, raw) ∈ sets ↔ f n = some raw) →
      Source.Carries f (.overrides ((Overrides.new name).setAll sets))
  | environment {env : Environment} : env.Carries f → Source.Carries f (.environment env)
  | file {path content : String} {file : FileContent} : file.text path = .ok content →
      ConfigFile.Carries f content → Source.Carries f (.file path file)

/-- The source loads the texts of the requested options, and nothing else. -/
theorem Source.Carries.exists_load {f : RawValues} {s : Source} (h : s.Carries f)
    (requested : List OptionName) :
    ∃ loaded, s.load requested = .ok loaded ∧ loaded.values = f.restrict requested := by
  cases h with
  | overrides hsets =>
      refine ⟨_, rfl, ?_⟩
      rw [Overrides.values_setAll hsets]
  | environment henv =>
      refine ⟨_, rfl, ?_⟩
      rw [henv.values_eq]
  | @file path content file htext hfile =>
      have hread : file.assignments path =
          .ok ((ConfigFile.lines content).filterMap ConfigFile.assignment?) :=
        (ConfigFile.assignments_eq_ok_iff htext).mpr ⟨hfile.legal, rfl⟩
      refine ⟨_, Source.load_file hread requested, ?_⟩
      simp only [hfile.value?_eq]

/-! ### Sources that exist -/

theorem RawValues.mem_toList_iff {f : RawValues} {n : OptionName} {raw : String} :
    (n, raw) ∈ f.toList ↔ f n = some raw := by
  simp [RawValues.toList, OptionName.mem_all]

/-- The variables of all options with a text. -/
def Environment.ofValues (f : RawValues) : Environment :=
  f.toList.map fun p => (p.1.variableName, .text p.2)

theorem Environment.carries_ofValues (f : RawValues) : (ofValues f).Carries f where
  assigned n raw hf := List.mem_map.mpr ⟨(n, raw), RawValues.mem_toList_iff.mpr hf, rfl⟩
  others name content hmem := by
    obtain ⟨⟨n, raw⟩, hp, he⟩ := List.mem_map.mp hmem
    obtain ⟨rfl, rfl⟩ := Prod.mk.inj he
    exact .inl ⟨n, raw, RawValues.mem_toList_iff.mp hp, rfl, rfl⟩

namespace ConfigFile

/-- The plain line of an option. -/
def plainLine (n : OptionName) (raw : String) : List Char :=
  n.fileKey.toList ++ '=' :: '"' :: (raw.toList ++ ['"'])

/-- An empty line, and the plain lines of all options with a text. -/
def ofValues (f : RawValues) : String :=
  String.ofList (['\n'].intercalate ([] :: f.toList.map fun p => plainLine p.1 p.2))

/-- Lines in any order and layout make a text that carries what they assign. -/
theorem carries_ofLines {f : RawValues} {lines : List (List Char)} (hne : lines ≠ [])
    (hfeed : ∀ line ∈ lines, '\n' ∉ line)
    (hassigned : ∀ n raw, f n = some raw → ∃ line ∈ lines, OptionLine n raw line)
    (hothers : ∀ line ∈ lines, FileLine f line) :
    Carries f (String.ofList (['\n'].intercalate lines)) := by
  have hlines : (String.ofList (['\n'].intercalate lines)).toList.splitOn '\n' = lines := by
    rw [String.toList_ofList]
    exact List.splitOn_intercalate '\n' hfeed hne
  constructor
  · rw [hlines]
    exact hassigned
  · rw [hlines]
    exact hothers

theorem optionLine_plainLine (n : OptionName) (raw : String) :
    OptionLine n raw (plainLine n raw) := by
  have hkey : n.fileKey.toList.map Char.toLower = n.fileKey.toList := by
    have hid : n.fileKey.toList.map Char.toLower = n.fileKey.toList.map id :=
      List.map_congr_left fun c hc =>
        (isSmallKeyChar_iff.mp (OptionName.small_of_mem_fileKey hc)).2
    rw [hid, List.map_id]
  have hblank : ∀ c ∈ ([] : List Char), Text.isBlank c := by simp
  have hline : OptionLine n raw ([] ++ _ ++ []) := .mk hkey hblank hblank hblank hblank
  simpa [plainLine] using hline

theorem not_mem_plainLine {n : OptionName} {raw : String} (h : '\n' ∉ raw.toList) :
    '\n' ∉ plainLine n raw := by
  have hkey : '\n' ∉ n.fileKey.toList := by
    intro hc
    exact absurd (OptionName.small_of_mem_fileKey hc) (by decide)
  simp [plainLine, hkey, h]

theorem carries_ofValues {f : RawValues} (hf : ∀ n raw, f n = some raw → '\n' ∉ raw.toList) :
    Carries f (ofValues f) := by
  refine carries_ofLines (List.cons_ne_nil _ _) ?_ ?_ ?_
  · rw [List.forall_mem_cons, List.forall_mem_map]
    refine ⟨List.not_mem_nil, fun p hp => ?_⟩
    exact not_mem_plainLine (hf p.1 p.2 (RawValues.mem_toList_iff.mp hp))
  · intro n raw hraw
    have hp : (n, raw) ∈ f.toList := RawValues.mem_toList_iff.mpr hraw
    exact ⟨plainLine n raw, List.mem_cons_of_mem _ (List.mem_map.mpr ⟨_, hp, rfl⟩),
      optionLine_plainLine n raw⟩
  · rw [List.forall_mem_cons, List.forall_mem_map]
    refine ⟨.idle .empty, fun p hp => ?_⟩
    exact .option (RawValues.mem_toList_iff.mp hp) (optionLine_plainLine p.1 p.2)

end ConfigFile

/-! ### Resolving -/

/-- The settings are the same, but for a source that has one name in the one and another name in
the other. -/
inductive Setting.SameBut (name name' : String) : Setting → Setting → Prop
  | refl (setting : Setting) : SameBut name name' setting setting
  | supplied (value : OptionValue) :
      SameBut name name' (.supplied value name) (.supplied value name')
  | rejected (value : OptionValue) (raw : String) (error : ReadError) :
      SameBut name name' (.rejected value ⟨name, raw, error⟩) (.rejected value ⟨name', raw, error⟩)

/-- The refused texts with the reasons, in declared order. -/
def Snapshot.refusals (s : Snapshot) : List (OptionName × String × ReadError) :=
  s.rejections.map fun p => (p.1, p.2.raw, p.2.error)

section sameBut

variable {name name' : String}

theorem Setting.SameBut.value_eq {s t : Setting} (h : SameBut name name' s t) :
    s.value = t.value := by
  cases h with
  | refl => rfl
  | supplied => rfl
  | rejected => rfl

theorem Setting.SameBut.rejection?_map_eq {s t : Setting} (h : SameBut name name' s t) :
    s.rejection?.map (fun r => (r.raw, r.error)) = t.rejection?.map fun r => (r.raw, r.error) := by
  cases h with
  | refl => rfl
  | supplied => rfl
  | rejected => rfl

variable {s t : Snapshot} (h : ∀ n, (s.setting n).SameBut name name' (t.setting n))

include h

theorem Snapshot.values_eq_of_sameBut : s.values = t.values :=
  List.map_congr_left fun n _ => congrArg (n, ·) (h n).value_eq

theorem Snapshot.refusals_eq_of_sameBut : s.refusals = t.refusals := by
  have hrefusals : ∀ u : Snapshot, u.refusals = OptionName.all.filterMap fun n =>
      ((u.rejection? n).map fun r => (r.raw, r.error)).map (n, ·) := by
    intro u
    rw [refusals, rejections, List.map_filterMap]
    simp only [Option.map_map]
    rfl
  rw [hrefusals, hrefusals]
  refine List.filterMap_congr fun n _ => ?_
  exact congrArg (Option.map (n, ·)) (h n).rejection?_map_eq

end sameBut

theorem Setting.sameBut_ofChoice (spec : OptionSpec) (name name' raw : String) :
    SameBut name name' (ofChoice spec (some (name, raw))) (ofChoice spec (some (name', raw))) := by
  simp only [ofChoice]
  cases spec.read raw with
  | ok value => exact .supplied value
  | error error => exact .rejected _ raw error

/-- A layer under another name, with the same texts, settles everything in the same way. -/
theorem settle_sameBut (registry : Registry) (above below : List Layer) (name name' : String)
    (values : RawValues) (n : OptionName) :
    ((registry.settle (above ++ ⟨name, values⟩ :: below)).setting n).SameBut name name'
      ((registry.settle (above ++ ⟨name', values⟩ :: below)).setting n) := by
  have htext : Layer.text? ⟨name', values⟩ n = Layer.text? ⟨name, values⟩ n := rfl
  simp only [Registry.settle, supplied?_append, supplied?_cons, htext]
  cases supplied? above n with
  | some choice => exact .refl _
  | none =>
      cases Layer.text? ⟨name, values⟩ n with
      | some raw => exact Setting.sameBut_ofChoice _ name name' raw
      | none => exact .refl _

theorem Source.Carries.loadAll_cons {f : RawValues} {s : Source} (h : s.Carries f)
    (rest : List Source) :
    (loadAll (s :: rest)).1 = (loadAll rest).1.map (⟨s.name, f⟩ :: ·) := by
  obtain ⟨loaded, hload, hvalues⟩ := h.exists_load OptionName.all
  have hall : f.restrict OptionName.all = f := by
    funext n
    exact if_pos (OptionName.mem_all n)
  rw [hall] at hvalues
  simp only [loadAll, hload, hvalues]

/-- Two carriers of the same texts give the same snapshot up to their names, unless another source
cannot be loaded, and then the same error. -/
theorem resolve_carriers {f : RawValues} {s t : Source} (hs : s.Carries f) (ht : t.Carries f)
    (registry : Registry) (before after : List Source) :
    (∃ u v, (registry.resolve (before ++ s :: after)).result = .ok u ∧
        (registry.resolve (before ++ t :: after)).result = .ok v ∧
        ∀ n, (u.setting n).SameBut s.name t.name (v.setting n)) ∨
      ∃ r ∈ before ++ after, ∃ cause, r.load OptionName.all = .error cause ∧
        (registry.resolve (before ++ s :: after)).result = .error ⟨r.name, cause⟩ ∧
        (registry.resolve (before ++ t :: after)).result = .error ⟨r.name, cause⟩ := by
  rw [result_resolve, result_resolve, loadAll_append, loadAll_append, hs.loadAll_cons,
    ht.loadAll_cons]
  cases hb : (loadAll before).1 with
  | error e =>
      obtain ⟨r, hr, cause, hload, rfl⟩ := exists_of_loadAll_eq_error hb
      exact .inr ⟨r, List.mem_append_left _ hr, cause, hload, rfl, rfl⟩
  | ok above =>
      cases ha : (loadAll after).1 with
      | error e =>
          obtain ⟨r, hr, cause, hload, rfl⟩ := exists_of_loadAll_eq_error ha
          exact .inr ⟨r, List.mem_append_right _ hr, cause, hload, rfl, rfl⟩
      | ok below =>
          exact .inl ⟨_, _, rfl, rfl, settle_sameBut registry above below s.name t.name f⟩

/-- **Sources are interchangeable.**  Texts without line feeds can be carried by overrides, by an
environment and by a file.  Whatever carries them loads exactly these texts for every list of
requested options.  And wherever a carrier stands among other sources, another carrier in its place
leads to the same values and the same refused texts with the same reasons, and to the same origins
up to the names of the two; if a resolution fails, it is because one of the other sources cannot be
loaded, and both fail alike. -/
theorem carriers_interchange (f : RawValues)
    (hf : ∀ n raw, f n = some raw → '\n' ∉ raw.toList) :
    ((∀ name, Source.Carries f (.overrides ((Overrides.new name).setAll f.toList))) ∧
      Source.Carries f (.environment (.ofValues f)) ∧
      ∀ path, Source.Carries f (.file path (.ofText (ConfigFile.ofValues f)))) ∧
    (∀ s : Source, s.Carries f → ∀ requested, ∃ loaded, s.load requested = .ok loaded ∧
      loaded.values = f.restrict requested) ∧
    ∀ s t : Source, s.Carries f → t.Carries f →
      ∀ (registry : Registry) (before after : List Source),
      (∃ u v, (registry.resolve (before ++ s :: after)).result = .ok u ∧
        (registry.resolve (before ++ t :: after)).result = .ok v ∧
        u.values = v.values ∧ u.refusals = v.refusals ∧
        ∀ n, (u.setting n).SameBut s.name t.name (v.setting n)) ∨
      ∃ r ∈ before ++ after, ∃ cause, r.load OptionName.all = .error cause ∧
        (registry.resolve (before ++ s :: after)).result = .error ⟨r.name, cause⟩ ∧
        (registry.resolve (before ++ t :: after)).result = .error ⟨r.name, cause⟩ := by
  refine ⟨⟨fun name => .overrides fun n raw => RawValues.mem_toList_iff,
    .environment (Environment.carries_ofValues f),
    fun path => .file (FileContent.text_ofText path _) (ConfigFile.carries_ofValues hf)⟩,
    fun s hs requested => hs.exists_load requested, ?_⟩
  intro s t hs ht registry before after
  rcases resolve_carriers hs ht registry before after with ⟨u, v, hu, hv, hsame⟩ | hfails
  · exact .inl ⟨u, v, hu, hv, Snapshot.values_eq_of_sameBut hsame,
      Snapshot.refusals_eq_of_sameBut hsame, hsame⟩
  · exact .inr hfails

/-- Texts with quotes, marks and blanks of their own, one of which is no number. -/
def quotedTexts : RawValues :=
  fun n => [(OptionName.serviceName, "\" a=b;# \r"), (.transactionSampleRate, "'lots'")].lookup n

theorem carriers_interchange_quoted_texts :
    (∀ n raw, quotedTexts n = some raw → '\n' ∉ raw.toList) ∧
      ∃ u v,
        (Registry.builtin.resolve
          [.file "agent.ini" (.ofText (ConfigFile.ofValues quotedTexts))]).result = .ok u ∧
        (Registry.builtin.resolve [.environment (.ofValues quotedTexts)]).result = .ok v ∧
        u.values = v.values ∧ u.refusals = v.refusals ∧
        ∀ n, (u.setting n).SameBut "ini:agent.ini" "env" (v.setting n) := by
  have hf : ∀ n raw, quotedTexts n = some raw → '\n' ∉ raw.toList := by
    intro n raw h
    have hmem := Bindings.mem_of_lookup_eq_some h
    simp only [List.mem_cons, List.not_mem_nil, or_false, Prod.mk.injEq] at hmem
    rcases hmem with ⟨-, rfl⟩ | ⟨-, rfl⟩
    · decide
    · decide
  obtain ⟨⟨-, henv, hfile⟩, -, hswap⟩ := carriers_interchange quotedTexts hf
  refine ⟨hf, ?_⟩
  rcases hswap _ _ (hfile "agent.ini") henv Registry.builtin [] [] with hsame | ⟨r, hr, -⟩
  · exact hsame
  · cases hr

end AgentOptions
