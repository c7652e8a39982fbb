import AgentOptions.Command.Show
import AgentOptions.Proofs.DocumentGrammar

/-! # What the command for showing options prints

The output for given outcomes of the options, said line by line.  A table has a row for each option
(`Row`), with all values in one column, and, if a text was refused, a heading and an entry for each
refused text below it (`Entries`, `ShowsTable`).  A document spells an object with a member for each
option (`ShowsDocument`).

`showsTable` and `showsDocument` say that this is what is printed.  An entry is as many lines as the
text and the source that it names make it (`lineFeed_mem_entry_iff`), because the wording of an
error adds no line feed to the text that it is about (`OptionSpec.quotes_of_read_eq_error`). -/

namespace AgentOptions

/-! ### Rows -/

/-- The text for a value: a dash if there is none, its raw text otherwise. -/
inductive Cell : OptionValue → String → Prop
  | unset : Cell .null "-"
  | raw {v : OptionValue} {text : String} : v.raw? = some text → Cell v text

/-- The texts for the value of an option and for its origin. -/
inductive Shown : Setting → String → String → Prop
  | defaulted {v : OptionValue} {text : String} : Cell v text →
      Shown (.defaulted v) text "default"
  | supplied {v : OptionValue} {text origin : String} : Cell v text →
      Shown (.supplied v origin) text origin
  | rejected {v : OptionValue} {text : String} {rejection : Rejection} : Cell v text →
      Shown (.rejected v rejection) text "default"

/-- A row: the name, blanks up to the column, the value, and the origin in brackets. -/
inductive Row (column : Nat) (n : OptionName) (setting : Setting) : String → Prop
  | mk {blanks : List Char} {value origin row : String} : Shown setting value origin →
      (∀ c ∈ blanks, c = ' ') → n.text.length + blanks.length = column →
      row.toList =
        n.text.toList ++ blanks ++ value.toList ++ "  (".toList ++ origin.toList ++ [')'] →
      Row column n setting row

/-- The column is two places to the right of the longest name. -/
def IsColumn (column : Nat) : Prop :=
  (∀ n : OptionName, n.text.length + 2 ≤ column) ∧ ∃ n : OptionName, n.text.length + 2 = column

/-! ### Entries -/

/-- The entry for a refused text: the option, the source, and what is wrong. -/
def entry (n : OptionName) (r : Rejection) : String :=
  "  " ++ n.text ++ " from " ++ r.source ++ ": " ++ r.error.message

/-- One entry for each of the options whose text was refused, in their order. -/
inductive Entries (outcome : OptionName → Setting) : List OptionName → List String → Prop
  | nil : Entries outcome [] []
  | refused {n : OptionName} {names : List OptionName} {entries : List String} {v : OptionValue}
      {r : Rejection} : outcome n = .rejected v r → Entries outcome names entries →
      Entries outcome (n :: names) (entry n r :: entries)
  | other {n : OptionName} {names : List OptionName} {entries : List String} :
      (∀ v r, outcome n ≠ .rejected v r) → Entries outcome names entries →
      Entries outcome (n :: names) entries

/-! ### Outputs -/

/-- The output consists of the lines, each ended by a line feed. -/
def HasLines (output : String) (lines : List String) : Prop :=
  output.toList = lines.flatMap fun line => line.toList ++ ['\n']

/-- A table of the outcomes: a row for each option in declared order, and under them the entries if
there are any. -/
inductive ShowsTable (outcome : OptionName → Setting) (output : String) : Prop
  | plain {column : Nat} {rows : List String} : IsColumn column →
      List.Forall₂ (fun n row => Row column n (outcome n) row) OptionName.all rows →
      Entries outcome OptionName.all [] → HasLines output rows → ShowsTable outcome output
  | annotated {column : Nat} {rows entries : List String} : IsColumn column →
      List.Forall₂ (fun n row => Row column n (outcome n) row) OptionName.all rows →
      Entries outcome OptionName.all entries → entries ≠ [] →
      HasLines output (rows ++ ["", "Rejected values:"] ++ entries) → ShowsTable outcome output

/-- A document of the outcomes on its lines: an object with the value of each option under its name,
in declared order. -/
def ShowsDocument (outcome : OptionName → Setting) (output : String) : Prop :=
  ∃ text, output.toList = text ++ ['\n'] ∧
    Json.Spells (.object (OptionName.all.map fun n => (n.text, (outcome n).value.json))) text

theorem append_lineFeed_inj {front front' line line' : List Char} (hline : '\n' ∉ line)
    (hline' : '\n' ∉ line') (h : front ++ '\n' :: line = front' ++ '\n' :: line') :
    front = front' ∧ line = line' := by
  rcases List.append_eq_append_iff.mp h with ⟨more, rfl, hmore⟩ | ⟨more, rfl, hmore⟩
  · cases more with
    | nil => simpa using hmore
    | cons c more => cases hmore; exact absurd (by simp) hline
  · cases more with
    | nil => simpa using hmore.symm
    | cons c more => cases hmore; exact absurd (by simp) hline'

/-- An output ends in one line only, and what stands above it ends in one way only. -/
theorem HasLines.last_eq {output above above' line line' : String} {lines lines' : List String}
    (h : HasLines output (lines ++ [above, line]))
    (h' : HasLines output (lines' ++ [above', line']))
    (hline : '\n' ∉ line.toList) (hline' : '\n' ∉ line'.toList) :
    line = line' ∧ (above.toList <:+ above'.toList ∨ above'.toList <:+ above.toList) := by
  have hends := h.symm.trans h'
  simp only [List.flatMap_append, List.flatMap_cons, List.flatMap_nil, List.append_nil,
    ← List.append_assoc, List.append_cancel_right_eq] at hends
  rw [List.append_assoc, List.append_assoc _ _ line'.toList] at hends
  obtain ⟨hfront, hlast⟩ := append_lineFeed_inj hline hline' hends
  refine ⟨String.toList_inj.mp hlast, ?_⟩
  have habove := List.suffix_append (lines.flatMap fun line => line.toList ++ ['\n']) above.toList
  rw [hfront] at habove
  exact List.suffix_or_suffix_of_suffix habove (List.suffix_append _ _)

theorem exists_mem_of_forall₂ {α β : Type} {R : α → β → Prop} {as : List α} {bs : List β}
    (h : List.Forall₂ R as bs) {a : α} (ha : a ∈ as) : ∃ b ∈ bs, R a b := by
  induction h with
  | nil => cases ha
  | cons hab _ ih =>
      rcases List.mem_cons.mp ha with rfl | ha
      · exact ⟨_, List.mem_cons_self, hab⟩
      · obtain ⟨b, hb, hR⟩ := ih ha
        exact ⟨b, List.mem_cons_of_mem _ hb, hR⟩

theorem Entries.mem {outcome : OptionName → Setting} {names : List OptionName}
    {entries : List String} (h : Entries outcome names entries) {n : OptionName} (hn : n ∈ names)
    {v : OptionValue} {r : Rejection} (hr : outcome n = .rejected v r) : entry n r ∈ entries := by
  induction h with
  | nil => cases hn
  | refused hm _ ih =>
      rcases List.mem_cons.mp hn with rfl | hn
      · cases hm.symm.trans hr
        exact List.mem_cons_self
      · exact List.mem_cons_of_mem _ (ih hn)
  | other hm _ ih =>
      rcases List.mem_cons.mp hn with rfl | hn
      · exact absurd hr (hm v r)
      · exact ih hn

/-- A refused text is seen: its option has a row, and an entry stands under the table. -/
theorem ShowsTable.exists_entry {outcome : OptionName → Setting} {output : String}
    (h : ShowsTable outcome output) {n : OptionName} {v : OptionValue} {r : Rejection}
    (hr : outcome n = .rejected v r) : ∃ column rows entries,
      HasLines output (rows ++ ["", "Rejected values:"] ++ entries) ∧
        (∃ row ∈ rows, Row column n (.rejected v r) row) ∧ entry n r ∈ entries := by
  cases h with
  | plain _ _ hentries _ => cases hentries.mem (OptionName.mem_all n) hr
  | @annotated column rows entries _ hrows hentries _ hlines =>
      obtain ⟨row, hmem, hrow⟩ := exists_mem_of_forall₂ hrows (OptionName.mem_all n)
      rw [hr] at hrow
      exact ⟨column, rows, entries, hlines, ⟨row, hmem, hrow⟩,
        hentries.mem (OptionName.mem_all n) hr⟩

/-! ### The wording of errors -/

/-- The message quotes the text and adds no line feed to it. -/
def ReadError.Quotes (e : ReadError) (raw : String) : Prop :=
  ∃ wording, e.message = quoted raw ++ wording ∧ '\n' ∉ wording.toList

theorem Decimal.lineFeed_notMem_of_isNumeral {s : List Char} (h : ∀ c ∈ s, IsNumeral c) :
    '\n' ∉ s := by
  intro hmem
  have hnot : ¬ IsNumeral '\n' := by
    unfold IsNumeral
    decide
  exact hnot (h _ hmem)

theorem lineFeed_notMem_integerText (n : Int) : '\n' ∉ (Integer.text n).toList := by
  rw [Integer.text, String.toList_ofList]
  exact Decimal.lineFeed_notMem_of_isNumeral fun c => Integer.isNumeral_of_mem_digits

theorem lineFeed_notMem_plainText (x : Binary64) : '\n' ∉ (Decimal.plain.text x).toList := by
  by_cases hx : x.isFinite
  · exact Decimal.lineFeed_notMem_of_isNumeral fun c => Decimal.isNumeral_of_mem_text hx
  · cases x with
    | nan => decide
    | number negative rank =>
        have hrank : rank.val = Binary64.infinityRank := by
          have hlt : ¬ rank.val < Binary64.infinityRank := fun h => hx (decide_eq_true h)
          omega
        rw [Decimal.Layout.text, if_pos hrank]
        cases negative with
        | false => decide
        | true => decide

/-- If there is an error, its message quotes the text. -/
def QuotesOnError {α : Type} (raw : String) (r : Except ReadError α) : Prop :=
  ∀ e, r = .error e → e.Quotes raw

namespace QuotesOnError

variable {α β : Type} {raw : String} {r : Except ReadError α}

theorem ok (x : α) : QuotesOnError raw (.ok x) := fun _ h => nomatch h

theorem error {e : ReadError} (h : e.Quotes raw) : QuotesOnError raw (.error e : Except _ α) := by
  intro e' he
  cases he
  exact h

theorem map (h : QuotesOnError raw r) (f : α → β) : QuotesOnError raw (r.map f) := by
  cases r with
  | error e => exact .error (h e rfl)
  | ok x => exact .ok (f x)

theorem bind (h : QuotesOnError raw r) {f : α → Except ReadError β}
    (hf : ∀ x, QuotesOnError raw (f x)) : QuotesOnError raw (r >>= f) := by
  cases r with
  | error e => exact .error (h e rfl)
  | ok x => exact hf x

end QuotesOnError

namespace OptionSpec

theorem lineFeed_notMem_of_passed? {α : Type} {less : α → α → Bool} {text : α → String}
    (htext : ∀ a, '\n' ∉ (text a).toList) {min max : Option α} {x : α} {limit : Limit}
    (h : passed? less text min max x = some limit) : '\n' ∉ limit.text.toList := by
  unfold passed? at h
  split at h
  · next m _ =>
    cases h
    rw [Limit.text, String.toList_append, List.mem_append, not_or]
    exact ⟨by decide, htext m⟩
  · obtain ⟨m, -, rfl⟩ := Option.map_eq_some_iff.mp h
    rw [Limit.text, String.toList_append, List.mem_append, not_or]
    exact ⟨by decide, htext m⟩

theorem quotesOnError_within {α : Type} {limit : α → Option Limit} (raw : String)
    (hlimit : ∀ x l, limit x = some l → '\n' ∉ l.text.toList) (x : α) :
    QuotesOnError raw (within limit raw x) := by
  unfold within
  split
  · next l hl =>
    refine .error ⟨" is out of range (" ++ (l.text ++ ")"), ?_, ?_⟩
    · simp only [ReadError.message, String.append_assoc]
    · have hl := hlimit x l hl
      simp only [String.toList_append, List.mem_append, not_or]
      exact ⟨by decide, hl, by decide⟩
  · exact .ok x

theorem quotesOnError_readBool (raw : String) : QuotesOnError raw (readBool raw) := by
  unfold readBool
  split_ifs
  · exact .ok true
  · exact .ok false
  · exact .error ⟨_, rfl, by decide +kernel⟩

theorem quotesOnError_readInt (raw : String) : QuotesOnError raw (readInt raw) := by
  unfold readInt
  split
  · exact .ok _
  · exact .error ⟨_, rfl, by decide⟩

theorem quotesOnError_readFloat (raw : String) : QuotesOnError raw (readFloat raw) := by
  have hnumber : (ReadError.notFinite raw).Quotes raw := ⟨_, rfl, by decide⟩
  unfold readFloat
  split
  · split_ifs
    · exact .ok _
    · exact .error hnumber
  · exact .error hnumber

theorem quotesOnError_readLogLevel (raw : String) : QuotesOnError raw (readLogLevel raw) := by
  unfold readLogLevel
  split
  · exact .ok _
  · exact .error ⟨_, rfl, by decide +kernel⟩

theorem quotes_unknownUnit {raw suffix : String} {d : Decimal}
    (h : Duration.split? raw.toList = some (d, suffix)) :
    (ReadError.unknownUnit raw suffix).Quotes raw := by
  have hletters : '\n' ∉ suffix.toList := by
    unfold Duration.split? at h
    split at h
    · simp only [Option.ite_none_right_eq_some, Option.some.injEq, Prod.mk.injEq] at h
      obtain ⟨hall, -, rfl⟩ := h
      rw [String.toList_ofList]
      intro hmem
      exact absurd (List.all_eq_true.mp hall _ hmem) (by decide)
    · cases h
  refine ⟨" uses unknown duration unit " ++ (quoted suffix ++ " (expected ms, s or m)"), ?_, ?_⟩
  · simp only [ReadError.message, String.append_assoc]
  · simp only [quoted, String.toList_append, List.mem_append, not_or]
    exact ⟨by decide, ⟨⟨by decide, hletters⟩, by decide⟩, by decide⟩

theorem quotesOnError_duration (bare : TimeUnit) (raw : String) :
    QuotesOnError raw (Duration.ofText bare raw) := by
  have hduration : (ReadError.notDuration raw).Quotes raw := ⟨_, rfl, by decide⟩
  unfold Duration.ofText
  split
  · exact .error hduration
  · next d suffix hsplit =>
    split
    · split
      · exact .error (quotes_unknownUnit hsplit)
      · simp only
        split_ifs
        · exact .ok _
        · exact .error hduration
    · exact .error hduration

/-- **A text that is refused is quoted in the message, which adds no line feed to it.** -/
theorem quotes_of_read_eq_error {spec : OptionSpec} {raw : String} {e : ReadError}
    (h : spec.read raw = .error e) : e.Quotes raw := by
  have hint : ∀ min max x l, intLimit min max x = some l → '\n' ∉ l.text.toList := by
    intro min max x l hl
    refine lineFeed_notMem_of_passed? ?_ hl
    exact fun n => lineFeed_notMem_integerText n.toInt
  have hfloat : ∀ min max x l, floatLimit min max x = some l → '\n' ∉ l.text.toList := by
    intro min max x l hl
    exact lineFeed_notMem_of_passed? lineFeed_notMem_plainText hl
  revert h
  revert e
  change QuotesOnError raw (spec.read raw)
  cases spec with
  | bool _ => exact (quotesOnError_readBool raw).map _
  | int min max _ =>
      exact ((quotesOnError_readInt raw).bind (quotesOnError_within raw (hint min max))).map _
  | float min max _ =>
      exact ((quotesOnError_readFloat raw).bind (quotesOnError_within raw (hfloat min max))).map _
  | duration min max unit _ =>
      exact ((quotesOnError_duration unit raw).bind
        (quotesOnError_within raw fun d => hfloat min max d.millis)).map _
  | string => exact .ok _
  | patterns _ => exact .ok _
  | optionalPatterns => exact .ok _
  | logLevel _ => exact (quotesOnError_readLogLevel raw).map _
  | labels => exact .ok _

end OptionSpec

theorem lineFeed_notMem_name (n : OptionName) : '\n' ∉ n.text.toList := by
  have hall : ∀ n ∈ OptionName.all, '\n' ∉ n.text.toList := by decide +kernel
  exact hall n (OptionName.mem_all n)

/-- **An entry is one line unless the source or the refused text holds a line feed.** -/
theorem lineFeed_mem_entry_iff (n : OptionName) {r : Rejection} (h : r.error.Quotes r.raw) :
    '\n' ∈ (entry n r).toList ↔ '\n' ∈ r.source.toList ∨ '\n' ∈ r.raw.toList := by
  obtain ⟨wording, hmessage, hwording⟩ := h
  have hlead : '\n' ∉ "  ".toList := by decide
  have hfrom : '\n' ∉ " from ".toList := by decide
  have hcolon : '\n' ∉ ": ".toList := by decide
  have hquote : '\n' ∉ "`".toList := by decide
  rw [entry, hmessage, quoted]
  simp only [String.toList_append, List.mem_append, hlead, hfrom, hcolon, hquote,
    lineFeed_notMem_name n, hwording, false_or, or_false]

/-! ### The table -/

theorem cell_valueText (v : OptionValue) : Cell v (ShowRequest.valueText v) := by
  cases v with
  | null => exact .unset
  | _ => exact .raw rfl

theorem exists_shown (setting : Setting) :
    Shown setting (ShowRequest.valueText setting.value) (setting.origin?.getD "default") := by
  cases setting with
  | defaulted v => exact .defaulted (cell_valueText v)
  | supplied v origin => exact .supplied (cell_valueText v)
  | rejected v r => exact .rejected (cell_valueText v)

theorem width_spec (texts : List String) (h : texts ≠ []) :
    (∀ text ∈ texts, text.length ≤ Table.width texts) ∧
      ∃ text ∈ texts, text.length = Table.width texts := by
  obtain ⟨w, hw⟩ : ∃ w, (texts.map String.length).max? = some w := by
    cases hmax : (texts.map String.length).max? with
    | none => exact absurd (List.map_eq_nil_iff.mp (List.max?_eq_none_iff.mp hmax)) h
    | some w => exact ⟨w, rfl⟩
  have hwidth : Table.width texts = w := by
    rw [Table.width, List.foldl_max, hw]
    exact Nat.zero_max w
  obtain ⟨hmem, hle⟩ := List.max?_eq_some_iff.mp hw
  rw [hwidth]
  refine ⟨fun text ht => hle _ (List.mem_map_of_mem ht), ?_⟩
  obtain ⟨text, ht, hlength⟩ := List.mem_map.mp hmem
  exact ⟨text, ht, hlength⟩

/-- The width of the column of names. -/
def nameWidth : Nat := Table.width (OptionName.all.map OptionName.text)

theorem length_le_nameWidth (n : OptionName) : n.text.length ≤ nameWidth :=
  (width_spec _ (by decide)).1 _ (List.mem_map_of_mem (OptionName.mem_all n))

theorem isColumn_nameWidth : IsColumn (nameWidth + 2) := by
  refine ⟨fun n => Nat.add_le_add_right (length_le_nameWidth n) 2, ?_⟩
  obtain ⟨text, ht, hlength⟩ := (width_spec (OptionName.all.map OptionName.text) (by decide)).2
  obtain ⟨n, -, rfl⟩ := List.mem_map.mp ht
  exact ⟨n, congrArg (· + 2) hlength⟩

theorem row_settingLine (s : Snapshot) (n : OptionName) :
    Row (nameWidth + 2) n (s.setting n) (ShowRequest.settingLine nameWidth s n) := by
  have hblanks : ∀ c ∈ List.replicate (nameWidth - n.text.length) ' ' ++ [' ', ' '], c = ' ' := by
    intro c hc
    rcases List.mem_append.mp hc with hc | hc
    · exact List.eq_of_mem_replicate hc
    · simpa using hc
  have hle := length_le_nameWidth n
  refine .mk (exists_shown (s.setting n)) hblanks ?_ ?_
  · rw [List.length_append, List.length_replicate, List.length_cons, List.length_singleton]
    omega
  · simp only [ShowRequest.settingLine, Table.padded, String.toList_append, String.toList_ofList,
      List.append_assoc]
    rfl

theorem entries_rejections (s : Snapshot) (names : List OptionName) :
    Entries s.setting names ((names.filterMap fun n => (s.rejection? n).map (n, ·)).map
      fun r => ShowRequest.rejectionLine r.1 r.2) := by
  induction names with
  | nil => exact .nil
  | cons n names ih =>
      cases hs : s.setting n with
      | rejected v r =>
          have hr : s.rejection? n = some r := by rw [Snapshot.rejection?, hs]; rfl
          rw [List.filterMap_cons, hr]
          exact .refused hs ih
      | _ =>
          have hr : s.rejection? n = none := by rw [Snapshot.rejection?, hs]; rfl
          rw [List.filterMap_cons, hr]
          exact .other (by rw [hs]; simp) ih

theorem hasLines_lines (ls : List String) : HasLines (Table.lines ls) ls := by
  unfold HasLines Table.lines
  rw [String.toList_join, List.flatMap_map]
  refine List.flatMap_congr fun l _ => ?_
  exact String.toList_append

/-- **The command prints a table of the settings.** -/
theorem showsTable (s : Snapshot) : ShowsTable s.setting (ShowRequest.table s) := by
  have hrows : List.Forall₂ (fun n row => Row (nameWidth + 2) n (s.setting n) row) OptionName.all
      (OptionName.all.map (ShowRequest.settingLine nameWidth s)) := by
    rw [List.forall₂_map_right_iff]
    exact List.forall₂_same.mpr fun n _ => row_settingLine s n
  have hentries : Entries s.setting OptionName.all
      (s.rejections.map fun r => ShowRequest.rejectionLine r.1 r.2) :=
    entries_rejections s OptionName.all
  have hlines : HasLines (ShowRequest.table s) _ := hasLines_lines _
  unfold ShowRequest.rejectionLines at hlines
  by_cases h : s.rejections = []
  · rw [h] at hentries
    rw [h, List.isEmpty_nil, if_pos rfl, List.append_nil] at hlines
    exact .plain isColumn_nameWidth hrows hentries hlines
  · rw [if_neg (by simpa using h), ← List.append_assoc] at hlines
    exact .annotated isColumn_nameWidth hrows hentries (by simpa using h) hlines

/-- **Or a document of their values.** -/
theorem showsDocument (s : Snapshot) : ShowsDocument s.setting (s.json.pretty ++ "\n") := by
  refine ⟨s.json.pretty.toList, String.toList_append, ?_⟩
  have hspells := Json.spells_pretty s.json
  rwa [Snapshot.json, Snapshot.values, List.map_map] at hspells ⊢

/-! ### Errors -/

namespace Report

theorem errorText_pair (message cause : String) : errorText [message, cause] =
    "Error: " ++ message ++ "\n\nCaused by:\n" ++ String.ofList (soleCause cause ++ ['\n']) := by
  change "Error: " ++ message ++ "\n\nCaused by:\n" ++ String.ofList (List.flatMap _ _) = _
  rw [causes, List.flatMap_singleton]

theorem indentLines_append (indent : List Char) (s t : String) :
    indentLines indent (s ++ t) = indentLines indent s ++ indentLines indent t := by
  unfold indentLines
  rw [String.toList_append, List.flatMap_append]

theorem indentLines_eq_self {indent : List Char} {s : String} (h : '\n' ∉ s.toList) :
    indentLines indent s = s.toList := by
  have hplain : ∀ c ∈ s.toList, (if c = '\n' then '\n' :: indent else [c]) = [c] := by
    intro c hc
    refine if_neg ?_
    rintro rfl
    exact h hc
  rw [indentLines, List.flatMap_congr hplain, List.flatMap_singleton']

/-- A cause is printed four blanks in, and so is every further line of what it names. -/
theorem exists_soleCause {lead tail : String} (hlead : '\n' ∉ lead.toList)
    (htail : '\n' ∉ tail.toList) (name : String) : ∃ shown,
    String.ofList (soleCause (lead ++ name ++ tail) ++ ['\n']) =
        "    " ++ (lead ++ shown ++ tail) ++ "\n" ∧ ('\n' ∉ name.toList → shown = name) := by
  refine ⟨String.ofList (indentLines (List.replicate 4 ' ') name), ?_, fun h => ?_⟩
  · rw [soleCause, indentLines_append, indentLines_append, indentLines_eq_self hlead,
      indentLines_eq_self htail]
    simp only [String.ofList_append, String.ofList_toList]
    rfl
  · rw [indentLines_eq_self h, String.ofList_toList]

end Report

theorem exists_invalidAssignment (assignment name : String) : ∃ shown,
    Report.errorText ["Invalid --set value: " ++ assignment, unknownOptionMessage name] =
      "Error: " ++ ("Invalid --set value: " ++ assignment) ++ "\n\nCaused by:\n" ++
        ("    " ++ unknownOptionMessage shown ++ "\n") ∧ ('\n' ∉ name.toList → shown = name) := by
  have hlead : '\n' ∉ "unknown option `".toList := by decide
  have htail : '\n' ∉ "`".toList := by decide
  obtain ⟨shown, htext, hshown⟩ := Report.exists_soleCause hlead htail name
  refine ⟨shown, ?_, hshown⟩
  exact (Report.errorText_pair _ _).trans (congrArg _ htext)

theorem exists_unreadableSource (path : String) (cause : SourceError) : ∃ causes,
    Report.errorText (ResolutionError.messages ⟨"ini:" ++ path, cause⟩) =
      "Error: " ++ ("config source " ++ quoted ("ini:" ++ path) ++ " is unreadable") ++
        "\n\nCaused by:\n" ++ causes := by
  cases cause with
  | unreadable path' reason => exact ⟨_, rfl⟩
  | malformed path' line => exact ⟨_, rfl⟩

end AgentOptions
