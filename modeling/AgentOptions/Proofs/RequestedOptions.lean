import AgentOptions.Proofs.Interchange
import Mathlib.Data.List.Count
import Mathlib.Logic.Function.Basic

/-! # Loading the options that are asked for

Overrides, environments and files can be loaded for any list of options, in any order and with
repeats.  The list does not decide whether the source loads (`Source.Shipped.load_eq_error_iff`) nor
what it has for an option, only which options are given anything
(`Source.Shipped.load_of_load_all`).

A file can be thought of as giving its assignments away (`Takings`): one requested option after
another takes the value of its key, with all assignments to the key, and the keys that are left at
the end are reported.  What an option takes does not depend on who came before it, because no two
options have one key; if it comes twice, it finds nothing the second time and keeps what it has
(`Takings.take_after`, and for a whole list `Takings.takeAll_eq`).  So loading is giving away
(`Source.load_file_eq_takings`), and every key is either returned or reported
(`returned_xor_reported`).

Main statement: `load_projects_and_loses_no_key`. -/

namespace AgentOptions

/-! ### The keys of a file -/

theorem Bindings.lookup_filter {α β : Type} [BEq α] [LawfulBEq α] [DecidableEq α] (p : α → Bool)
    (a : α) (bindings : List (α × β)) :
    (bindings.filter fun b => p b.1).lookup a = if p a then bindings.lookup a else none := by
  induction bindings with
  | nil => simp
  | cons b rest ih =>
      obtain ⟨k, v⟩ := b
      by_cases hk : a = k
      · subst hk
        cases hp : p a with
        | true => simp [hp]
        | false => simp [hp, ih]
      · rw [lookup_cons_eq_ite, if_neg hk, ← ih, List.filter_cons]
        split
        · rw [lookup_cons_eq_ite, if_neg hk]
        · rfl

theorem nodup_eraseDups {α : Type} [BEq α] [LawfulBEq α] (l : List α) : l.eraseDups.Nodup := by
  match l with
  | [] => simp
  | a :: rest =>
      rw [List.eraseDups_cons, List.nodup_cons]
      refine ⟨?_, nodup_eraseDups (rest.filter fun b => !b == a)⟩
      simp [List.mem_eraseDups]
termination_by l.length
decreasing_by
  exact Nat.lt_succ_of_le (List.length_filter_le _ _)

namespace ConfigFile

variable {assignments : List (String × String)}

theorem mem_keys_iff {key : String} : key ∈ keys assignments ↔ ∃ raw, (key, raw) ∈ assignments := by
  simp [keys]

theorem nodup_keys (assignments : List (String × String)) : (keys assignments).Nodup :=
  (List.mergeSort_perm _ _).nodup_iff.mpr (nodup_eraseDups _)

theorem pairwise_keys (assignments : List (String × String)) :
    (keys assignments).Pairwise (· ≤ ·) := by
  have htrans : ∀ k l m : String, decide (k ≤ l) = true → decide (l ≤ m) = true →
      decide (k ≤ m) = true := by
    intro k l m hkl hlm
    rw [decide_eq_true_eq] at hkl hlm ⊢
    exact String.le_trans hkl hlm
  have htotal : ∀ k l : String, (decide (k ≤ l) || decide (l ≤ k)) = true := by
    intro k l
    rw [Bool.or_eq_true, decide_eq_true_eq, decide_eq_true_eq]
    exact String.le_total k l
  have hsorted := List.pairwise_mergeSort htrans htotal (assignments.map Prod.fst).eraseDups
  exact hsorted.imp fun h => decide_eq_true_eq.mp h

theorem keys_filter (p : String → Bool) (assignments : List (String × String)) :
    keys (assignments.filter fun a => p a.1) = (keys assignments).filter p := by
  have hmem : ∀ key, key ∈ keys (assignments.filter fun a => p a.1) ↔
      key ∈ (keys assignments).filter p := by
    intro key
    rw [List.mem_filter, mem_keys_iff, mem_keys_iff]
    simp
  have hperm : (keys (assignments.filter fun a => p a.1)).Perm ((keys assignments).filter p) :=
    (List.perm_ext_iff_of_nodup (nodup_keys _) ((nodup_keys _).filter p)).mpr hmem
  exact hperm.eq_of_pairwise (fun _ _ _ _ => String.le_antisymm) (pairwise_keys _)
    ((pairwise_keys _).filter p)

theorem value?_filter (p : String → Bool) (assignments : List (String × String)) (key : String) :
    value? (assignments.filter fun a => p a.1) key =
      if p key then value? assignments key else none := by
  rw [value?, ← List.filter_reverse, Bindings.lookup_filter]
  rfl

theorem exists_value?_iff {key : String} :
    (∃ raw, value? assignments key = some raw) ↔ key ∈ keys assignments := by
  rw [mem_keys_iff, value?]
  constructor
  · rintro ⟨raw, h⟩
    exact ⟨raw, List.mem_reverse.mp (Bindings.mem_of_lookup_eq_some h)⟩
  · rintro ⟨raw, h⟩
    rw [← Option.isSome_iff_exists, Option.isSome_iff_ne_none, ne_eq, List.lookup_eq_none_iff]
    intro hne
    simpa using hne (key, raw) (List.mem_reverse.mpr h)

end ConfigFile

/-! ### Taking values in turn -/

/-- The values that options took, and the assignments that are left. -/
@[ext]
structure Takings where
  taken : RawValues
  left : List (String × String)

namespace Takings

/-- An option takes the value of its key if there is one, and no assignment to the key is left. -/
def take (t : Takings) (n : OptionName) : Takings where
  taken := Function.update t.taken n ((ConfigFile.value? t.left n.fileKey).or (t.taken n))
  left := t.left.filter fun a => decide (a.1 ≠ n.fileKey)

/-- The requested options take their values, one after another. -/
def takeAll (requested : List OptionName) (assignments : List (String × String)) : Takings :=
  requested.foldl take ⟨fun _ => none, assignments⟩

/-- What a file gives and reports after that. -/
def loaded (path : String) (t : Takings) : Loaded :=
  ⟨t.taken, (ConfigFile.keys t.left).map (.unknownKey · path)⟩

/-- No option that was asked for has the key. -/
def unasked (asked : List OptionName) (key : String) : Bool := !asked.any fun n => n.fileKey == key

/-- The account after some options were asked for. -/
def after (assignments : List (String × String)) (asked : List OptionName) : Takings where
  taken := RawValues.restrict asked fun n => ConfigFile.value? assignments n.fileKey
  left := assignments.filter fun a => unasked asked a.1

theorem unasked_iff {asked : List OptionName} {key : String} :
    unasked asked key = true ↔ ∀ n ∈ asked, n.fileKey ≠ key := by
  simp [unasked]

/-- Keys of different options differ, so an option is asked for exactly if its key is. -/
theorem unasked_fileKey_iff {asked : List OptionName} {n : OptionName} :
    unasked asked n.fileKey = true ↔ n ∉ asked := by
  rw [unasked_iff]
  constructor
  · intro h hn
    exact h n hn rfl
  · intro hn m hm he
    exact hn (OptionName.fileKey_inj he ▸ hm)

theorem unasked_concat (asked : List OptionName) (n : OptionName) (key : String) :
    unasked (asked ++ [n]) key = (decide (key ≠ n.fileKey) && unasked asked key) := by
  rw [Bool.eq_iff_iff, Bool.and_eq_true, decide_eq_true_eq, unasked_iff, unasked_iff,
    List.forall_mem_append, List.forall_mem_singleton, ne_comm, and_comm]

/-- What an option finds when it is asked for: its value, unless it took that before. -/
theorem value?_left_after (assignments : List (String × String)) (asked : List OptionName)
    (n : OptionName) :
    ConfigFile.value? (after assignments asked).left n.fileKey =
      if n ∈ asked then none else ConfigFile.value? assignments n.fileKey := by
  rw [after, ConfigFile.value?_filter]
  simp only [unasked_fileKey_iff, ite_not]

/-- **One more option takes its value** and adds its key to those that are not left. -/
theorem take_after (assignments : List (String × String)) (asked : List OptionName)
    (n : OptionName) : (after assignments asked).take n = after assignments (asked ++ [n]) := by
  apply Takings.ext
  · funext m
    simp only [take, value?_left_after, Function.update_apply]
    simp only [after, RawValues.restrict, List.mem_append, List.mem_singleton]
    by_cases hm : m = n
    · subst hm
      by_cases hasked : m ∈ asked
      · simp [hasked]
      · simp [hasked]
    · simp [hm]
  · simp only [take, after, List.filter_filter, unasked_concat]

/-- **After the whole list**, the options on it have their values, in whatever order and however
often they stand on it, and the other keys are left. -/
theorem takeAll_eq (requested : List OptionName) (assignments : List (String × String)) :
    takeAll requested assignments = after assignments requested := by
  have hrun : ∀ asked, requested.foldl take (after assignments asked) =
      after assignments (asked ++ requested) := by
    induction requested with
    | nil =>
        intro asked
        rw [List.foldl_nil, List.append_nil]
    | cons n rest ih =>
        intro asked
        rw [List.foldl_cons, take_after, ih, List.append_assoc, List.singleton_append]
  have hstart : (⟨fun _ => none, assignments⟩ : Takings) = after assignments [] := by
    apply Takings.ext
    · funext n
      simp [after, RawValues.restrict]
    · simp [after, unasked]
  rw [takeAll, hstart, hrun, List.nil_append]

end Takings

/-! ### Loading -/

namespace Source

namespace Shipped

variable {s : Source} (h : s.Shipped) (requested : List OptionName)

include h

theorem load_eq_error_iff (cause : SourceError) :
    s.load requested = .error cause ↔ s.load OptionName.all = .error cause := by
  cases h with
  | overrides o => simp [Source.overrides]
  | environment env => simp [Source.environment]
  | file path content =>
      cases ha : content.assignments path with
      | ok assignments => simp [load_file ha]
      | error e => rw [load_file_of_error ha, load_file_of_error ha]

theorem load_of_load_all {whole : Loaded} (hwhole : s.load OptionName.all = .ok whole) :
    ∃ part, s.load requested = .ok part ∧ part.values = whole.values.restrict requested := by
  have hall : ∀ values : RawValues, values.restrict OptionName.all = values := by
    intro values
    funext n
    exact if_pos (OptionName.mem_all n)
  cases h with
  | overrides o =>
      cases hwhole
      exact ⟨_, rfl, by rw [hall]⟩
  | environment env =>
      cases hwhole
      exact ⟨_, rfl, by rw [hall]⟩
  | file path content =>
      cases ha : content.assignments path with
      | error e =>
          rw [load_file_of_error ha] at hwhole
          cases hwhole
      | ok assignments =>
          rw [load_file ha] at hwhole ⊢
          cases hwhole
          exact ⟨_, rfl, by rw [hall]⟩

end Shipped

theorem load_file_eq_takings {path : String} {content : FileContent}
    {assignments : List (String × String)} (h : content.assignments path = .ok assignments)
    (requested : List OptionName) : (file path content).load requested =
      .ok ((Takings.takeAll requested assignments).loaded path) := by
  rw [load_file h, Takings.takeAll_eq, Takings.loaded, Takings.after, ConfigFile.keys_filter]
  rfl

end Source

/-! ### The account of the keys -/

section account

variable (requested : List OptionName) (path key : String) (loaded : Loaded)

/-- The key is given back, under the one requested option that has it, and not reported. -/
structure KeyReturned (raw : String) : Prop where
  asked : ∃! n, n ∈ requested ∧ n.fileKey = key
  value : ∀ n ∈ requested, n.fileKey = key → loaded.values n = some raw
  silent : loaded.events.count (.unknownKey key path) = 0

/-- The key is reported as unknown, once, and given back under no option. -/
structure KeyReported : Prop where
  unasked : ∀ n ∈ requested, n.fileKey ≠ key
  withheld : ∀ n, n.fileKey = key → loaded.values n = none
  once : loaded.events.count (.unknownKey key path) = 1

end account

section file

variable {path : String} {content : FileContent} {assignments : List (String × String)}
  (h : content.assignments path = .ok assignments) {requested : List OptionName} {key : String}
  {loaded : Loaded} (hload : (Source.file path content).load requested = .ok loaded)

include h hload

theorem values_of_load_file (n : OptionName) : loaded.values n =
    if n ∈ requested then ConfigFile.value? assignments n.fileKey else none := by
  rw [Source.load_file h] at hload
  cases hload
  rfl

theorem exists_events_of_load_file : ∃ keys : List String,
    loaded.events = keys.map (.unknownKey · path) ∧ keys.Nodup ∧
      ∀ key, key ∈ keys ↔
        key ∈ ConfigFile.keys assignments ∧ ∀ n ∈ requested, n.fileKey ≠ key := by
  rw [Source.load_file h] at hload
  cases hload
  refine ⟨_, rfl, (ConfigFile.nodup_keys _).filter _, fun key => ?_⟩
  rw [unknownKeys, List.mem_filter]
  simp

theorem count_unknownKey : loaded.events.count (.unknownKey key path) =
    if key ∈ ConfigFile.keys assignments ∧ ∀ n ∈ requested, n.fileKey ≠ key then 1 else 0 := by
  obtain ⟨keys, hevents, hnodup, hmem⟩ := exists_events_of_load_file h hload
  have hinj : Function.Injective (Event.unknownKey · path) := by
    intro k l he
    exact (Event.unknownKey.inj he).1
  rw [hevents, List.count_map_of_injective keys (Event.unknownKey · path) hinj, hnodup.count]
  simp only [hmem]

theorem returned_of_asked {n : OptionName} (hn : n ∈ requested) (hkey : n.fileKey = key)
    {raw : String} (hraw : ConfigFile.value? assignments key = some raw) :
    KeyReturned requested path key loaded raw := by
  refine ⟨⟨n, ⟨hn, hkey⟩, ?_⟩, ?_, ?_⟩
  · rintro m ⟨-, hm⟩
    exact OptionName.fileKey_inj (hm.trans hkey.symm)
  · intro m hm hmkey
    rw [values_of_load_file h hload, if_pos hm, hmkey, hraw]
  · rw [count_unknownKey h hload, if_neg]
    rintro ⟨-, hunasked⟩
    exact hunasked n hn hkey

theorem reported_of_unasked (hkey : key ∈ ConfigFile.keys assignments)
    (hunasked : ∀ n ∈ requested, n.fileKey ≠ key) : KeyReported requested path key loaded := by
  refine ⟨hunasked, ?_, ?_⟩
  · intro n hn
    rw [values_of_load_file h hload, if_neg fun hmem => hunasked n hmem hn]
  · rw [count_unknownKey h hload, if_pos ⟨hkey, hunasked⟩]

theorem returned_xor_reported (hkey : key ∈ ConfigFile.keys assignments) :
    Xor (∃ raw, ConfigFile.value? assignments key = some raw ∧
      KeyReturned requested path key loaded raw) (KeyReported requested path key loaded) := by
  by_cases hasked : ∃ n ∈ requested, n.fileKey = key
  · obtain ⟨n, hn, hnkey⟩ := hasked
    obtain ⟨raw, hraw⟩ := ConfigFile.exists_value?_iff.mpr hkey
    refine .inl ⟨⟨raw, hraw, returned_of_asked h hload hn hnkey hraw⟩, ?_⟩
    intro hreported
    exact hreported.unasked n hn hnkey
  · have hunasked : ∀ n ∈ requested, n.fileKey ≠ key := fun n hn he => hasked ⟨n, hn, he⟩
    refine .inr ⟨reported_of_unasked h hload hkey hunasked, ?_⟩
    rintro ⟨raw, -, hreturned⟩
    obtain ⟨n, ⟨hn, hnkey⟩, -⟩ := hreturned.asked
    exact hunasked n hn hnkey

end file

/-- **Loading is a projection and loses no key.**  Overrides, an environment or a file load for a
list of options, in any order and with repeats, exactly if they load for all options, with the same
error if not; they give the options on the list what they give them then, and the others nothing.

If all lines of a file may stand there, it is loaded as if the options on the list took the values
of their keys one after another and the keys left were reported.  Every key that a line assigns to
is then either returned, under the one option on the list that has it and with the value that
stands, or reported once as unknown; and nothing else is returned or reported. -/
theorem load_projects_and_loses_no_key :
    (∀ s : Source, s.Shipped → ∀ requested : List OptionName,
      (∀ cause, s.load requested = .error cause ↔ s.load OptionName.all = .error cause) ∧
      ∀ whole, s.load OptionName.all = .ok whole →
        ∃ part, s.load requested = .ok part ∧
          (∀ n ∈ requested, part.values n = whole.values n) ∧
          ∀ n, n ∉ requested → part.values n = none) ∧
    ∀ (path text : String) (content : FileContent), content.text path = .ok text →
      (∀ line ∈ ConfigFile.lines text, ConfigFile.Legal line) →
      ∀ requested : List OptionName, ∃ assignments loaded,
        content.assignments path = .ok assignments ∧
        (Source.file path content).load requested = .ok loaded ∧
        loaded = (Takings.takeAll requested assignments).loaded path ∧
        (∀ key, (∃ line ∈ ConfigFile.lines text, ∃ raw, ConfigFile.Assigns line key raw) →
          Xor (∃ raw, ConfigFile.Stands (ConfigFile.lines text) key raw ∧
            KeyReturned requested path key loaded raw) (KeyReported requested path key loaded)) ∧
        (∀ n raw, loaded.values n = some raw →
          n ∈ requested ∧ ConfigFile.Stands (ConfigFile.lines text) n.fileKey raw) ∧
        ∀ e ∈ loaded.events, ∃ line ∈ ConfigFile.lines text, ∃ key raw,
          ConfigFile.Assigns line key raw ∧ e = .unknownKey key path := by
  refine ⟨fun s hs requested => ⟨hs.load_eq_error_iff requested, fun whole hwhole => ?_⟩, ?_⟩
  · obtain ⟨part, hpart, hvalues⟩ := hs.load_of_load_all requested hwhole
    refine ⟨part, hpart, fun n hn => ?_, fun n hn => ?_⟩
    · rw [hvalues]
      exact if_pos hn
    · rw [hvalues]
      exact if_neg hn
  · intro path text content htext hlegal requested
    have hread : content.assignments path = .ok _ :=
      (ConfigFile.assignments_eq_ok_iff htext).mpr ⟨hlegal, rfl⟩
    have hload := Source.load_file_eq_takings hread requested
    refine ⟨_, _, hread, hload, rfl, fun key hkey => ?_, fun n raw hn => ?_, fun e he => ?_⟩
    · have hxor := returned_xor_reported hread hload (ConfigFile.mem_keys_filterMap_iff.mpr hkey)
      simpa only [ConfigFile.value?_filterMap_iff] using hxor
    · rw [values_of_load_file hread hload] at hn
      split at hn
      · next hmem => exact ⟨hmem, ConfigFile.value?_filterMap_iff.mp hn⟩
      · cases hn
    · obtain ⟨keys, hevents, -, hkeys⟩ := exists_events_of_load_file hread hload
      rw [hevents] at he
      obtain ⟨key, hkey, rfl⟩ := List.mem_map.mp he
      obtain ⟨line, hline, raw, ha⟩ :=
        ConfigFile.mem_keys_filterMap_iff.mp ((hkeys key).mp hkey).1
      exact ⟨line, hline, key, raw, ha, rfl⟩

/-- Two keys, each in two letter cases. -/
def twoKeys : String :=
  "[agent]\nelastic_otel.hostname = web\nElastic_Otel.Service_Name = 'shop'\n" ++
    "ELASTIC_OTEL.HOSTNAME=\n; end\nelastic_otel.service_name = \"cart\""

/-- The service name is asked for twice, the host name is not. -/
theorem load_projects_and_loses_no_key_hostname_unasked :
    (FileContent.ofText twoKeys).text "agent.ini" = .ok twoKeys ∧
      (∀ line ∈ ConfigFile.lines twoKeys, ConfigFile.Legal line) ∧
      ∃ whole part,
        (Source.file "agent.ini" (.ofText twoKeys)).load OptionName.all = .ok whole ∧
        (Source.file "agent.ini" (.ofText twoKeys)).load
          [.serviceName, .enabled, .serviceName] = .ok part ∧
        part.values .serviceName = whole.values .serviceName ∧ part.values .hostname = none ∧
        KeyReturned [.serviceName, .enabled, .serviceName] "agent.ini" "elastic_otel.service_name"
          part "cart" ∧
        KeyReported [.serviceName, .enabled, .serviceName] "agent.ini" "elastic_otel.hostname"
          part := by
  obtain ⟨hproject, hfile⟩ := load_projects_and_loses_no_key
  have htext := FileContent.text_ofText "agent.ini" twoKeys
  have hread : (FileContent.ofText twoKeys).assignments "agent.ini" =
      .ok [("elastic_otel.hostname", "web"), ("elastic_otel.service_name", "shop"),
        ("elastic_otel.hostname", ""), ("elastic_otel.service_name", "cart")] := by
    rw [ConfigFile.assignments_eq htext]
    decide +kernel
  obtain ⟨hlegal, hassignments⟩ := (ConfigFile.assignments_eq_ok_iff htext).mp hread
  have hassigned : ∀ key raw, (key, raw) ∈ [("elastic_otel.hostname", "web"),
      ("elastic_otel.service_name", "shop"), ("elastic_otel.hostname", ""),
      ("elastic_otel.service_name", "cart")] →
      ∃ line ∈ ConfigFile.lines twoKeys, ∃ raw, ConfigFile.Assigns line key raw := by
    intro key raw hmem
    rw [← ConfigFile.mem_keys_filterMap_iff, ← hassignments]
    exact ConfigFile.mem_keys_iff.mpr ⟨raw, hmem⟩
  obtain ⟨-, whole, -, hwhole, -⟩ := hfile _ _ _ htext hlegal OptionName.all
  obtain ⟨-, part, -, hpart, -, haccount, -⟩ :=
    hfile _ _ _ htext hlegal [.serviceName, .enabled, .serviceName]
  obtain ⟨part', hpart', hsame, hothers⟩ :=
    (hproject _ (.file _ _) [.serviceName, .enabled, .serviceName]).2 whole hwhole
  obtain rfl : part' = part := Except.ok.inj (hpart'.symm.trans hpart)
  refine ⟨htext, hlegal, whole, part', hwhole, hpart, hsame _ (by decide), hothers _ (by decide),
    ?_, ?_⟩
  · rcases haccount _ (hassigned "elastic_otel.service_name" "cart" (by decide)) with
      ⟨⟨raw, hstands, hreturned⟩, -⟩ | ⟨hreported, -⟩
    · have hraw := ConfigFile.value?_filterMap_iff.mpr hstands
      rw [← hassignments] at hraw
      obtain rfl : "cart" = raw := Option.some.inj hraw
      exact hreturned
    · exact absurd rfl (hreported.unasked .serviceName (by decide))
  · rcases haccount _ (hassigned "elastic_otel.hostname" "web" (by decide)) with
      ⟨⟨raw, -, hreturned⟩, -⟩ | ⟨hreported, -⟩
    · obtain ⟨n, ⟨hn, hkey⟩, -⟩ := hreturned.asked
      have hunasked : ∀ m ∈ [OptionName.serviceName, .enabled, .serviceName],
          m.fileKey ≠ "elastic_otel.hostname" := by decide
      exact absurd hkey (hunasked n hn)
    · exact hreported

end AgentOptions
