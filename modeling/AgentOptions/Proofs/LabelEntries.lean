import AgentOptions.Proofs.Assignments
import AgentOptions.Proofs.Warnings
import Mathlib.Data.List.Induction
import Mathlib.Data.List.Nodup
import Mathlib.Data.List.Perm.Basic

/-! # Label texts, entry by entry

An entry of a label text is skipped, dropped or binds a key, whatever stands beside it
(`Labels.Says`).  A key has the value of the last entry that binds it (`get?_ofPieces_iff`), so of
two texts with a comma between them the second overrides the first (`get?_ofText_append`).

Main statement: `Labels.read_entry_by_entry`. -/

namespace AgentOptions

/-! ### Pieces -/

namespace Text

theorem exists_pieces (s : String) : ∃ pieces : List String, pieces ≠ [] ∧
    (∀ p ∈ pieces, ',' ∉ p.toList) ∧ s = ",".intercalate pieces ∧
    commaPieces s = pieces.map trim := by
  refine ⟨(s.toList.splitOn ',').map String.ofList, ?_, ?_, ?_, ?_⟩
  · simp
  · intro p hp
    obtain ⟨piece, hpiece, rfl⟩ := List.mem_map.mp hp
    rw [String.toList_ofList]
    exact not_mem_of_mem_splitOn hpiece
  · have hid : String.toList ∘ String.ofList = id := funext fun _ => String.toList_ofList
    rw [← String.toList_inj, String.toList_intercalate, List.map_map, hid, List.map_id]
    exact (List.intercalate_splitOn ',').symm
  · rw [commaPieces, List.map_map]
    refine List.map_congr_left fun piece _ => ?_
    simp only [Function.comp, trim, String.toList_ofList]

theorem commaPieces_append (a b : String) :
    commaPieces (a ++ "," ++ b) = commaPieces a ++ commaPieces b := by
  have hcomma : (a ++ "," ++ b).toList = a.toList ++ ',' :: b.toList := by simp
  rw [commaPieces, hcomma, List.splitOn_append_cons_self, List.map_append]
  rfl

end Text

namespace Labels

/-! ### Entries -/

/-- What an entry says, without the blanks around it. -/
inductive Says : String → Entry → Prop
  | skipped : Says "" .skipped
  | malformed {piece : String} : BindsNothing piece → Says piece (.malformed piece)
  | binding {before after : String} : '=' ∉ before.toList →
      (∃ c ∈ before.toList, Text.isBlank c = false) →
      Says (before ++ "=" ++ after) (.binding (Text.trim before) (Text.trim after))

variable {piece key value : String} {entry : Entry}

theorem Says.entryOf_eq (h : Says piece entry) : entryOf piece = entry := by
  cases h with
  | skipped => rfl
  | malformed hnothing =>
      have hwarn := warning?_entryOf piece
      rw [if_pos hnothing] at hwarn
      cases he : entryOf piece with
      | malformed e =>
          rw [he] at hwarn
          cases hwarn
          rfl
      | skipped => rw [he] at hwarn; cases hwarn
      | binding key value => rw [he] at hwarn; cases hwarn
  | @binding before after hmark hletter =>
      have htext : (before ++ "=" ++ after).toList = before.toList ++ '=' :: after.toList := by simp
      have hcut : Text.cutAt '=' (before ++ "=" ++ after).toList =
          some (before.toList, after.toList) := Text.cutAt_eq_some_iff.mpr ⟨htext, hmark⟩
      have hne : before ++ "=" ++ after ≠ "" := by
        intro he
        rw [he] at htext
        simp at htext
      have hkey : Text.trimChars before.toList ≠ [] := by
        intro hnil
        obtain ⟨c, hc, hblank⟩ := hletter
        rw [Text.trimChars_eq_nil_iff.mp hnil c hc] at hblank
        cases hblank
      simp only [entryOf, if_neg hne, hcut, if_neg hkey]
      rfl

theorem exists_says (piece : String) : ∃ entry, Says piece entry := by
  by_cases hnothing : BindsNothing piece
  · exact ⟨_, .malformed hnothing⟩
  · by_cases hempty : piece = ""
    · rw [hempty]
      exact ⟨_, .skipped⟩
    · cases hcut : Text.cutAt '=' piece.toList with
      | none => exact absurd ⟨hempty, .inl (Text.cutAt_eq_none_iff.mp hcut)⟩ hnothing
      | some parts =>
          obtain ⟨before, after⟩ := parts
          obtain ⟨hs, hmark⟩ := Text.cutAt_eq_some_iff.mp hcut
          have hpiece : piece = String.ofList before ++ "=" ++ String.ofList after := by
            rw [← String.toList_inj, hs]
            simp
          have hletter : ∃ c ∈ before, Text.isBlank c = false := by
            by_contra hall
            refine hnothing ⟨hempty, .inr fun c hc => ?_⟩
            rw [takeWhile_of_cutAt hcut] at hc
            exact eq_true_of_ne_false fun hblank => hall ⟨c, hc, hblank⟩
          rw [hpiece]
          exact ⟨_, .binding (by rwa [String.toList_ofList]) (by rwa [String.toList_ofList])⟩

/-- **An entry says one thing**, and the reader takes it so. -/
theorem entryOf_eq_iff : entryOf piece = entry ↔ Says piece entry := by
  constructor
  · rintro rfl
    obtain ⟨entry, h⟩ := exists_says piece
    rwa [h.entryOf_eq]
  · exact Says.entryOf_eq

theorem says_entryOf (piece : String) : Says piece (entryOf piece) := entryOf_eq_iff.mp rfl

/-! ### Labels by their keys -/

theorem ext_get? {l m : Labels} (h : ∀ key, l.get? key = m.get? key) : l = m := by
  have hkeys : ∀ l : Labels, (l.pairs.map Prod.fst).Nodup := by
    intro l
    rw [List.nodup_iff_pairwise_ne, List.pairwise_map]
    exact l.ascending.imp fun hlt => String.ne_of_lt hlt
  have hmem : ∀ p, p ∈ l.pairs ↔ p ∈ m.pairs := by
    rintro ⟨key, value⟩
    rw [← Bindings.lookup_eq_some_iff_mem (hkeys l), ← Bindings.lookup_eq_some_iff_mem (hkeys m)]
    exact iff_of_eq (congrArg (· = some value) (h key))
  have hperm : l.pairs.Perm m.pairs :=
    (List.perm_ext_iff_of_nodup (.of_map _ (hkeys l)) (.of_map _ (hkeys m))).mpr hmem
  apply eq_of_pairs_eq
  refine hperm.eq_of_pairwise (fun p q _ _ hpq hqp => ?_) l.ascending m.ascending
  exact absurd (String.lt_trans hpq hqp) (String.lt_irrefl _)

/-- The labels that pieces bind. -/
def ofPieces (pieces : List String) : Labels :=
  ofPairs ((pieces.map entryOf).filterMap Entry.pair?)

theorem ofText_eq_ofPieces (raw : String) : ofText raw = ofPieces (Text.commaPieces raw) := rfl

/-- One entry more: it binds its key anew, or changes nothing. -/
theorem ofPieces_concat_of_binding (h : Says piece (.binding key value)) (pieces : List String) :
    ofPieces (pieces ++ [piece]) = (ofPieces pieces).insert key value := by
  rw [ofPieces, List.map_append, List.filterMap_append, ofPairs, List.foldl_append,
    List.map_singleton, h.entryOf_eq]
  rfl

theorem ofPieces_concat_of_not_binding (h : ∀ key value, ¬ Says piece (.binding key value))
    (pieces : List String) : ofPieces (pieces ++ [piece]) = ofPieces pieces := by
  have hnone : (entryOf piece).pair? = none := by
    cases he : entryOf piece with
    | binding key value => exact absurd (entryOf_eq_iff.mp he) (h key value)
    | skipped => rfl
    | malformed piece => rfl
  rw [ofPieces, List.map_append, List.filterMap_append, List.map_singleton,
    List.filterMap_cons_none hnone, List.filterMap_nil, List.append_nil]
  rfl

theorem get?_ofPieces_iff {pieces : List String} : (ofPieces pieces).get? key = some value ↔
    LastGiven (fun piece value => Says piece (.binding key value)) pieces value := by
  induction pieces using List.reverseRecOn with
  | nil => exact iff_of_false (by rintro ⟨⟩) LastGiven.not_nil
  | append_singleton pieces piece ih =>
      rw [LastGiven.concat_iff, ← ih]
      by_cases hbinds : ∃ k v, Says piece (.binding k v)
      · obtain ⟨k, v, hsays⟩ := hbinds
        have hunique : ∀ other, Says piece (.binding key other) ↔ key = k ∧ other = v := by
          intro other
          rw [← entryOf_eq_iff, hsays.entryOf_eq, Entry.binding.injEq, eq_comm, @eq_comm _ v]
        rw [ofPieces_concat_of_binding hsays, get?_insert]
        simp only [hunique]
        by_cases hkey : key = k
        · simp [hkey, eq_comm]
        · simp [hkey]
      · have hnone : ∀ k v, ¬ Says piece (.binding k v) := fun k v h => hbinds ⟨k, v, h⟩
        rw [ofPieces_concat_of_not_binding hnone]
        simp [hnone]

theorem exists_get?_ofPieces_iff {pieces : List String} :
    (∃ value, (ofPieces pieces).get? key = some value) ↔
      ∃ piece ∈ pieces, ∃ value, Says piece (.binding key value) := by
  simp only [get?_ofPieces_iff]
  exact LastGiven.exists_iff

/-- Of two lists of pieces the second overrides the first. -/
theorem get?_ofPieces_append (pieces pieces' : List String) (key : String) :
    (ofPieces (pieces ++ pieces')).get? key =
      ((ofPieces pieces').get? key).or ((ofPieces pieces).get? key) := by
  ext value
  rw [get?_ofPieces_iff, LastGiven.append_iff, Option.or_eq_some_iff, get?_ofPieces_iff,
    get?_ofPieces_iff, Option.eq_none_iff_forall_ne_some]
  have hnone : (∀ value, (ofPieces pieces').get? key ≠ some value) ↔
      ∀ piece ∈ pieces', ∀ value, ¬ Says piece (.binding key value) := by
    rw [← not_exists, exists_get?_ofPieces_iff]
    simp
  rw [hnone]

theorem get?_ofText_append (a b key : String) :
    (ofText (a ++ "," ++ b)).get? key = ((ofText b).get? key).or ((ofText a).get? key) := by
  rw [ofText_eq_ofPieces, Text.commaPieces_append]
  exact get?_ofPieces_append _ _ key

theorem warnings_append (a b : String) :
    warnings (a ++ "," ++ b) = warnings a ++ warnings b := by
  rw [warnings, entries, Text.commaPieces_append, List.map_append, List.filterMap_append]
  rfl

/-- **A label text is read entry by entry.**

* Its entries are what stands between its commas, without the blanks around it.
* An entry is skipped, dropped, or binds a key, and only one of these.
* There is one warning for each entry that is dropped, in text order; it quotes the entry.
* A key is bound if some entry binds it, and has the value of the last entry that does.
* Of two texts with a comma between them the labels of the second override those of the first,
  and its warnings follow. -/
theorem read_entry_by_entry (raw a b : String) :
    (∃ pieces : List String, pieces ≠ [] ∧ (∀ p ∈ pieces, ',' ∉ p.toList) ∧
        raw = ",".intercalate pieces ∧ Text.commaPieces raw = pieces.map Text.trim) ∧
      (∀ piece, ∃! entry, Says piece entry) ∧
      warnings raw = ((Text.commaPieces raw).filter (BindsNothing ·)).map .malformedLabel ∧
      (∀ piece, (Event.malformedLabel piece).warning? = some (.unbound piece)) ∧
      (∀ key, (∃ value, (ofText raw).get? key = some value) ↔
        ∃ piece ∈ Text.commaPieces raw, ∃ value, Says piece (.binding key value)) ∧
      (∀ key value, (ofText raw).get? key = some value ↔
        LastGiven (fun piece value => Says piece (.binding key value)) (Text.commaPieces raw)
          value) ∧
      (∀ labels, labels = ofText (a ++ "," ++ b) ↔
        ∀ key, labels.get? key = ((ofText b).get? key).or ((ofText a).get? key)) ∧
      warnings (a ++ "," ++ b) = warnings a ++ warnings b := by
  refine ⟨Text.exists_pieces raw, ?_, warnings_eq_map_unbound raw, fun _ => rfl, ?_, ?_, ?_,
    warnings_append a b⟩
  · intro piece
    exact ⟨entryOf piece, says_entryOf piece, fun entry h => h.entryOf_eq.symm⟩
  · intro key
    exact exists_get?_ofPieces_iff
  · intro key value
    exact get?_ofPieces_iff
  · intro labels
    constructor
    · rintro rfl
      exact get?_ofText_append a b
    · intro h
      exact ext_get? fun key => (h key).trans (get?_ofText_append a b key).symm

/-- A key that is bound twice, with blanks around it, one that differs from it in case alone, and
three entries that bind nothing. -/
example :
    entries " k = 1 ,K=2,,k\t=a=b, =x,=,novalue" =
        [.binding "k" "1", .binding "K" "2", .skipped, .binding "k" "a=b", .malformed "=x",
          .malformed "=", .malformed "novalue"] ∧
      (ofText " k = 1 ,K=2,,k\t=a=b, =x,=,novalue").pairs = [("K", "2"), ("k", "a=b")] := by
  decide

end Labels

end AgentOptions
