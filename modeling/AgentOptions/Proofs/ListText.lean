import AgentOptions.OptionValue
import AgentOptions.Proofs.PatternText
import Mathlib.Data.List.Basic
import Mathlib.Data.List.TakeWhile

/-! # Lists of patterns and labels as texts

Both are written as pieces between commas, and a text that is cut at commas gives trimmed pieces
without a comma (`IsPiece`).  A list of patterns is read from the text that it is written as exactly
if it is not empty and every pattern is written as such a piece
(`PatternList.survives_own_text_iff`), and labels are if no key or value holds what would cut it
(`Labels.survive_own_text_iff`).  What is made of pieces is again written with pieces, so everything
that was read from some text survives (`PatternList.ofText_text`, `Labels.ofText_text`).  Blanks
around a text change nothing (`commaPieces_trim`). -/

namespace AgentOptions

namespace Text

/-! ### Blanks around a text -/

theorem trimChars_blanks_append {blanks : List Char} (h : ∀ c ∈ blanks, isBlank c)
    (s : List Char) : trimChars (blanks ++ s) = trimChars s := by
  rw [trimChars, trimLeft, List.dropWhile_append_of_pos h]
  rfl

theorem trimRight_append_blanks_eq {blanks : List Char} (h : ∀ c ∈ blanks, isBlank c)
    (s : List Char) : trimRight (s ++ blanks) = trimRight s := by
  rw [trimRight, List.reverse_append, List.dropWhile_append_of_pos]
  · rfl
  · exact fun c hc => h c (List.mem_reverse.mp hc)

theorem trimChars_append_blanks {blanks : List Char} (h : ∀ c ∈ blanks, isBlank c)
    (s : List Char) : trimChars (s ++ blanks) = trimChars s := by
  rw [trimChars, trimLeft, List.dropWhile_append]
  split
  · next hs =>
    have hnil : blanks.dropWhile isBlank = [] := by
      rw [List.dropWhile_eq_nil_iff]
      exact h
    rw [hnil, trimChars, trimLeft, List.isEmpty_iff.mp hs]
  · exact trimRight_append_blanks_eq h _

theorem exists_blanks (s : List Char) :
    ∃ left right, s = left ++ (trimChars s ++ right) ∧ (∀ c ∈ left, isBlank c) ∧
      ∀ c ∈ right, isBlank c := by
  obtain ⟨right, hr, hblank⟩ := trimRight_append_blanks (trimLeft s)
  refine ⟨s.takeWhile isBlank, right, ?_, List.all_eq_true.mp List.all_takeWhile, hblank⟩
  rw [trimChars, ← hr]
  exact List.takeWhile_append_dropWhile.symm

theorem trimChars_eq_nil_iff {s : List Char} : trimChars s = [] ↔ ∀ c ∈ s, isBlank c := by
  constructor
  · intro h
    obtain ⟨left, right, hs, hl, hr⟩ := exists_blanks s
    rw [h, List.nil_append] at hs
    intro c hc
    rw [hs] at hc
    exact (List.mem_append.mp hc).elim (hl c) (hr c)
  · intro h
    have happend := trimChars_append_blanks h []
    rw [List.nil_append] at happend
    exact happend

theorem mem_of_mem_trimChars {s : List Char} {c : Char} (h : c ∈ trimChars s) : c ∈ s := by
  obtain ⟨left, right, hs, -⟩ := exists_blanks s
  rw [hs]
  simp [h]

/-! ### Pieces -/

/-- What a text that is cut at commas consists of. -/
def IsPiece (s : List Char) : Prop := Trimmed s ∧ ',' ∉ s

theorem isBlank_comma : ¬ isBlank ',' := by decide

theorem not_mem_of_mem_splitOn {s piece : List Char} (h : piece ∈ s.splitOn ',') : ',' ∉ piece := by
  induction s generalizing piece with
  | nil =>
      rw [List.splitOn_nil, List.mem_singleton] at h
      simp [h]
  | cons c r ih =>
      obtain ⟨p, ps, hp⟩ := List.exists_cons_of_ne_nil (List.splitOn_ne_nil ',' r)
      rw [hp] at ih
      rw [List.splitOn_cons_eq_if_modifyHead, hp] at h
      split at h
      · rcases List.mem_cons.mp h with rfl | h
        · simp
        · exact ih h
      · next hc =>
        rcases List.mem_cons.mp h with rfl | h
        · have hc : ',' ≠ c := fun he => hc (beq_iff_eq.mpr he.symm)
          exact List.not_mem_cons_of_ne_of_not_mem hc (ih List.mem_cons_self)
        · exact ih (List.mem_cons_of_mem _ h)

theorem isPiece_of_mem_commaPieces {s t : String} (h : t ∈ commaPieces s) : IsPiece t.toList := by
  obtain ⟨piece, hp, rfl⟩ := List.mem_map.mp h
  rw [String.toList_ofList]
  exact ⟨trimmed_trimChars piece, fun hc => not_mem_of_mem_splitOn hp (mem_of_mem_trimChars hc)⟩

theorem length_splitOn (s : List Char) : (s.splitOn ',').length = s.count ',' + 1 := by
  induction s with
  | nil => rfl
  | cons c r ih =>
      rw [List.splitOn_cons_eq_if_modifyHead, List.count_cons]
      split
      · rw [List.length_cons, ih]
      · rw [List.length_modifyHead, ih]

theorem length_commaPieces (s : String) : (commaPieces s).length = s.toList.count ',' + 1 := by
  rw [commaPieces, List.length_map, length_splitOn]

theorem append_intercalate (left : List Char) (p : List Char) (ps : List (List Char)) :
    left ++ [','].intercalate (p :: ps) = [','].intercalate ((left ++ p) :: ps) := by
  cases ps with
  | nil => simp
  | cons q ps => simp

theorem intercalate_append (ps : List (List Char)) (p right : List Char) :
    [','].intercalate (ps ++ [p]) ++ right = [','].intercalate (ps ++ [p ++ right]) := by
  induction ps with
  | nil => simp
  | cons q ps ih =>
      rw [List.cons_append, List.cons_append, List.intercalate_cons_of_ne_nil (by simp),
        List.intercalate_cons_of_ne_nil (by simp), List.append_assoc, ih]

/-- Blanks before a text go to its first piece, and there they do not count. -/
theorem map_trimChars_splitOn_blanks_append {left : List Char} (hl : ∀ c ∈ left, isBlank c)
    (s : List Char) :
    ((left ++ s).splitOn ',').map trimChars = (s.splitOn ',').map trimChars := by
  have hs : [','].intercalate (s.splitOn ',') = s := List.intercalate_splitOn ','
  have hpieces : ∀ p ∈ s.splitOn ',', ',' ∉ p := fun p => not_mem_of_mem_splitOn
  obtain ⟨p, ps, hp⟩ := List.exists_cons_of_ne_nil (List.splitOn_ne_nil ',' s)
  rw [hp] at hs hpieces ⊢
  rw [← hs, append_intercalate, List.splitOn_intercalate]
  · simp [trimChars_blanks_append hl]
  · intro q hq
    rcases List.mem_cons.mp hq with rfl | hq
    · rw [List.mem_append, not_or]
      exact ⟨fun hc => isBlank_comma (hl _ hc), hpieces p List.mem_cons_self⟩
    · exact hpieces q (List.mem_cons_of_mem _ hq)
  · simp

theorem map_trimChars_splitOn_append_blanks {right : List Char} (hr : ∀ c ∈ right, isBlank c)
    (s : List Char) :
    ((s ++ right).splitOn ',').map trimChars = (s.splitOn ',').map trimChars := by
  have hs : [','].intercalate (s.splitOn ',') = s := List.intercalate_splitOn ','
  have hpieces : ∀ p ∈ s.splitOn ',', ',' ∉ p := fun p => not_mem_of_mem_splitOn
  rcases List.eq_nil_or_concat (s.splitOn ',') with hn | ⟨ps, p, hp⟩
  · exact absurd hn (List.splitOn_ne_nil ',' s)
  · rw [List.concat_eq_append] at hp
    rw [hp] at hs hpieces ⊢
    rw [← hs, intercalate_append, List.splitOn_intercalate]
    · simp [trimChars_append_blanks hr]
    · intro q hq
      rcases List.mem_append.mp hq with hq | hq
      · exact hpieces q (by simp [hq])
      · rw [List.mem_singleton.mp hq, List.mem_append, not_or]
        exact ⟨hpieces p (by simp), fun hc => isBlank_comma (hr _ hc)⟩
    · simp

theorem commaPieces_trim (s : String) : commaPieces (trim s) = commaPieces s := by
  obtain ⟨left, right, hs, hl, hr⟩ := exists_blanks s.toList
  have h : (s.toList.splitOn ',').map trimChars =
      ((trimChars s.toList).splitOn ',').map trimChars := by
    conv_lhs => rw [hs]
    rw [map_trimChars_splitOn_blanks_append hl, map_trimChars_splitOn_append_blanks hr]
  have hstrings := congrArg (List.map String.ofList) h
  rw [List.map_map, List.map_map] at hstrings
  rw [commaPieces, toList_trim]
  exact hstrings.symm

theorem trim_of_commaPieces_eq_singleton {s t : String} (h : commaPieces s = [t]) :
    trim s = t := by
  obtain ⟨piece, hp, rfl⟩ := List.map_eq_singleton_iff.mp h
  have hs : [','].intercalate (s.toList.splitOn ',') = s.toList := List.intercalate_splitOn ','
  rw [hp, List.intercalate_singleton] at hs
  rw [trim, hs]

/-- What follows the comma of a separator can as well be put before the pieces. -/
theorem intercalate_map_append (blanks p : List Char) (ps : List (List Char)) :
    (',' :: blanks).intercalate (p :: ps) = [','].intercalate (p :: ps.map (blanks ++ ·)) := by
  induction ps generalizing p with
  | nil => simp
  | cons q ps ih =>
      rw [List.map_cons, List.intercalate_cons_cons, List.intercalate_cons_cons, ih,
        ← append_intercalate]
      simp

/-- Pieces between separators that are a comma and blanks are cut as they were. -/
theorem commaPieces_intercalate {separator : String} {blanks : List Char}
    (hsep : separator.toList = ',' :: blanks) (hblanks : ∀ c ∈ blanks, isBlank c)
    {pieces : List String} (hne : pieces ≠ []) (h : ∀ p ∈ pieces, IsPiece p.toList) :
    commaPieces (separator.intercalate pieces) = pieces := by
  cases pieces with
  | nil => exact absurd rfl hne
  | cons p ps =>
      have hpad : (separator.intercalate (p :: ps)).toList =
          [','].intercalate (p.toList :: ps.map fun q => blanks ++ q.toList) := by
        rw [String.toList_intercalate, hsep, List.map_cons, intercalate_map_append, List.map_map]
        rfl
      rw [commaPieces, hpad, List.splitOn_intercalate]
      · have hp := trimChars_eq_self_iff.mpr (h p List.mem_cons_self).1
        have hps : ∀ q ∈ ps, String.ofList (trimChars (blanks ++ q.toList)) = q := by
          intro q hq
          rw [trimChars_blanks_append hblanks,
            trimChars_eq_self_iff.mpr (h q (List.mem_cons_of_mem _ hq)).1, String.ofList_toList]
        rw [List.map_cons, hp, String.ofList_toList, List.map_map]
        exact congrArg (p :: ·) ((List.map_congr_left hps).trans (List.map_id ps))
      · intro t ht
        rcases List.mem_cons.mp ht with rfl | ht
        · exact (h p List.mem_cons_self).2
        · obtain ⟨q, hq, rfl⟩ := List.mem_map.mp ht
          rw [List.mem_append, not_or]
          exact ⟨fun hc => isBlank_comma (hblanks _ hc), (h q (List.mem_cons_of_mem _ hq)).2⟩
      · simp

end Text

/-! ### Lists of patterns -/

namespace Pattern

theorem trimmed_collapseStars {s : List Char} (h : Text.Trimmed s) :
    Text.Trimmed (collapseStars s) := by
  constructor
  · intro c hc
    rw [head?_collapseStars] at hc
    exact h.1 c hc
  · intro c hc
    rw [getLast?_collapseStars] at hc
    exact h.2 c hc

theorem isPiece_text_ofText {s : String} (h : Text.IsPiece s.toList) :
    Text.IsPiece (ofText s).text.toList := by
  rw [toList_text_ofText]
  exact ⟨trimmed_collapseStars h.1, fun hc => h.2 (mem_of_mem_collapseStars hc)⟩

theorem ofText_eq_ofText_empty {t : String} (h : ofText t = ofText "") : t = "" := by
  have hc : collapseStars t.toList = [] := by
    rw [← toList_text_ofText, h]
    rfl
  exact String.toList_eq_nil_iff.mp (collapseStars_eq_nil_iff.mp hc)

end Pattern

namespace PatternList

theorem length_ofText (raw : String) :
    (ofText raw).patterns.length = raw.toList.count ',' + 1 := by
  rw [ofText, List.length_map, Text.length_commaPieces]

theorem ofText_ne_nil (raw : String) : (ofText raw).patterns ≠ [] := by
  apply List.ne_nil_of_length_pos
  rw [length_ofText]
  omega

theorem isPiece_of_mem_ofText {raw : String} :
    ∀ p ∈ (ofText raw).patterns, Text.IsPiece p.text.toList := by
  intro p hp
  obtain ⟨piece, hpiece, rfl⟩ := List.mem_map.mp hp
  exact Pattern.isPiece_text_ofText (Text.isPiece_of_mem_commaPieces hpiece)

/-- A list whose patterns are written as pieces is read from its text. -/
theorem ofText_text_of_isPiece {l : PatternList} (hne : l.patterns ≠ [])
    (h : ∀ p ∈ l.patterns, Text.IsPiece p.text.toList) : ofText l.text = l := by
  have hsep : (", ").toList = ',' :: [' '] := rfl
  have hblank : ∀ c ∈ [' '], Text.isBlank c := by
    intro c hc
    rw [List.mem_singleton.mp hc]
    decide
  have hne' : l.patterns.map Pattern.text ≠ [] := by simpa using hne
  have hpieces : ∀ t ∈ l.patterns.map Pattern.text, Text.IsPiece t.toList := by
    intro t ht
    obtain ⟨p, hp, rfl⟩ := List.mem_map.mp ht
    exact h p hp
  have hcut := Text.commaPieces_intercalate hsep hblank hne' hpieces
  have hread : Pattern.ofText ∘ Pattern.text = id := funext Pattern.ofText_text
  rw [ofText, text, hcut, List.map_map, hread, List.map_id]

theorem ofText_text (raw : String) : ofText (ofText raw).text = ofText raw :=
  ofText_text_of_isPiece (ofText_ne_nil raw) isPiece_of_mem_ofText

/-- **A list of patterns survives its own text exactly if it is not empty and its patterns are
written as pieces.**  So does every list that was read, which has one pattern more than its text
has commas. -/
theorem survives_own_text_iff (l : PatternList) (raw : String) :
    (ofText l.text = l ↔ l.patterns ≠ [] ∧ ∀ p ∈ l.patterns, Text.IsPiece p.text.toList) ∧
      ((ofText raw).patterns ≠ [] ∧
        ∀ p ∈ (ofText raw).patterns, Text.IsPiece p.text.toList) ∧
      (ofText raw).patterns.length = raw.toList.count ',' + 1 ∧
      ofText (ofText raw).text = ofText raw := by
  have hread : ∀ raw, (ofText raw).patterns ≠ [] ∧
      ∀ p ∈ (ofText raw).patterns, Text.IsPiece p.text.toList :=
    fun raw => ⟨ofText_ne_nil raw, isPiece_of_mem_ofText⟩
  refine ⟨?_, hread raw, length_ofText raw, ofText_text raw⟩
  constructor
  · intro h
    rw [← h]
    exact hread l.text
  · rintro ⟨hne, hpieces⟩
    exact ofText_text_of_isPiece hne hpieces

/-- An empty list, a pattern with a blank at its end, and one with a comma do not survive. -/
example : ofText (text ⟨[]⟩) ≠ ⟨[]⟩ ∧
    ofText (text ⟨[.ofText "(?-i) "]⟩) ≠ ⟨[.ofText "(?-i) "]⟩ ∧
    ofText (text ⟨[.ofText "a,b"]⟩) ≠ ⟨[.ofText "a,b"]⟩ := by decide

theorem ofText_trim (raw : String) : ofText (Text.trim raw) = ofText raw := by
  rw [ofText, ofText, Text.commaPieces_trim]

theorem ofText_eq_ofText_empty_iff {raw : String} :
    ofText raw = ofText "" ↔ Text.trim raw = "" := by
  constructor
  · intro h
    have hmap : (Text.commaPieces raw).map Pattern.ofText = [Pattern.ofText ""] :=
      congrArg patterns h
    obtain ⟨t, ht, hp⟩ := List.map_eq_singleton_iff.mp hmap
    rw [Text.trim_of_commaPieces_eq_singleton ht]
    exact Pattern.ofText_eq_ofText_empty hp
  · intro h
    rw [← ofText_trim, h]

end PatternList

/-! ### Labels -/

namespace Labels

theorem insertPair_of_forall_lt {key value : String} {pairs : List (String × String)}
    (h : ∀ p ∈ pairs, p.1 < key) : insertPair key value pairs = pairs ++ [(key, value)] := by
  induction pairs with
  | nil => rfl
  | cons p pairs ih =>
      have hlt : p.1 < key := h p List.mem_cons_self
      have hnot : ¬ key < p.1 := fun h' => String.lt_irrefl key (String.lt_trans h' hlt)
      have hne : key ≠ p.1 := fun he => String.lt_irrefl key (he ▸ hlt)
      rw [insertPair, if_neg hnot, if_neg hne, ih fun q hq => h q (List.mem_cons_of_mem _ hq)]
      rfl

theorem pairs_foldl_insert {pairs : List (String × String)} {labels : Labels}
    (h : (labels.pairs ++ pairs).Pairwise fun p q => p.1 < q.1) :
    (pairs.foldl (fun l p => l.insert p.1 p.2) labels).pairs = labels.pairs ++ pairs := by
  induction pairs generalizing labels with
  | nil => simp
  | cons p pairs ih =>
      have hlt : ∀ q ∈ labels.pairs, q.1 < p.1 := fun q hq =>
        (List.pairwise_append.mp h).2.2 q hq p List.mem_cons_self
      have hinsert : (labels.insert p.1 p.2).pairs = labels.pairs ++ [p] :=
        insertPair_of_forall_lt hlt
      rw [List.foldl_cons, ih, hinsert, List.append_assoc]
      · rfl
      · rw [hinsert, List.append_assoc]
        exact h

theorem eq_of_pairs_eq {l m : Labels} (h : l.pairs = m.pairs) : l = m := by
  cases l
  cases m
  simpa using h

theorem ofPairs_pairs (labels : Labels) : ofPairs labels.pairs = labels := by
  have h : (empty.pairs ++ labels.pairs).Pairwise fun p q => p.1 < q.1 := labels.ascending
  exact eq_of_pairs_eq (pairs_foldl_insert h)

theorem mem_pairs_foldl_insert {pairs : List (String × String)} {labels : Labels}
    {p : String × String} (h : p ∈ (pairs.foldl (fun l q => l.insert q.1 q.2) labels).pairs) :
    p ∈ labels.pairs ∨ p ∈ pairs := by
  induction pairs generalizing labels with
  | nil => exact .inl h
  | cons q pairs ih =>
      rcases ih h with h | h
      · rcases mem_insertPair h with rfl | h
        · exact .inr List.mem_cons_self
        · exact .inl h
      · exact .inr (List.mem_cons_of_mem _ h)

/-- Keys and values that a label text can bind. -/
structure Bound (key value : String) : Prop where
  isPiece_key : Text.IsPiece key.toList
  key_ne_nil : key.toList ≠ []
  mark_not_mem : '=' ∉ key.toList
  isPiece_value : Text.IsPiece value.toList

theorem Bound.toList_text (key value : String) :
    (key ++ "=" ++ value).toList = key.toList ++ '=' :: value.toList := by
  simp

theorem bound_of_entryOf {piece key value : String} (hp : Text.IsPiece piece.toList)
    (h : entryOf piece = .binding key value) : Bound key value := by
  unfold entryOf at h
  split at h
  · cases h
  · split at h
    · cases h
    · next before after hcut =>
      split at h
      · cases h
      · next hne =>
        cases h
        obtain ⟨hs, hmark⟩ := Text.cutAt_eq_some_iff.mp hcut
        have hcomma := hp.2
        rw [hs, List.mem_append, not_or] at hcomma
        constructor
        · rw [String.toList_ofList]
          exact ⟨Text.trimmed_trimChars _, fun hc => hcomma.1 (Text.mem_of_mem_trimChars hc)⟩
        · rw [String.toList_ofList]
          exact hne
        · rw [String.toList_ofList]
          exact fun hc => hmark (Text.mem_of_mem_trimChars hc)
        · rw [String.toList_ofList]
          exact ⟨Text.trimmed_trimChars _,
            fun hc => hcomma.2 (List.mem_cons_of_mem _ (Text.mem_of_mem_trimChars hc))⟩

theorem Bound.isPiece {key value : String} (h : Bound key value) :
    Text.IsPiece (key ++ "=" ++ value).toList := by
  rw [Bound.toList_text]
  refine ⟨⟨fun c hc => h.isPiece_key.1.1 c ?_, fun c hc => ?_⟩, ?_⟩
  · rwa [List.head?_append_of_ne_nil _ h.key_ne_nil] at hc
  · rw [List.getLast?_append_of_ne_nil _ (List.cons_ne_nil _ _), List.getLast?_cons] at hc
    cases hv : value.toList.getLast? with
    | none =>
        rw [hv] at hc
        obtain rfl : '=' = c := Option.some.inj hc
        decide
    | some d =>
        rw [hv] at hc
        obtain rfl : d = c := Option.some.inj hc
        exact h.isPiece_value.1.2 d hv
  · intro hc
    rcases List.mem_append.mp hc with hc | hc
    · exact h.isPiece_key.2 hc
    · rcases List.mem_cons.mp hc with hc | hc
      · exact absurd hc (by decide)
      · exact h.isPiece_value.2 hc

theorem Bound.entryOf {key value : String} (h : Bound key value) :
    entryOf (key ++ "=" ++ value) = .binding key value := by
  have hne : key ++ "=" ++ value ≠ "" := by
    intro he
    have := congrArg String.toList he
    rw [Bound.toList_text] at this
    simp at this
  have hcut : Text.cutAt '=' (key ++ "=" ++ value).toList = some (key.toList, value.toList) :=
    Text.cutAt_eq_some_iff.mpr ⟨Bound.toList_text key value, h.mark_not_mem⟩
  have hkey := Text.trimChars_eq_self_iff.mpr h.isPiece_key.1
  have hvalue := Text.trimChars_eq_self_iff.mpr h.isPiece_value.1
  simp only [Labels.entryOf, if_neg hne, hcut, hkey, hvalue, if_neg h.key_ne_nil,
    String.ofList_toList]

theorem bound_of_mem_ofText {raw : String} : ∀ p ∈ (ofText raw).pairs, Bound p.1 p.2 := by
  intro p hp
  rcases mem_pairs_foldl_insert hp with h | h
  · cases h
  · obtain ⟨e, he, hpair⟩ := List.mem_filterMap.mp h
    obtain ⟨piece, hpiece, rfl⟩ := List.mem_map.mp he
    have hentry : entryOf piece = .binding p.1 p.2 := by
      cases hent : entryOf piece with
      | binding key value =>
          rw [hent] at hpair
          obtain rfl := Option.some.inj hpair
          rfl
      | skipped => rw [hent] at hpair; cases hpair
      | malformed entry => rw [hent] at hpair; cases hpair
    exact bound_of_entryOf (Text.isPiece_of_mem_commaPieces hpiece) hentry

theorem entries_text {labels : Labels} (h : ∀ p ∈ labels.pairs, Bound p.1 p.2)
    (hne : labels.pairs ≠ []) :
    entries labels.text = labels.pairs.map fun p => .binding p.1 p.2 := by
  have hsep : (",").toList = ',' :: [] := rfl
  have hpieces : ∀ t ∈ labels.pairs.map (fun p => p.1 ++ "=" ++ p.2), Text.IsPiece t.toList := by
    intro t ht
    obtain ⟨p, hp, rfl⟩ := List.mem_map.mp ht
    exact (h p hp).isPiece
  rw [entries, text, Text.commaPieces_intercalate hsep (by simp) (by simpa using hne) hpieces,
    List.map_map]
  exact List.map_congr_left fun p hp => (h p hp).entryOf

/-- Of labels that a label text can bind, the text binds each and drops nothing. -/
theorem reads_back {labels : Labels} (h : ∀ p ∈ labels.pairs, Bound p.1 p.2) :
    ofText labels.text = labels ∧ warnings labels.text = [] := by
  by_cases hne : labels.pairs = []
  · have hempty : labels = empty := eq_of_pairs_eq hne
    rw [hempty]
    decide
  · have hentries := entries_text h hne
    constructor
    · have hpair : (Entry.pair? ∘ fun p : String × String => .binding p.1 p.2) = some := rfl
      rw [ofText, hentries, List.filterMap_map, hpair, List.filterMap_some, ofPairs_pairs]
    · rw [warnings, hentries, List.filterMap_map]
      exact List.filterMap_eq_nil_iff.mpr fun _ _ => rfl

theorem ofText_text (raw : String) : ofText (ofText raw).text = ofText raw :=
  (reads_back bound_of_mem_ofText).1

theorem warnings_text (raw : String) : warnings (ofText raw).text = [] :=
  (reads_back bound_of_mem_ofText).2

/-- **Labels survive their own text exactly if a label text can bind every pair of them**, and then
without a warning.  It can bind every pair of labels that were read. -/
theorem survive_own_text_iff (labels : Labels) (raw : String) :
    (ofText (OptionValue.labels labels).text = labels ↔
        ∀ p ∈ labels.pairs, Bound p.1 p.2) ∧
      ((∀ p ∈ labels.pairs, Bound p.1 p.2) →
        warnings (OptionValue.labels labels).text = []) ∧
      ∀ p ∈ (ofText raw).pairs, Bound p.1 p.2 := by
  refine ⟨?_, fun h => (reads_back h).2, bound_of_mem_ofText⟩
  constructor
  · intro h
    rw [← h]
    exact bound_of_mem_ofText
  · intro h
    exact (reads_back h).1

/-- A value with a second `=` and an empty value, from a text with an empty entry. -/
theorem survive_own_text_iff_second_mark :
    (ofText "k=a=b,, z = ").pairs = [("k", "a=b"), ("z", "")] ∧
      (∀ p ∈ (ofText "k=a=b,, z = ").pairs, Bound p.1 p.2) ∧
      ofText (OptionValue.labels (ofText "k=a=b,, z = ")).text = ofText "k=a=b,, z = " ∧
      warnings (OptionValue.labels (ofText "k=a=b,, z = ")).text = [] := by
  obtain ⟨hread, hwarn, hbound⟩ :=
    survive_own_text_iff (ofText "k=a=b,, z = ") "k=a=b,, z = "
  exact ⟨by decide, hbound, hread.mpr hbound, hwarn hbound⟩

theorem ofText_trim (raw : String) : ofText (Text.trim raw) = ofText raw := by
  rw [ofText, ofText, entries, entries, Text.commaPieces_trim]

end Labels

end AgentOptions
