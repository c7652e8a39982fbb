import AgentOptions.Pattern.Basic

/-! # Canonical texts of patterns

The text of a compiled body is the text that it was compiled from with every run of stars replaced
by one star (`text_ofText`).  A well-formed body is compiled from its own text (`ofText_text`), and
so a compiled pattern is compiled from its canonical text (`ofChars_chars`).

`Collapses` says what it is to replace the runs of a text, and `collapseStars` does it
(`collapses_iff`).  The marker holds no star and stays where it is, so the canonical text of a
pattern is its pattern text with the runs of stars replaced, and it identifies the pattern
(`canonical_text_identifies_pattern`).

Collapsing runs of stars adds no character and moves neither end of a text, so a canonical text
that is written into a list of patterns is read from it as it stands. -/

namespace AgentOptions

/-- A text with one star in place of every run of stars. -/
def collapseStars : List Char → List Char
  | [] => []
  | c :: r =>
    if c = '*' ∧ (collapseStars r).head? = some '*' then collapseStars r else c :: collapseStars r

theorem collapseStars_cons_of_ne {c : Char} (h : c ≠ '*') (r : List Char) :
    collapseStars (c :: r) = c :: collapseStars r := by
  rw [collapseStars, if_neg (fun h' => h h'.1)]

theorem collapseStars_eq_nil_iff {s : List Char} : collapseStars s = [] ↔ s = [] := by
  constructor
  · intro h
    cases s with
    | nil => rfl
    | cons c r =>
        unfold collapseStars at h
        split at h
        · next hr => simp [h] at hr
        · cases h
  · rintro rfl
    rfl

theorem mem_of_mem_collapseStars {s : List Char} {c : Char} (h : c ∈ collapseStars s) : c ∈ s := by
  induction s with
  | nil => exact h
  | cons d r ih =>
      unfold collapseStars at h
      split at h
      · exact List.mem_cons_of_mem _ (ih h)
      · rcases List.mem_cons.mp h with rfl | h
        · exact List.mem_cons_self
        · exact List.mem_cons_of_mem _ (ih h)

theorem head?_collapseStars (s : List Char) : (collapseStars s).head? = s.head? := by
  cases s with
  | nil => rfl
  | cons c r =>
      unfold collapseStars
      split
      · next h => rw [h.2, h.1]; rfl
      · rfl

theorem getLast?_collapseStars (s : List Char) : (collapseStars s).getLast? = s.getLast? := by
  induction s with
  | nil => rfl
  | cons c r ih =>
      unfold collapseStars
      split
      · next h =>
        rw [ih, List.getLast?_cons]
        cases hl : r.getLast? with
        | none =>
            rw [List.getLast?_eq_none_iff.mp hl] at h
            simp [collapseStars] at h
        | some d => rfl
      · rw [List.getLast?_cons, List.getLast?_cons, ih]

theorem collapseStars_append {l : List Char} (h : '*' ∉ l) (s : List Char) :
    collapseStars (l ++ s) = l ++ collapseStars s := by
  induction l with
  | nil => rfl
  | cons c l ih =>
      simp only [List.mem_cons, not_or] at h
      rw [List.cons_append, collapseStars_cons_of_ne (Ne.symm h.1), ih h.2]
      rfl

theorem collapseStars_of_not_mem {l : List Char} (h : '*' ∉ l) : collapseStars l = l := by
  have := collapseStars_append h []
  simpa [collapseStars] using this

theorem collapseStars_star_append {l : List Char} (h : '*' ∉ l) (hne : l ≠ []) (s : List Char) :
    collapseStars ('*' :: (l ++ s)) = '*' :: (l ++ collapseStars s) := by
  rw [collapseStars, collapseStars_append h, if_neg]
  rintro ⟨-, hhead⟩
  cases l with
  | nil => exact hne rfl
  | cons c l =>
      simp only [List.cons_append, List.head?_cons, Option.some.injEq] at hhead
      exact h (hhead ▸ List.mem_cons_self)

/-- Literals after a star each: those that are empty, the last one apart, leave no trace. -/
theorem collapseStars_flatMap {pieces : List (List Char)} {last : List Char}
    (h : ∀ piece ∈ pieces, '*' ∉ piece) (hlast : '*' ∉ last) :
    collapseStars ((pieces ++ [last]).flatMap fun piece => '*' :: piece) =
      '*' :: ((pieces.filter (· ≠ [])).flatMap (fun piece => piece ++ ['*']) ++ last) := by
  induction pieces with
  | nil =>
      by_cases hne : last = []
      · subst hne
        rfl
      · have := collapseStars_star_append hlast hne []
        simpa [collapseStars] using this
  | cons piece pieces ih =>
      have ih := ih fun q hq => h q (List.mem_cons_of_mem _ hq)
      rw [List.cons_append, List.flatMap_cons, List.cons_append]
      by_cases hne : piece = []
      · subst hne
        rw [List.nil_append, collapseStars, ih, if_pos ⟨rfl, rfl⟩]
        simp
      · rw [collapseStars_star_append (h piece List.mem_cons_self) hne, ih]
        simp [hne]

/-! ### Replacing the runs of a text -/

/-- The second text is the first one with a single star in place of every longest run of stars. -/
inductive Collapses : List Char → List Char → Prop
  | nil : Collapses [] []
  | char {c : Char} {s t : List Char} : c ≠ '*' → Collapses s t → Collapses (c :: s) (c :: t)
  | run {s t : List Char} (n : Nat) : s.head? ≠ some '*' → Collapses s t →
      Collapses (List.replicate (n + 1) '*' ++ s) ('*' :: t)

theorem collapseStars_replicate_append {s : List Char} (h : s.head? ≠ some '*') (n : Nat) :
    collapseStars (List.replicate (n + 1) '*' ++ s) = '*' :: collapseStars s := by
  induction n with
  | zero =>
      have hhead : ¬ (collapseStars s).head? = some '*' := by
        rw [head?_collapseStars]
        exact h
      exact if_neg fun h' => hhead h'.2
  | succ n ih =>
      rw [List.replicate_succ, List.cons_append, collapseStars, ih]
      exact if_pos ⟨rfl, rfl⟩

/-- A star in front of a text with stars in front makes their run longer. -/
theorem Collapses.star_cons {s t : List Char} (h : Collapses s t) (hs : s.head? = some '*') :
    Collapses ('*' :: s) t := by
  cases h with
  | nil => cases hs
  | char hc _ => exact absurd (Option.some.inj hs) hc
  | run n hend h => exact .run (n + 1) hend h

theorem collapses_collapseStars (s : List Char) : Collapses s (collapseStars s) := by
  induction s with
  | nil => exact .nil
  | cons c r ih =>
      by_cases hc : c = '*'
      · subst hc
        by_cases hr : r.head? = some '*'
        · have hhead : (collapseStars r).head? = some '*' := by
            rw [head?_collapseStars]
            exact hr
          rw [collapseStars, if_pos ⟨rfl, hhead⟩]
          exact ih.star_cons hr
        · rw [← List.singleton_append, ← List.replicate_one, collapseStars_replicate_append hr 0]
          exact .run 0 hr ih
      · rw [collapseStars_cons_of_ne hc]
        exact .char hc ih

theorem collapses_iff {s t : List Char} : Collapses s t ↔ collapseStars s = t := by
  constructor
  · intro h
    induction h with
    | nil => rfl
    | char hc _ ih => rw [collapseStars_cons_of_ne hc, ih]
    | run n hend _ ih => rw [collapseStars_replicate_append hend, ih]
  · rintro rfl
    exact collapses_collapseStars s

namespace Body

theorem literals_append {l : List Char} (h : '*' ∉ l) (s : List Char) :
    literals (l ++ s) = (l ++ (literals s).1, (literals s).2) := by
  induction l with
  | nil => rfl
  | cons c l ih =>
      simp only [List.mem_cons, not_or] at h
      simp [literals, Ne.symm h.1, ih h.2]

theorem literals_append_star {l : List Char} (h : '*' ∉ l) (s : List Char) :
    literals (l ++ '*' :: s) = (l, (literals s).1 :: (literals s).2) := by
  rw [literals_append h]
  simp [literals]

theorem literals_of_not_mem {l : List Char} (h : '*' ∉ l) : literals l = (l, []) := by
  have := literals_append h []
  simpa [literals] using this

/-! ### The text of a compiled body -/

theorem ofText_of_literals {s first last : List Char} {pieces : List (List Char)}
    (h : literals s = (first, pieces ++ [last])) :
    ofText s = starred first (pieces.filter (· ≠ [])) last := by
  unfold ofText
  split
  · next _ h' => simp [h] at h'
  · next _ piece rest h' =>
    rw [h, Prod.mk.injEq] at h'
    obtain ⟨rfl, h'⟩ := h'
    simp only [← h', List.dropLast_concat, List.getLast_concat]

/-- Compiling a pattern text replaces every run of stars by one. -/
theorem text_ofText (s : List Char) : (ofText s).text = collapseStars s := by
  have hs := literals_spec s
  obtain ⟨hfirst, hpieces⟩ := star_not_mem_literals s
  obtain ⟨first, pieces, hl⟩ : ∃ first pieces, literals s = (first, pieces) := ⟨_, _, rfl⟩
  rw [hl] at hs hfirst hpieces
  rcases List.eq_nil_or_concat pieces with rfl | ⟨pieces, last, rfl⟩
  · rw [hs, List.flatMap_nil, List.append_nil, collapseStars_of_not_mem hfirst]
    rw [ofText, literals_of_not_mem hfirst]
    rfl
  · have hlast : '*' ∉ last := hpieces last (by simp)
    have hmiddle : ∀ piece ∈ pieces, '*' ∉ piece := fun q hq => hpieces q (by simp [hq])
    rw [List.concat_eq_append] at hl hs
    rw [ofText_of_literals hl, hs, collapseStars_append hfirst,
      collapseStars_flatMap hmiddle hlast]
    rfl

/-! ### Compiling the text of a body -/

theorem literals_flatMap_append {middle : List (List Char)} {last : List Char}
    (h : ∀ piece ∈ middle, piece ≠ [] ∧ '*' ∉ piece) (hlast : '*' ∉ last) :
    (literals (middle.flatMap (fun piece => piece ++ ['*']) ++ last)).1 ::
      (literals (middle.flatMap (fun piece => piece ++ ['*']) ++ last)).2 = middle ++ [last] := by
  induction middle with
  | nil => simp [literals_of_not_mem hlast]
  | cons piece middle ih =>
      have ih := ih fun q hq => h q (List.mem_cons_of_mem _ hq)
      have hpiece := (h piece List.mem_cons_self).2
      rw [List.flatMap_cons, List.append_assoc, List.append_assoc, List.singleton_append,
        literals_append_star hpiece, ih]
      rfl

theorem ofText_text {b : Body} (h : b.WellFormed) : ofText b.text = b := by
  cases b with
  | exact literal => simp [ofText, text, literals_of_not_mem h]
  | starred first middle last =>
      obtain ⟨hfirst, hmiddle, hlast⟩ := h
      have hl := literals_append_star hfirst (middle.flatMap (fun piece => piece ++ ['*']) ++ last)
      rw [literals_flatMap_append hmiddle hlast] at hl
      have hkept : middle.filter (· ≠ []) = middle :=
        List.filter_eq_self.mpr fun piece hp => by simp [(hmiddle piece hp).1]
      rw [text, ofText_of_literals hl, hkept]

end Body

namespace Pattern

theorem unmark_chars (p : Pattern) : unmark p.chars = (p.caseSensitive, p.body.text) := by
  unfold chars
  split
  · next h => rw [unmark_caseMarker_append, h]
  · next h =>
    have hcase : p.caseSensitive = false := by simpa using h
    rcases unmark_eq p.body.text with ⟨rest, _, hu⟩ | ⟨_, hu⟩
    · have := p.unmarked hcase
      simp [hu] at this
    · rw [hu, hcase]

theorem ofChars_chars (p : Pattern) : ofChars p.chars = p := by
  have hb := Body.ofText_text p.wellFormed
  cases p
  simp only [ofChars, unmark_chars, mk.injEq, true_and]
  exact hb

theorem ofText_text (p : Pattern) : ofText p.text = p := by
  simp [ofText, text, ofChars_chars]

theorem text_inj {p q : Pattern} (h : p.text = q.text) : p = q := by
  rw [← ofText_text p, h, ofText_text]

/-- The canonical text of a pattern: the marker holds no star and stays as it is. -/
theorem chars_ofChars (s : List Char) : (ofChars s).chars = collapseStars s := by
  rcases unmark_eq s with ⟨rest, rfl, hu⟩ | ⟨_, hu⟩
  · have hmarker : '*' ∉ caseMarker := by decide
    rw [collapseStars_append hmarker]
    simp [chars, ofChars, hu, Body.text_ofText]
  · simp [chars, ofChars, hu, Body.text_ofText]

theorem toList_text_ofText (s : String) : (ofText s).text.toList = collapseStars s.toList := by
  rw [text, String.toList_ofList, ofText, chars_ofChars]

/-- **The canonical text of a pattern is its pattern text with single stars in place of runs.**  It
is a pattern text of the same pattern, and different patterns have different ones. -/
theorem canonical_text_identifies_pattern (s t : String) :
    (∀ u : String, Collapses s.toList u.toList ↔ (ofText s).text = u) ∧
      ofText (ofText s).text = ofText s ∧
      (ofText s = ofText t ↔ (ofText s).text = (ofText t).text) := by
  refine ⟨fun u => ?_, ofText_text _, congrArg text, text_inj⟩
  rw [collapses_iff, ← toList_text_ofText, String.toList_inj]

/-- A marked pattern keeps the second marker and the blank, which are part of its body. -/
example : (ofText "(?-i)(?-i) a***").text = "(?-i)(?-i) a*" := by decide

end Pattern

end AgentOptions
