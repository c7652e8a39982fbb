import AgentOptions.Text.LowerCase

/-! # Wildcard patterns

A pattern is a text in which `*` stands for any run of characters; a leading marker `(?-i)` makes
it distinguish capital and small letters.  Every text is a pattern.

A compiled pattern (`Pattern`) keeps what lies between the stars: one literal if there is no star
(`Body.exact`), else a first literal, the non-empty literals between stars, and a last literal
(`Body.starred`).  Runs of stars leave no trace in it.

* `Body.literals_spec`: a body text is its first literal and, after a star each, the others;
* `wellFormed_ofText`: compiled literals hold no star, and those between stars are not empty;
* `unmark_ofText`: an unmarked text has an unmarked canonical text. -/

namespace AgentOptions

/-- What a pattern says about the text, the marker aside. -/
inductive Body where
  /-- No star: the text is this literal. -/
  | exact (literal : List Char)
  /-- Stars around and between literals: the text starts with `first`, ends with `last`, and
  holds the literals `middle` in order between them. -/
  | starred (first : List Char) (middle : List (List Char)) (last : List Char)
  deriving DecidableEq

namespace Body

/-- The pattern text of the body: its literals with one star between two of them. -/
def text : Body → List Char
  | exact literal => literal
  | starred first middle last =>
    first ++ '*' :: (middle.flatMap (fun piece => piece ++ ['*']) ++ last)

/-- No literal holds a star, and those between stars are not empty. -/
def WellFormed : Body → Prop
  | exact literal => '*' ∉ literal
  | starred first middle last =>
    '*' ∉ first ∧ (∀ piece ∈ middle, piece ≠ [] ∧ '*' ∉ piece) ∧ '*' ∉ last

/-- The literals of a pattern text: the one before its first star, and those after each star. -/
def literals : List Char → List Char × List (List Char)
  | [] => ([], [])
  | c :: r =>
    let rest := literals r
    if c = '*' then ([], rest.1 :: rest.2) else (c :: rest.1, rest.2)

/-- The body that a pattern text describes: runs of stars count as one. -/
def ofText (s : List Char) : Body :=
  match literals s with
  | (first, []) => exact first
  | (first, piece :: pieces) =>
    starred first ((piece :: pieces).dropLast.filter (· ≠ [])) ((piece :: pieces).getLast (by simp))

theorem literals_spec (s : List Char) :
    s = (literals s).1 ++ (literals s).2.flatMap (fun piece => '*' :: piece) := by
  induction s with
  | nil => rfl
  | cons c r ih =>
    by_cases h : c = '*'
    · subst h
      simpa [literals] using ih
    · simpa [literals, h] using ih

theorem star_not_mem_literals (s : List Char) :
    '*' ∉ (literals s).1 ∧ ∀ piece ∈ (literals s).2, '*' ∉ piece := by
  induction s with
  | nil => simp [literals]
  | cons c r ih =>
    by_cases h : c = '*'
    · simpa [literals, h] using ih
    · simpa [literals, h, Ne.symm h] using ih

theorem wellFormed_ofText (s : List Char) : (ofText s).WellFormed := by
  obtain ⟨h₁, h₂⟩ := star_not_mem_literals s
  unfold ofText
  split
  · next first h =>
    rw [h] at h₁
    exact h₁
  · next first piece pieces h =>
    rw [h] at h₁ h₂
    refine ⟨h₁, fun q hq => ?_, h₂ _ (List.getLast_mem _)⟩
    simp only [List.mem_filter, ne_eq, decide_not, Bool.not_eq_true', decide_eq_false_iff_not] at hq
    exact ⟨hq.2, h₂ q (List.dropLast_subset _ hq.1)⟩

/-- A body text and its canonical text share the first literal; a star or nothing follows. -/
theorem exists_text_ofText (s : List Char) :
    ∃ first t u, s = first ++ t ∧ (ofText s).text = first ++ u ∧ '*' ∉ first ∧
      (u = [] ∨ u.head? = some '*') := by
  have hs := literals_spec s
  have hn := (star_not_mem_literals s).1
  unfold ofText
  split
  · next first h =>
    rw [h] at hs hn
    exact ⟨first, [], [], by simpa using hs, by simp [text], hn, .inl rfl⟩
  · next first piece pieces h =>
    rw [h] at hs hn
    exact ⟨first, _, _, hs, rfl, hn, .inr rfl⟩

end Body

/-- The marker that makes a pattern case-sensitive. -/
def caseMarker : List Char := ['(', '?', '-', 'i', ')']

/-- Takes one marker off the start of a text; the flag tells whether there was one. -/
def unmark : List Char → Bool × List Char
  | '(' :: '?' :: '-' :: 'i' :: ')' :: rest => (true, rest)
  | s => (false, s)

theorem unmark_caseMarker_append (s : List Char) : unmark (caseMarker ++ s) = (true, s) := rfl

theorem unmark_eq (s : List Char) :
    (∃ rest, s = caseMarker ++ rest ∧ unmark s = (true, rest)) ∨
      (¬ caseMarker <+: s ∧ unmark s = (false, s)) := by
  unfold unmark
  split
  · next rest => exact .inl ⟨rest, rfl, rfl⟩
  · next h =>
    refine .inr ⟨?_, rfl⟩
    rintro ⟨rest, rfl⟩
    exact h rest rfl

theorem unmark_fst_iff {s : List Char} : (unmark s).1 = true ↔ caseMarker <+: s := by
  rcases unmark_eq s with ⟨rest, rfl, h⟩ | ⟨hn, h⟩
  · simp [h]
  · simp [h, hn]

/-- What starts `first ++ u` without a star starts `first`, if a star or nothing follows. -/
theorem isPrefix_of_append_star {m first u : List Char} (hm : '*' ∉ m)
    (hu : u = [] ∨ u.head? = some '*') (h : m <+: first ++ u) : m <+: first := by
  induction m generalizing first with
  | nil => exact List.nil_prefix
  | cons c r ih =>
    cases first with
    | nil =>
      rcases hu with rfl | hu
      · simp at h
      · cases u with
        | nil => simp at hu
        | cons d v =>
          simp only [List.head?_cons, Option.some.injEq] at hu
          simp only [List.nil_append, List.cons_prefix_cons] at h
          simp [h.1, hu] at hm
    | cons d f =>
      simp only [List.cons_append, List.cons_prefix_cons] at h ⊢
      exact ⟨h.1, ih (fun hr => hm (List.mem_cons_of_mem _ hr)) h.2⟩

theorem unmark_ofText {s : List Char} (h : (unmark s).1 = false) :
    (unmark (Body.ofText s).text).1 = false := by
  obtain ⟨first, t, u, hs, hu, _, hhead⟩ := Body.exists_text_ofText s
  rw [← Bool.not_eq_true, unmark_fst_iff] at h ⊢
  intro hp
  rw [hu] at hp
  exact h (hs ▸ (isPrefix_of_append_star (by decide) hhead hp).trans (List.prefix_append _ _))

/-- A compiled pattern.  An unmarked one does not spell the marker in its body. -/
structure Pattern where
  caseSensitive : Bool
  body : Body
  wellFormed : body.WellFormed
  unmarked : caseSensitive = false → (unmark body.text).1 = false
  deriving DecidableEq

namespace Pattern

/-- Compiles a pattern text; every text is one. -/
def ofChars (s : List Char) : Pattern where
  caseSensitive := (unmark s).1
  body := Body.ofText (unmark s).2
  wellFormed := Body.wellFormed_ofText _
  unmarked h := by
    rcases unmark_eq s with ⟨rest, _, hu⟩ | ⟨_, hu⟩
    · simp [hu] at h
    · exact unmark_ofText (by simp [hu])

/-- `ofChars` on strings. -/
def ofText (s : String) : Pattern := ofChars s.toList

/-- The canonical text: the marker if there is one, and the body with single stars. -/
def chars (p : Pattern) : List Char :=
  if p.caseSensitive then caseMarker ++ p.body.text else p.body.text

/-- `chars` as a string. -/
def text (p : Pattern) : String := String.ofList p.chars

end Pattern

end AgentOptions
