import AgentOptions.Pattern.Matching
import AgentOptions.Proofs.PatternText

/-! # The language of a pattern

`Derives alike body text` is the declarative reading of a pattern text: a star stands for any run
of characters, every other character for one that is `alike`.  It knows neither literals nor
places.  `Describes` adds the marker, and with it the choice of the comparison.

The scan of `Pattern/Matching.lean` accepts exactly the described texts
(`accepts_iff_describes`).  It never goes back, and need not: what a star derives, it derives with
any characters put in front (`Derives.star_of_suffix`), and the leftmost place of a literal leaves
at least what any other place leaves (`dropLiteral_suffix`). -/

namespace AgentOptions

/-- The body derives the text, where `alike d c` says that `d` may stand for the character `c`. -/
inductive Derives (alike : Char → Char → Prop) : List Char → List Char → Prop
  | nil : Derives alike [] []
  | star {body text : List Char} (run : List Char) :
      Derives alike body text → Derives alike ('*' :: body) (run ++ text)
  | char {c d : Char} {body text : List Char} :
      c ≠ '*' → alike d c → Derives alike body text → Derives alike (c :: body) (d :: text)

/-- The pattern text describes the text: after a marker letter by letter, and without one up to
lower-case forms. -/
def Describes (pattern text : List Char) : Prop :=
  (∃ body, pattern = caseMarker ++ body ∧ Derives (fun d c => d = c) body text) ∨
    (¬ caseMarker <+: pattern ∧
      Derives (fun d c => d = c ∨ Text.lowerCase d = Text.lowerCase c) pattern text)

namespace Derives

variable {alike : Char → Char → Prop} {body text : List Char}

theorem nil_iff : Derives alike [] text ↔ text = [] := by
  constructor
  · intro h
    cases h
    rfl
  · rintro rfl
    exact .nil

theorem star_iff :
    Derives alike ('*' :: body) text ↔ ∃ rest, rest <:+ text ∧ Derives alike body rest := by
  constructor
  · intro h
    cases h with
    | star run h => exact ⟨_, List.suffix_append _ _, h⟩
    | char hc _ _ => exact absurd rfl hc
  · rintro ⟨rest, ⟨run, rfl⟩, h⟩
    exact .star run h

theorem char_iff {c : Char} (hc : c ≠ '*') :
    Derives alike (c :: body) text ↔
      ∃ d rest, text = d :: rest ∧ alike d c ∧ Derives alike body rest := by
  constructor
  · intro h
    cases h with
    | star run h => exact absurd rfl hc
    | char _ ha h => exact ⟨_, _, rfl, ha, h⟩
  · rintro ⟨d, rest, rfl, ha, h⟩
    exact .char hc ha h

/-- What a star derives, it derives with any characters in front: its run grows by them. -/
theorem star_of_suffix {rest : List Char} (h : Derives alike ('*' :: body) rest)
    (hs : rest <:+ text) : Derives alike ('*' :: body) text := by
  obtain ⟨last, hl, h⟩ := star_iff.mp h
  exact star_iff.mpr ⟨last, hl.trans hs, h⟩

theorem star_star_iff :
    Derives alike ('*' :: '*' :: body) text ↔ Derives alike ('*' :: body) text := by
  rw [star_iff]
  constructor
  · rintro ⟨rest, hs, h⟩
    exact h.star_of_suffix hs
  · intro h
    exact ⟨text, List.suffix_refl _, h⟩

theorem cons_congr {body' : List Char}
    (h : ∀ text, Derives alike body text ↔ Derives alike body' text)
    (c : Char) (text : List Char) :
    Derives alike (c :: body) text ↔ Derives alike (c :: body') text := by
  by_cases hc : c = '*'
  · subst hc
    simp only [star_iff, h]
  · simp only [char_iff hc, h]

theorem collapseStars_iff (body text : List Char) :
    Derives alike (collapseStars body) text ↔ Derives alike body text := by
  induction body generalizing text with
  | nil => rfl
  | cons c r ih =>
      rw [← cons_congr ih c text, collapseStars]
      split
      · next h =>
        obtain ⟨rfl, hr⟩ := h
        cases hc : collapseStars r with
        | nil => simp [hc] at hr
        | cons d u =>
            rw [hc, List.head?_cons, Option.some.injEq] at hr
            rw [hr, star_star_iff]
      · rfl

end Derives

namespace Body

variable (same : Char → Char → Bool)

/-! ### What the scan leaves of a text -/

theorem dropLiteral_eq_drop {literal text rest : List Char}
    (h : dropLiteral same literal text = some rest) :
    literal.length ≤ text.length ∧ rest = text.drop literal.length := by
  induction literal generalizing text with
  | nil => simpa [dropLiteral, eq_comm] using h
  | cons p literal ih =>
      cases text with
      | nil => simp [dropLiteral] at h
      | cons c text =>
          rw [dropLiteral] at h
          split at h
          · simpa using ih h
          · cases h

/-- A literal further right leaves no more of the text. -/
theorem dropLiteral_suffix {literal text late rest rest' : List Char} (hs : late <:+ text)
    (h : dropLiteral same literal text = some rest)
    (h' : dropLiteral same literal late = some rest') : rest' <:+ rest := by
  obtain ⟨-, rfl⟩ := dropLiteral_eq_drop same h
  obtain ⟨hle, rfl⟩ := dropLiteral_eq_drop same h'
  have h1 : late.drop literal.length <:+ text := (List.drop_suffix _ _).trans hs
  have h2 : text.drop literal.length <:+ text := List.drop_suffix _ _
  have h3 := hs.length_le
  refine List.suffix_of_suffix_length_le h1 h2 ?_
  simp only [List.length_drop]
  omega

/-! ### The scan and the derivations -/

/-- The comparison of the scan as a relation. -/
def Alike (d c : Char) : Prop := same d c = true

theorem derives_append_iff {literal : List Char} (hl : '*' ∉ literal) (body text : List Char) :
    Derives (Alike same) (literal ++ body) text ↔
      ∃ rest, dropLiteral same literal text = some rest ∧ Derives (Alike same) body rest := by
  induction literal generalizing text with
  | nil => simp [dropLiteral]
  | cons p literal ih =>
      simp only [List.mem_cons, not_or] at hl
      rw [List.cons_append, Derives.char_iff (Ne.symm hl.1)]
      constructor
      · rintro ⟨d, rest, rfl, ha, h⟩
        have hs : same d p = true := ha
        rw [dropLiteral, if_pos hs]
        exact (ih hl.2 rest).mp h
      · rintro ⟨rest, hd, h⟩
        cases text with
        | nil => simp [dropLiteral] at hd
        | cons c text =>
            rw [dropLiteral] at hd
            split at hd
            · next ha => exact ⟨c, text, rfl, ha, (ih hl.2 text).mpr ⟨rest, hd, h⟩⟩
            · cases hd

theorem derives_literal_iff {literal : List Char} (hl : '*' ∉ literal) (text : List Char) :
    Derives (Alike same) literal text ↔ dropLiteral same literal text = some [] := by
  have := derives_append_iff same hl [] text
  simpa [Derives.nil_iff] using this

/-- **The leftmost place of a literal between stars loses no derivation.** -/
theorem derives_star_append_star_iff {literal : List Char} (hl : '*' ∉ literal)
    (body text : List Char) :
    Derives (Alike same) ('*' :: (literal ++ '*' :: body)) text ↔
      ∃ rest, skipPast same literal text = some rest ∧
        Derives (Alike same) ('*' :: body) rest := by
  rw [Derives.star_iff]
  simp only [derives_append_iff same hl]
  induction text with
  | nil => simp [skipPast]
  | cons c text ih =>
      rw [skipPast]
      cases hd : dropLiteral same literal (c :: text) with
      | none =>
          rw [← ih]
          constructor
          · rintro ⟨late, hs, rest, hl, h⟩
            rcases List.suffix_cons_iff.mp hs with rfl | hs
            · rw [hd] at hl
              cases hl
            · exact ⟨late, hs, rest, hl, h⟩
          · rintro ⟨late, hs, h⟩
            exact ⟨late, hs.trans (List.suffix_cons _ _), h⟩
      | some rest =>
          constructor
          · rintro ⟨late, hs, rest', hl, h⟩
            exact ⟨rest, rfl, h.star_of_suffix (dropLiteral_suffix same hs hd hl)⟩
          · rintro ⟨rest', he, h⟩
            obtain rfl := Option.some.inj he
            exact ⟨_, List.suffix_refl _, _, hd, h⟩

theorem derives_star_literal_iff {last : List Char} (hl : '*' ∉ last) (text : List Char) :
    Derives (Alike same) ('*' :: last) text ↔ endsWith same last text = true := by
  simp only [Derives.star_iff, derives_literal_iff same hl, endsWith, Bool.and_eq_true,
    decide_eq_true_eq, beq_iff_eq]
  constructor
  · rintro ⟨rest, hs, h⟩
    obtain ⟨hle, hnil⟩ := dropLiteral_eq_drop same h
    have hlen : rest.length = last.length := by
      have := congrArg List.length hnil
      simp only [List.length_nil, List.length_drop] at this
      omega
    rw [List.suffix_iff_eq_drop.mp hs, hlen] at h
    exact ⟨hlen ▸ hs.length_le, h⟩
  · rintro ⟨hle, h⟩
    exact ⟨_, List.drop_suffix _ _, h⟩

/-- The scan of the literals between stars and of the last one, by induction on the former. -/
theorem derives_star_middle_iff {middle : List (List Char)} {last : List Char}
    (hm : ∀ piece ∈ middle, '*' ∉ piece) (hl : '*' ∉ last) (text : List Char) :
    Derives (Alike same) ('*' :: (middle.flatMap (fun piece => piece ++ ['*']) ++ last)) text ↔
      ∃ rest, skipAll same middle text = some rest ∧ endsWith same last rest = true := by
  induction middle generalizing text with
  | nil => simp [skipAll, derives_star_literal_iff same hl]
  | cons piece middle ih =>
      have ih := ih fun q hq => hm q (List.mem_cons_of_mem _ hq)
      rw [List.flatMap_cons, List.append_assoc, List.append_assoc, List.singleton_append,
        derives_star_append_star_iff same (hm piece List.mem_cons_self)]
      simp only [ih, skipAll, List.foldlM_cons]
      cases skipPast same piece text with
      | none => simp
      | some rest => simp

theorem accepts_iff_derives {b : Body} (hb : b.WellFormed) (text : List Char) :
    b.accepts same text = true ↔ Derives (Alike same) b.text text := by
  cases b with
  | exact literal => simp [accepts, Body.text, derives_literal_iff same hb]
  | starred first middle last =>
      obtain ⟨hfirst, hmiddle, hlast⟩ := hb
      have hm : ∀ piece ∈ middle, '*' ∉ piece := fun q hq => (hmiddle q hq).2
      simp only [Body.text, derives_append_iff same hfirst, derives_star_middle_iff same hm hlast]
      rw [accepts]
      cases dropLiteral same first text with
      | none => simp
      | some rest =>
          cases hs : skipAll same middle rest with
          | none => simp [hs]
          | some rest => simp [hs]

end Body

namespace Pattern

theorem same_of_caseSensitive {p : Pattern} (h : p.caseSensitive = true) (d c : Char) :
    p.same d c = true ↔ d = c := by
  simp [same, h]

theorem same_of_not_caseSensitive {p : Pattern} (h : p.caseSensitive = false) (d c : Char) :
    p.same d c = true ↔ d = c ∨ Text.lowerCase d = Text.lowerCase c := by
  simp [same, h]

theorem accepts_iff_body_derives (p : Pattern) (text : String) :
    p.accepts text = true ↔ Derives (Body.Alike p.same) p.body.text text.toList :=
  Body.accepts_iff_derives p.same p.wellFormed text.toList

theorem accepts_iff_derives (pattern text : String) :
    (ofText pattern).accepts text = true ↔
      Derives (Body.Alike (ofText pattern).same) (unmark pattern.toList).2 text.toList := by
  rw [accepts_iff_body_derives, ofText, ofChars, Body.text_ofText, Derives.collapseStars_iff]

/-- **A compiled pattern accepts exactly the texts that its pattern text describes.** -/
theorem accepts_iff_describes (pattern text : String) :
    (ofText pattern).accepts text = true ↔ Describes pattern.toList text.toList := by
  rw [accepts_iff_derives]
  rcases unmark_eq pattern.toList with ⟨body, hp, hu⟩ | ⟨hp, hu⟩
  · have hc : (ofText pattern).caseSensitive = true := congrArg Prod.fst hu
    have he : Body.Alike (ofText pattern).same = fun d c => d = c :=
      funext fun d => funext fun c => propext (same_of_caseSensitive hc d c)
    rw [hu, he]
    constructor
    · intro h
      exact .inl ⟨body, hp, h⟩
    · rintro (⟨body', hp', h⟩ | ⟨hn, _⟩)
      · rw [hp] at hp'
        exact List.append_cancel_left hp' ▸ h
      · exact absurd (hp ▸ List.prefix_append _ _) hn
  · have hc : (ofText pattern).caseSensitive = false := congrArg Prod.fst hu
    have he : Body.Alike (ofText pattern).same =
        fun d c => d = c ∨ Text.lowerCase d = Text.lowerCase c :=
      funext fun d => funext fun c => propext (same_of_not_caseSensitive hc d c)
    rw [hu, he]
    constructor
    · intro h
      exact .inr ⟨hp, h⟩
    · rintro (⟨body, hp', _⟩ | ⟨_, h⟩)
      · exact absurd (hp' ▸ List.prefix_append _ _) hp
      · exact h

end Pattern

end AgentOptions
