import AgentOptions.Proofs.PatternSeparation

/-! # Letter case in patterns and texts

Patterns compare characters by their lower-case forms.  Nothing that is said here about a pattern
depends on what these forms are, as long as no other character has that of the star: the comparison
takes any table of them (`Pattern.acceptsBy`), and patterns use `Text.lowerCase`
(`Pattern.accepts_eq_acceptsBy`).

Characters with one form can be exchanged, in the pattern (`faces_of_foldsAlike`) and in the text
(`Derives.of_forall₂`), without a change of what is accepted.  A marker in front of a pattern makes
it compare by equality, and what is derived by equality is derived by any comparison that is
reflexive (`Derives.mono`).

Main statement: `Pattern.case_folding_is_invisible`. -/

namespace AgentOptions

/-- The table does not tell the characters apart. -/
def FoldsAlike (fold : Char → List Char) (d c : Char) : Prop := d = c ∨ fold d = fold c

instance (fold : Char → List Char) (d c : Char) : Decidable (FoldsAlike fold d c) :=
  inferInstanceAs (Decidable (d = c ∨ fold d = fold c))

namespace Derives

variable {alike : Char → Char → Prop} {body text : List Char}

theorem mono {coarser : Char → Char → Prop} (hle : ∀ d c, alike d c → coarser d c)
    (h : Derives alike body text) : Derives coarser body text := by
  induction h with
  | nil => exact .nil
  | star run _ ih => exact .star run ih
  | char hc ha _ ih => exact .char hc (hle _ _ ha) ih

theorem of_forall₂ (heq : Equivalence alike) {other : List Char}
    (h : List.Forall₂ alike other text) (hd : Derives alike body text) :
    Derives alike body other := by
  induction hd generalizing other with
  | nil =>
      rw [List.forall₂_nil_right_iff.mp h]
      exact .nil
  | @star body text run _ ih =>
      rw [← List.take_append_drop run.length other]
      exact .star _ (ih (List.forall₂_drop_append other run text h))
  | char hc ha _ ih =>
      obtain ⟨d, rest, hd, hrest, rfl⟩ := List.forall₂_cons_right_iff.mp h
      exact .char hc (heq.trans hd ha) (ih hrest)

end Derives

section fold

variable (fold : Char → List Char)

theorem foldsAlike_equivalence : Equivalence (FoldsAlike fold) := by
  have he : FoldsAlike fold = fun d c => fold d = fold c := by
    funext d c
    apply propext
    exact ⟨fun h => h.elim (congrArg fold) id, .inr⟩
  rw [he]
  exact eq_equivalence.comap fold

variable {fold} (hstar : ∀ c, FoldsAlike fold c '*' → c = '*')

include hstar

/-- If the star is alike to itself only, patterns that are alike have their stars at one place. -/
theorem faces_of_foldsAlike {c d : Char} (h : FoldsAlike fold c d) :
    Faces (FoldsAlike fold) c d := by
  by_cases hc : c = '*'
  · subst hc
    obtain rfl := hstar d ((foldsAlike_equivalence fold).symm h)
    exact .star
  · refine .letter hc ?_ h
    rintro rfl
    exact hc (hstar c h)

/-- Body and text can be exchanged for others that are alike. -/
theorem derives_of_foldsAlike {body other text otherText : List Char}
    (hbody : List.Forall₂ (FoldsAlike fold) body other)
    (htext : List.Forall₂ (FoldsAlike fold) otherText text)
    (h : Derives (FoldsAlike fold) body text) : Derives (FoldsAlike fold) other otherText := by
  have hfaces : List.Forall₂ (Faces (FoldsAlike fold)) body other :=
    hbody.imp fun _ _ hcd => faces_of_foldsAlike hstar hcd
  have heq := foldsAlike_equivalence fold
  exact (derives_of_faces heq hfaces h).of_forall₂ heq htext

theorem derives_congr_foldsAlike {body other text otherText : List Char}
    (hbody : List.Forall₂ (FoldsAlike fold) body other)
    (htext : List.Forall₂ (FoldsAlike fold) text otherText) :
    Derives (FoldsAlike fold) body text ↔ Derives (FoldsAlike fold) other otherText := by
  have heq := forall₂_equivalence (foldsAlike_equivalence fold)
  constructor
  · exact derives_of_foldsAlike hstar hbody (heq.symm htext)
  · exact derives_of_foldsAlike hstar (heq.symm hbody) htext

end fold

namespace Pattern

/-- Two characters that the pattern does not tell apart by the table. -/
def sameBy (fold : Char → List Char) (p : Pattern) (a b : Char) : Bool :=
  a == b || (!p.caseSensitive && fold a == fold b)

/-- The pattern describes the whole text, by the table. -/
def acceptsBy (fold : Char → List Char) (p : Pattern) (text : String) : Bool :=
  p.body.accepts (p.sameBy fold) text.toList

theorem accepts_eq_acceptsBy (p : Pattern) (text : String) :
    p.accepts text = p.acceptsBy Text.lowerCase text := rfl

variable (fold : Char → List Char)

theorem acceptsBy_iff_derives (pattern text : String) :
    (ofText pattern).acceptsBy fold text = true ↔
      Derives (Body.Alike ((ofText pattern).sameBy fold)) (unmark pattern.toList).2
        text.toList := by
  rw [acceptsBy, Body.accepts_iff_derives _ (ofText pattern).wellFormed, ofText, ofChars,
    Body.text_ofText, Derives.collapseStars_iff]

theorem acceptsBy_unmarked_iff {pattern : String} (h : ¬ caseMarker <+: pattern.toList)
    (text : String) : (ofText pattern).acceptsBy fold text = true ↔
      Derives (FoldsAlike fold) pattern.toList text.toList := by
  have hu : unmark pattern.toList = (false, pattern.toList) := by
    rcases unmark_eq pattern.toList with ⟨rest, hp, -⟩ | ⟨-, hu⟩
    · exact absurd (hp ▸ List.prefix_append _ _) h
    · exact hu
  have hcase : (ofText pattern).caseSensitive = false := congrArg Prod.fst hu
  have he : Body.Alike ((ofText pattern).sameBy fold) = FoldsAlike fold := by
    funext d c
    simp [Body.Alike, sameBy, FoldsAlike, hcase]
  rw [acceptsBy_iff_derives, hu, he]

theorem acceptsBy_marked_iff (pattern text : String) :
    (ofText ("(?-i)" ++ pattern)).acceptsBy fold text = true ↔
      Derives (fun d c => d = c) pattern.toList text.toList := by
  have hu : unmark ("(?-i)" ++ pattern).toList = (true, pattern.toList) := by
    rw [String.toList_append]
    exact unmark_caseMarker_append _
  have hcase : (ofText ("(?-i)" ++ pattern)).caseSensitive = true := congrArg Prod.fst hu
  have he : Body.Alike ((ofText ("(?-i)" ++ pattern)).sameBy fold) = fun d c => d = c := by
    funext d c
    simp [Body.Alike, sameBy, hcase]
  rw [acceptsBy_iff_derives, hu, he]

/-- **Case folding is invisible, and the marker only narrows.**  By any table of lower-case forms
in which no other character has the form of the star, two unmarked patterns that are alike character
by character accept the same of two texts that are alike character by character; and what a pattern
accepts behind a marker, it accepts without the marker.  `Text.lowerCase` is such a table, and the
one by which patterns accept. -/
theorem case_folding_is_invisible :
    (∀ fold : Char → List Char, (∀ c, FoldsAlike fold c '*' → c = '*') →
      (∀ p q t u : String, ¬ caseMarker <+: p.toList → ¬ caseMarker <+: q.toList →
        List.Forall₂ (FoldsAlike fold) p.toList q.toList →
        List.Forall₂ (FoldsAlike fold) t.toList u.toList →
        (ofText p).acceptsBy fold t = (ofText q).acceptsBy fold u) ∧
      ∀ p t : String, ¬ caseMarker <+: p.toList →
        (ofText ("(?-i)" ++ p)).acceptsBy fold t = true → (ofText p).acceptsBy fold t = true) ∧
    (∀ c, FoldsAlike Text.lowerCase c '*' → c = '*') ∧
    ∀ (p : Pattern) (t : String), p.accepts t = p.acceptsBy Text.lowerCase t := by
  refine ⟨fun fold hstar => ⟨?_, ?_⟩, ?_, accepts_eq_acceptsBy⟩
  · intro p q t u hp hq hpattern htext
    rw [Bool.eq_iff_iff, acceptsBy_unmarked_iff fold hp, acceptsBy_unmarked_iff fold hq]
    exact derives_congr_foldsAlike hstar hpattern htext
  · intro p t hp h
    rw [acceptsBy_marked_iff] at h
    rw [acceptsBy_unmarked_iff fold hp]
    exact h.mono fun d c => .inl
  · rintro c (h | h)
    · exact h
    · exact Text.lowerCase_eq_star_iff.mp (h.trans (Text.lowerCase_eq_star_iff.mpr rfl))

/-- A kelvin sign stands for a letter, and a capital sharp s for a small one. -/
theorem case_folding_is_invisible_kelvin_sign :
    (¬ caseMarker <+: "(?-I)\u212A*\u1E9E".toList ∧ ¬ caseMarker <+: "(?-I)k*ß".toList) ∧
      List.Forall₂ (FoldsAlike Text.lowerCase) "(?-I)\u212A*\u1E9E".toList "(?-I)k*ß".toList ∧
      List.Forall₂ (FoldsAlike Text.lowerCase) "(?-i)Kloß".toList "(?-I)kLO\u1E9E".toList ∧
      (ofText "(?-I)\u212A*\u1E9E").accepts "(?-i)Kloß" =
        (ofText "(?-I)k*ß").accepts "(?-I)kLO\u1E9E" ∧
      (ofText ("(?-i)" ++ "(?-I)k*ß")).accepts "(?-I)kloß" = true ∧
      (ofText "(?-I)k*ß").accepts "(?-I)kloß" = true := by
  obtain ⟨htable, hstar, -⟩ := case_folding_is_invisible
  obtain ⟨hinvisible, hnarrows⟩ := htable Text.lowerCase hstar
  have hp : ¬ caseMarker <+: "(?-I)\u212A*\u1E9E".toList := by decide
  have hq : ¬ caseMarker <+: "(?-I)k*ß".toList := by decide
  have hpattern : List.Forall₂ (FoldsAlike Text.lowerCase) "(?-I)\u212A*\u1E9E".toList
      "(?-I)k*ß".toList := by
    decide +kernel
  have htext : List.Forall₂ (FoldsAlike Text.lowerCase) "(?-i)Kloß".toList
      "(?-I)kLO\u1E9E".toList := by
    decide +kernel
  have hmarked : (ofText ("(?-i)" ++ "(?-I)k*ß")).accepts "(?-I)kloß" = true := by decide +kernel
  exact ⟨⟨hp, hq⟩, hpattern, htext, hinvisible _ _ _ _ hp hq hpattern htext, hmarked,
    hnarrows _ _ hq hmarked⟩

end Pattern

end AgentOptions
