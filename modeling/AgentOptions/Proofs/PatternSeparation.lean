import AgentOptions.Proofs.PatternLanguage
import Mathlib.Data.List.Chain
import Mathlib.Data.List.Forall2

/-! # Patterns that accept the same texts

Compiled patterns are a normal form of what they accept: two of them that treat letter case alike
accept the same texts exactly if their bodies agree position by position, star facing star and
letter facing a letter that is alike (`Pattern.same_language_iff_faces`).

What a body derives gives its letters and the places of its stars away.  The shortest texts that it
derives are those alike to its letters (`derives_of_letters`, `letters_of_derives`).  A text with
one character more, unlike both of its neighbours, is derived exactly if a star stands at the place
of that character (`derives_inserted_iff`).  Where no two stars are adjacent, there is nothing else
to a body (`forall₂_faces_of_starAfter`).

Of the comparison of characters this takes that it is an equivalence and that three characters are
unlike one another (`derives_congr_iff_faces`): whatever two neighbours a place has, one of the
three is unlike both (`Unlike.exists_apart`). -/

namespace AgentOptions

/-- The characters of a body text that stand for one character each. -/
def letters (body : List Char) : List Char := body.filter (· ≠ '*')

/-- A star of the body text has so many letters before it. -/
inductive StarAfter : List Char → Nat → Prop
  | here {body : List Char} : StarAfter ('*' :: body) 0
  | star {body : List Char} {k : Nat} : StarAfter body k → StarAfter ('*' :: body) k
  | letter {c : Char} {body : List Char} {k : Nat} :
      c ≠ '*' → StarAfter body k → StarAfter (c :: body) (k + 1)

/-- What two body texts have at one position: two stars, or two letters that are alike. -/
inductive Faces (alike : Char → Char → Prop) : Char → Char → Prop
  | star : Faces alike '*' '*'
  | letter {c d : Char} : c ≠ '*' → d ≠ '*' → alike c d → Faces alike c d

/-- No two stars of the text are adjacent. -/
def NoRuns (s : List Char) : Prop := s.IsChain fun c d => ¬ (c = '*' ∧ d = '*')

/-- Between two texts, the character is unlike both of its neighbours. -/
structure Apart (alike : Char → Char → Prop) (before : List Char) (x : Char)
    (after : List Char) : Prop where
  left : ∀ c ∈ before.getLast?, ¬ alike x c
  right : ∀ c ∈ after.head?, ¬ alike x c

/-- Three characters are unlike one another. -/
def Unlike (alike : Char → Char → Prop) : Prop :=
  ∃ a b c, ¬ alike a b ∧ ¬ alike a c ∧ ¬ alike b c

/-! ### Letters and stars of a body text -/

theorem letters_star_cons (body : List Char) : letters ('*' :: body) = letters body := rfl

theorem letters_cons_of_ne {c : Char} (h : c ≠ '*') (body : List Char) :
    letters (c :: body) = c :: letters body := by
  simp [letters, h]

namespace StarAfter

variable {body : List Char} {c : Char} {k : Nat}

theorem le_length (h : StarAfter body k) : k ≤ (letters body).length := by
  induction h with
  | here => exact Nat.zero_le _
  | star _ ih => exact ih
  | letter hc _ ih =>
      rw [letters_cons_of_ne hc, List.length_cons]
      omega

theorem not_nil : ¬ StarAfter [] k := by
  intro h
  cases h

theorem star_cons_iff : StarAfter ('*' :: body) k ↔ k = 0 ∨ StarAfter body k := by
  constructor
  · intro h
    cases h with
    | here => exact .inl rfl
    | star h => exact .inr h
    | letter hc _ => exact absurd rfl hc
  · rintro (rfl | h)
    · exact .here
    · exact .star h

theorem not_zero_of_ne (hc : c ≠ '*') : ¬ StarAfter (c :: body) 0 := by
  intro h
  cases h with
  | here => exact hc rfl
  | star _ => exact hc rfl

theorem letter_cons_iff (hc : c ≠ '*') : StarAfter (c :: body) (k + 1) ↔ StarAfter body k := by
  constructor
  · intro h
    cases h with
    | star _ => exact absurd rfl hc
    | letter _ h => exact h
  · exact .letter hc

theorem head?_of_zero (h : StarAfter body 0) : body.head? = some '*' := by
  cases h with
  | here => rfl
  | star _ => rfl

end StarAfter

theorem noRuns_collapseStars (s : List Char) : NoRuns (collapseStars s) := by
  induction s with
  | nil => exact List.isChain_nil
  | cons c r ih =>
      unfold collapseStars
      split
      · exact ih
      · next h =>
        apply List.isChain_cons.mpr
        refine ⟨?_, ih⟩
        rintro d hd ⟨hc, rfl⟩
        exact h ⟨hc, hd⟩

theorem Body.noRuns_text {b : Body} (h : b.WellFormed) : NoRuns b.text := by
  have htext : b.text = collapseStars b.text := by rw [← text_ofText, ofText_text h]
  rw [htext]
  exact noRuns_collapseStars _

/-! ### The derived texts of least length -/

section texts

variable {alike : Char → Char → Prop} {body other text before after : List Char} {x : Char}

theorem length_letters_le (h : Derives alike body text) :
    (letters body).length ≤ text.length := by
  induction h with
  | nil => exact Nat.le_refl _
  | star run _ ih =>
      rw [letters_star_cons, List.length_append]
      omega
  | char hc _ _ ih =>
      rw [letters_cons_of_ne hc, List.length_cons, List.length_cons]
      omega

/-- A body derives the texts that are alike to its letters: its stars may stand for nothing. -/
theorem derives_of_letters (h : List.Forall₂ alike text (letters body)) :
    Derives alike body text := by
  induction body generalizing text with
  | nil =>
      rw [List.forall₂_nil_right_iff.mp h]
      exact .nil
  | cons c r ih =>
      by_cases hc : c = '*'
      · subst hc
        exact .star [] (ih h)
      · rw [letters_cons_of_ne hc] at h
        obtain ⟨d, rest, hd, hrest, rfl⟩ := List.forall₂_cons_right_iff.mp h
        exact .char hc hd (ih hrest)

theorem letters_of_derives (h : Derives alike body text)
    (hlen : text.length ≤ (letters body).length) : List.Forall₂ alike text (letters body) := by
  induction h with
  | nil => exact .nil
  | star run h ih =>
      rw [letters_star_cons, List.length_append] at hlen
      have hrest := length_letters_le h
      have hrun : run = [] := List.eq_nil_of_length_eq_zero (by omega)
      rw [hrun]
      exact ih (by omega)
  | char hc ha _ ih =>
      rw [letters_cons_of_ne hc] at hlen ⊢
      exact .cons ha (ih (Nat.le_of_succ_le_succ hlen))

/-! ### The derived texts with one character more -/

/-- A star stands for the character put in at its place, whatever character it is. -/
theorem derives_inserted_of_starAfter {k : Nat} (hstar : StarAfter body k)
    (hk : before.length = k) (h : List.Forall₂ alike (before ++ after) (letters body)) (x : Char) :
    Derives alike body (before ++ x :: after) := by
  induction hstar generalizing before with
  | here =>
      rw [List.eq_nil_of_length_eq_zero hk] at h ⊢
      exact .star [x] (derives_of_letters h)
  | star _ ih => exact .star [] (ih hk h)
  | letter hc _ ih =>
      cases before with
      | nil => cases hk
      | cons d before =>
          rw [letters_cons_of_ne hc, List.cons_append, List.forall₂_cons] at h
          exact .char hc h.1 (ih (Nat.succ.inj hk) h.2)

theorem Apart.of_cons {c : Char} (h : Apart alike (c :: before) x after) :
    Apart alike before x after := by
  refine ⟨fun d hd => h.left d ?_, h.right⟩
  rw [List.getLast?_cons, Option.mem_def.mp hd]
  rfl

/-- A text that is moved by one character meets, where it ends, the character put in. -/
theorem alike_of_moved {c : Char}
    (h : List.Forall₂ alike (before ++ x :: after) (c :: (before ++ after))) :
    ∃ d ∈ (c :: before).getLast?, alike x d := by
  induction before generalizing c with
  | nil => exact ⟨c, rfl, (List.forall₂_cons.mp h).1⟩
  | cons e before ih =>
      obtain ⟨d, hd, hx⟩ := ih (List.forall₂_cons.mp h).2
      exact ⟨d, by rwa [List.getLast?_cons_cons], hx⟩

theorem forall₂_equivalence (heq : Equivalence alike) : Equivalence (List.Forall₂ alike) where
  refl s := List.forall₂_same.mpr fun c _ => heq.refl c
  symm h := by
    induction h with
    | nil => exact .nil
    | cons hc _ ih => exact .cons (heq.symm hc) ih
  trans {s t u} hst htu := by
    induction hst generalizing u with
    | nil => exact htu
    | cons hc _ ih =>
        obtain ⟨d, rest, hd, hrest, rfl⟩ := List.forall₂_cons_left_iff.mp htu
        exact .cons (heq.trans hc hd) (ih hrest)

/-- A star in front gains nothing by standing for the first character: there are as many letters
left as characters, and before the character put in they are moved by one. -/
theorem not_derives_of_suffix (heq : Equivalence alike) {c : Char} {rest : List Char}
    (hx : Apart alike (c :: before) x after)
    (hl : List.Forall₂ alike (c :: (before ++ after)) (letters body))
    (hs : rest <:+ before ++ x :: after) : ¬ Derives alike body rest := by
  intro h
  have hlen : (letters body).length = (before ++ x :: after).length := by
    rw [← hl.length_eq]
    simp only [List.length_cons, List.length_append]
    omega
  have hle := length_letters_le h
  have hwhole : rest = before ++ x :: after := hs.eq_of_length_le (by omega)
  have hshort : List.Forall₂ alike (before ++ x :: after) (letters body) :=
    letters_of_derives (hwhole ▸ h) hlen.ge
  have hmoved : List.Forall₂ alike (before ++ x :: after) (c :: (before ++ after)) :=
    (forall₂_equivalence heq).trans hshort ((forall₂_equivalence heq).symm hl)
  obtain ⟨d, hd, hxd⟩ := alike_of_moved hmoved
  exact hx.left d hd hxd

theorem starAfter_of_derives_inserted (heq : Equivalence alike) (hx : Apart alike before x after)
    (hl : List.Forall₂ alike (before ++ after) (letters body))
    (h : Derives alike body (before ++ x :: after)) : StarAfter body before.length := by
  induction body generalizing before with
  | nil =>
      rw [Derives.nil_iff] at h
      simp at h
  | cons c r ih =>
      by_cases hc : c = '*'
      · subst hc
        cases before with
        | nil => exact .here
        | cons e before =>
            rw [List.cons_append] at h hl
            obtain ⟨rest, hs, hrest⟩ := Derives.star_iff.mp h
            rcases List.suffix_cons_iff.mp hs with rfl | hs
            · exact .star (ih hx hl hrest)
            · exact absurd hrest (not_derives_of_suffix heq hx hl hs)
      · obtain ⟨d, rest, he, hd, hrest⟩ := (Derives.char_iff hc).mp h
        rw [letters_cons_of_ne hc] at hl
        cases before with
        | nil =>
            obtain ⟨rfl, rfl⟩ := List.cons.inj he
            obtain ⟨e, tail, hec, -, rfl⟩ := List.forall₂_cons_right_iff.mp hl
            exact absurd (heq.trans hd (heq.symm hec)) (hx.right e rfl)
        | cons e before =>
            obtain ⟨rfl, rfl⟩ := List.cons.inj he
            exact .letter hc (ih hx.of_cons (List.forall₂_cons.mp hl).2 hrest)

/-- Whether a text with one character more than the letters is derived, tells whether a star stands
where that character is, if it is unlike both of its neighbours. -/
theorem derives_inserted_iff (heq : Equivalence alike) (hx : Apart alike before x after)
    (hl : List.Forall₂ alike (before ++ after) (letters body)) :
    Derives alike body (before ++ x :: after) ↔ StarAfter body before.length := by
  constructor
  · exact starAfter_of_derives_inserted heq hx hl
  · intro h
    exact derives_inserted_of_starAfter h rfl hl x

/-! ### What the derived texts tell about the body -/

theorem Unlike.exists_unlike (heq : Equivalence alike) (hun : Unlike alike) (c d : Char) :
    ∃ x, ¬ alike x c ∧ ¬ alike x d := by
  obtain ⟨x, y, z, hxy, hxz, hyz⟩ := hun
  have hshare : ∀ {x y e : Char}, ¬ alike x y → alike x e → ¬ alike y e :=
    fun hxy hx hy => hxy (heq.trans hx (heq.symm hy))
  by_cases hxc : alike x c
  · by_cases hyd : alike y d
    · exact ⟨z, hshare hxz hxc, hshare hyz hyd⟩
    · exact ⟨y, hshare hxy hxc, hyd⟩
  · by_cases hxd : alike x d
    · by_cases hyc : alike y c
      · exact ⟨z, hshare hyz hyc, hshare hxz hxd⟩
      · exact ⟨y, hyc, hshare hxy hxd⟩
    · exact ⟨x, hxc, hxd⟩

theorem Unlike.exists_apart (heq : Equivalence alike) (hun : Unlike alike)
    (before after : List Char) : ∃ x, Apart alike before x after := by
  obtain ⟨x, hleft, hright⟩ :=
    hun.exists_unlike heq (before.getLast?.getD '*') (after.head?.getD '*')
  refine ⟨x, fun c hc => ?_, fun c hc => ?_⟩
  · rwa [Option.mem_def.mp hc] at hleft
  · rwa [Option.mem_def.mp hc] at hright

section language

variable (hlang : ∀ text, Derives alike body text ↔ Derives alike other text)

include hlang

theorem letters_of_language (heq : Equivalence alike) :
    List.Forall₂ alike (letters body) (letters other) := by
  have hrefl := (forall₂_equivalence heq).refl
  have hbody : Derives alike other (letters body) := (hlang _).mp (derives_of_letters (hrefl _))
  have hother : Derives alike body (letters other) := (hlang _).mpr (derives_of_letters (hrefl _))
  exact letters_of_derives hbody (length_letters_le hother)

theorem starAfter_of_language (heq : Equivalence alike) (hun : Unlike alike) {k : Nat}
    (h : StarAfter body k) : StarAfter other k := by
  have hlength : ((letters body).take k).length = k :=
    List.length_take_of_le h.le_length
  have hletters : List.Forall₂ alike ((letters body).take k ++ (letters body).drop k)
      (letters body) := by
    rw [List.take_append_drop]
    exact (forall₂_equivalence heq).refl _
  have hother : List.Forall₂ alike ((letters body).take k ++ (letters body).drop k)
      (letters other) :=
    (forall₂_equivalence heq).trans hletters (letters_of_language hlang heq)
  obtain ⟨x, hx⟩ := hun.exists_apart heq ((letters body).take k) ((letters body).drop k)
  rw [← hlength] at h ⊢
  apply (derives_inserted_iff heq hx hother).mp
  apply (hlang _).mp
  exact (derives_inserted_iff heq hx hletters).mpr h

end language

/-- The letters of a body without a run, and the places of its stars, are all there is to it. -/
theorem forall₂_faces_of_starAfter (hb : NoRuns body) (ho : NoRuns other)
    (hl : List.Forall₂ alike (letters body) (letters other))
    (hs : ∀ k, StarAfter body k ↔ StarAfter other k) :
    List.Forall₂ (Faces alike) body other := by
  induction body generalizing other with
  | nil =>
      cases other with
      | nil => exact .nil
      | cons d u =>
          by_cases hd : d = '*'
          · subst hd
            exact absurd ((hs 0).mpr .here) StarAfter.not_nil
          · rw [letters_cons_of_ne hd] at hl
            cases hl
  | cons c r ih =>
      obtain ⟨hc, hr⟩ := List.isChain_cons.mp hb
      by_cases hstar : c = '*'
      · subst hstar
        cases other with
        | nil => exact absurd ((hs 0).mp .here) StarAfter.not_nil
        | cons d u =>
            obtain ⟨hd, hu⟩ := List.isChain_cons.mp ho
            obtain rfl : d = '*' := Option.some.inj ((hs 0).mp .here).head?_of_zero
            refine .cons .star (ih hr hu hl fun k => ?_)
            have hbody : ¬ StarAfter r 0 := fun h => hc '*' h.head?_of_zero ⟨rfl, rfl⟩
            have hother : ¬ StarAfter u 0 := fun h => hd '*' h.head?_of_zero ⟨rfl, rfl⟩
            have hk := hs k
            rw [StarAfter.star_cons_iff, StarAfter.star_cons_iff] at hk
            cases k with
            | zero => exact iff_of_false hbody hother
            | succ k => simpa using hk
      · rw [letters_cons_of_ne hstar] at hl
        cases other with
        | nil => cases hl
        | cons d u =>
            by_cases hd : d = '*'
            · subst hd
              exact absurd ((hs 0).mpr .here) (StarAfter.not_zero_of_ne hstar)
            · rw [letters_cons_of_ne hd, List.forall₂_cons] at hl
              obtain ⟨-, hu⟩ := List.isChain_cons.mp ho
              refine .cons (.letter hstar hd hl.1) (ih hr hu hl.2 fun k => ?_)
              have hk := hs (k + 1)
              rwa [StarAfter.letter_cons_iff hstar, StarAfter.letter_cons_iff hd] at hk

theorem derives_of_faces (heq : Equivalence alike) (h : List.Forall₂ (Faces alike) body other)
    (hd : Derives alike body text) : Derives alike other text := by
  induction hd generalizing other with
  | nil =>
      rw [List.forall₂_nil_left_iff.mp h]
      exact .nil
  | star run _ ih =>
      obtain ⟨d, rest, hface, hrest, rfl⟩ := List.forall₂_cons_left_iff.mp h
      cases hface with
      | star => exact .star run (ih hrest)
      | letter hc _ _ => exact absurd rfl hc
  | char hc ha _ ih =>
      obtain ⟨d, rest, hface, hrest, rfl⟩ := List.forall₂_cons_left_iff.mp h
      cases hface with
      | star => exact absurd rfl hc
      | letter _ hd hcd => exact .char hd (heq.trans ha hcd) (ih hrest)

theorem Faces.symm (heq : Equivalence alike) {c d : Char} (h : Faces alike c d) :
    Faces alike d c := by
  cases h with
  | star => exact .star
  | letter hc hd ha => exact .letter hd hc (heq.symm ha)

/-- **Bodies without a run derive the same texts exactly if they agree position by position.** -/
theorem derives_congr_iff_faces (heq : Equivalence alike) (hun : Unlike alike)
    (hb : NoRuns body) (ho : NoRuns other) :
    (∀ text, Derives alike body text ↔ Derives alike other text) ↔
      List.Forall₂ (Faces alike) body other := by
  constructor
  · intro hlang
    apply forall₂_faces_of_starAfter hb ho (letters_of_language hlang heq)
    intro k
    exact ⟨starAfter_of_language hlang heq hun,
      starAfter_of_language (fun text => (hlang text).symm) heq hun⟩
  · intro h text
    have hsymm : List.Forall₂ (Faces alike) other body :=
      (h.imp fun _ _ hcd => hcd.symm heq).flip
    exact ⟨derives_of_faces heq h, derives_of_faces heq hsymm⟩

end texts

/-! ### Compiled patterns -/

namespace Pattern

variable {p q : Pattern}

theorem alike_equivalence (p : Pattern) : Equivalence (Body.Alike p.same) := by
  cases hp : p.caseSensitive with
  | true =>
      have he : Body.Alike p.same = fun d c => d = c :=
        funext fun d => funext fun c => propext (same_of_caseSensitive hp d c)
      rw [he]
      exact eq_equivalence
  | false =>
      have he : Body.Alike p.same = fun d c => Text.lowerCase d = Text.lowerCase c := by
        funext d c
        apply propext
        rw [Body.Alike, same_of_not_caseSensitive hp]
        exact ⟨fun h => h.elim (congrArg Text.lowerCase) id, .inr⟩
      rw [he]
      exact eq_equivalence.comap Text.lowerCase

theorem unlike_alike (p : Pattern) : Unlike (Body.Alike p.same) := by
  have hab : (Text.lowerCase 'a' == Text.lowerCase 'b') = false := by decide
  have hac : (Text.lowerCase 'a' == Text.lowerCase 'c') = false := by decide
  have hbc : (Text.lowerCase 'b' == Text.lowerCase 'c') = false := by decide
  refine ⟨'a', 'b', 'c', ?_⟩
  simp [Body.Alike, same, hab, hac, hbc]

theorem same_congr (h : p.caseSensitive = q.caseSensitive) : p.same = q.same := by
  funext c d
  rw [same, same, h]

theorem accepts_congr_iff_derives (h : p.caseSensitive = q.caseSensitive) :
    (∀ text, p.accepts text = q.accepts text) ↔
      ∀ text, Derives (Body.Alike p.same) p.body.text text ↔
        Derives (Body.Alike p.same) q.body.text text := by
  have hsame := same_congr h
  constructor
  · intro hacc text
    have hiff := Bool.eq_iff_iff.mp (hacc (String.ofList text))
    rwa [accepts_iff_body_derives, accepts_iff_body_derives, String.toList_ofList, ← hsame] at hiff
  · intro hlang text
    rw [Bool.eq_iff_iff, accepts_iff_body_derives, accepts_iff_body_derives, ← hsame]
    exact hlang text.toList

theorem eq_of_forall₂_faces (hp : p.caseSensitive = true) (hq : q.caseSensitive = true)
    (h : List.Forall₂ (Faces (Body.Alike p.same)) p.body.text q.body.text) : p = q := by
  have hequal : List.Forall₂ (· = ·) p.body.text q.body.text := by
    refine h.imp fun c d hface => ?_
    cases hface with
    | star => rfl
    | letter _ _ ha => exact (same_of_caseSensitive hp c d).mp ha
  rw [List.forall₂_eq_eq_eq] at hequal
  rw [← ofChars_chars p, ← ofChars_chars q, chars, chars, hp, hq, hequal]

/-- **Patterns that treat letter case alike accept the same texts exactly if their canonical bodies
agree position by position**, star facing star and letter facing a letter that is the same to them.
Those that tell letter case apart accept the same texts only if they are equal. -/
theorem same_language_iff_faces (p q : Pattern) (h : p.caseSensitive = q.caseSensitive) :
    ((∀ text, p.accepts text = q.accepts text) ↔
        List.Forall₂ (Faces (Body.Alike p.same)) p.body.text q.body.text) ∧
      (p.caseSensitive = true → (p = q ↔ ∀ text, p.accepts text = q.accepts text)) := by
  have hfaces : (∀ text, p.accepts text = q.accepts text) ↔
      List.Forall₂ (Faces (Body.Alike p.same)) p.body.text q.body.text := by
    rw [accepts_congr_iff_derives h]
    exact derives_congr_iff_faces p.alike_equivalence p.unlike_alike
      (Body.noRuns_text p.wellFormed) (Body.noRuns_text q.wellFormed)
  refine ⟨hfaces, fun hp => ⟨?_, fun hacc => ?_⟩⟩
  · rintro rfl _
    rfl
  · exact eq_of_forall₂_faces hp (h ▸ hp) (hfaces.mp hacc)

/-- Two marked patterns, one of which has a star too many, accept the same texts. -/
theorem same_language_iff_faces_repeated_star :
    (ofText "(?-i)Set**Key*").caseSensitive = (ofText "(?-i)Set*Key*").caseSensitive ∧
      List.Forall₂ (Faces (Body.Alike (ofText "(?-i)Set**Key*").same))
        (ofText "(?-i)Set**Key*").body.text (ofText "(?-i)Set*Key*").body.text ∧
      (ofText "(?-i)Set**Key*" = ofText "(?-i)Set*Key*" ↔
        ∀ text, (ofText "(?-i)Set**Key*").accepts text =
          (ofText "(?-i)Set*Key*").accepts text) := by
  have hcase : (ofText "(?-i)Set**Key*").caseSensitive = (ofText "(?-i)Set*Key*").caseSensitive :=
    by decide
  have hequal : ofText "(?-i)Set**Key*" = ofText "(?-i)Set*Key*" := by decide
  obtain ⟨hfaces, hsensitive⟩ := same_language_iff_faces _ _ hcase
  have hiff := hsensitive (by decide)
  exact ⟨hcase, hfaces.mp (hiff.mp hequal), hiff⟩

end Pattern

end AgentOptions
