import AgentOptions.Proofs.DocumentNumbers
import AgentOptions.Proofs.NumberBounds

/-! # What the text of a document tells

The text of a document tells the document, but for atoms that are written alike (`Json.Alike`): a
number that is not finite cannot be told from null.  This holds of both written forms, which are one
and the same but for the blanks between the parts (`Json.Format`, `chars_unspaced`,
`chars_indented`).

Each part of a document can be told from what follows it: a string ends with its closing quote, for
what is escaped can be read again (`unescape_escape`, `quote_cancel`), an atom ends where a mark
of the document stands (`atoms_cancel`), and arrays and objects end with their brackets.  Main
statement: `chars_cancel`. -/

namespace AgentOptions.Json

/-! ### Strings -/

/-- The value of a hexadecimal digit. -/
def hexValue (c : Char) : Nat := if c.isDigit then c.toNat - '0'.toNat else c.toNat - 'a'.toNat + 10

theorem hexValue_hexDigit {n : Nat} (h : n < 16) : hexValue (hexDigit n) = n := by
  have hall : ∀ n < 16, hexValue (hexDigit n) = n := by decide
  exact hall n h

/-- The letters after a backslash, with the characters that they stand for. -/
def escapeLetters : List (Char × Char) :=
  [('"', '"'), ('\\', '\\'), ('b', Char.ofNat 0x08), ('t', Char.ofNat 0x09), ('n', Char.ofNat 0x0A),
    ('f', Char.ofNat 0x0C), ('r', Char.ofNat 0x0D)]

/-- Reads one character of a string. -/
def unescape : List Char → Option (Char × List Char)
  | '\\' :: 'u' :: '0' :: '0' :: high :: low :: rest =>
    some (Char.ofNat (16 * hexValue high + hexValue low), rest)
  | '\\' :: letter :: rest => (escapeLetters.lookup letter).map fun c => (c, rest)
  | c :: rest => some (c, rest)
  | [] => none

theorem eq_ofNat {c : Char} {n : Nat} (h : c.toNat = n) : c = Char.ofNat n := by
  rw [← h, Char.ofNat_toNat]

theorem unescape_escape (c : Char) (rest : List Char) :
    unescape (escape c ++ rest) = some (c, rest) := by
  unfold escape
  split
  · next h => rw [h]; rfl
  split
  · next h => rw [h]; rfl
  split
  · next h => rw [eq_ofNat h]; rfl
  split
  · next h => rw [eq_ofNat h]; rfl
  split
  · next h => rw [eq_ofNat h]; rfl
  split
  · next h => rw [eq_ofNat h]; rfl
  split
  · next h => rw [eq_ofNat h]; rfl
  split
  · next h =>
    have hhigh : hexValue (hexDigit (c.toNat / 16)) = c.toNat / 16 := hexValue_hexDigit (by omega)
    have hlow : hexValue (hexDigit (c.toNat % 16)) = c.toNat % 16 := hexValue_hexDigit (by omega)
    have hc : 16 * (c.toNat / 16) + c.toNat % 16 = c.toNat := by omega
    simp only [List.cons_append, List.nil_append, unescape, hhigh, hlow, hc, Char.ofNat_toNat]
  · next hbackslash _ _ _ _ _ _ =>
    simp only [List.cons_append, List.nil_append]
    unfold unescape
    split
    · next he => exact absurd (List.cons.inj he).1 hbackslash
    · next he => exact absurd (List.cons.inj he).1 hbackslash
    · next he =>
      obtain ⟨rfl, rfl⟩ := List.cons.inj he
      rfl
    · next he => cases he

theorem escape_append_ne (c : Char) (rest tail : List Char) : escape c ++ rest ≠ '"' :: tail := by
  intro h
  have hread := unescape_escape c rest
  have hc : unescape ('"' :: tail) = some ('"', tail) := rfl
  rw [h, hc] at hread
  cases hread
  cases h

/-- Escaped characters end with the first quote among them. -/
theorem escapes_cancel {s t r r' : List Char}
    (h : s.flatMap escape ++ '"' :: r = t.flatMap escape ++ '"' :: r') : s = t ∧ r = r' := by
  induction s generalizing t with
  | nil => cases t with
    | nil => exact ⟨rfl, (List.cons.inj h).2⟩
    | cons d t =>
        rw [List.flatMap_cons, List.append_assoc] at h
        exact absurd h.symm (escape_append_ne d _ _)
  | cons c s ih => cases t with
    | nil =>
        rw [List.flatMap_cons, List.append_assoc] at h
        exact absurd h (escape_append_ne c _ _)
    | cons d t =>
        rw [List.flatMap_cons, List.flatMap_cons, List.append_assoc, List.append_assoc] at h
        have hread := unescape_escape c (s.flatMap escape ++ '"' :: r)
        rw [h, unescape_escape] at hread
        obtain ⟨rfl, hrest⟩ := Prod.mk.inj (Option.some.inj hread)
        obtain ⟨rfl, hr⟩ := ih hrest.symm
        exact ⟨rfl, hr⟩

/-- A quoted string can be told from what follows it. -/
theorem quote_cancel {s t : String} {r r' : List Char} (h : quote s ++ r = quote t ++ r') :
    s = t ∧ r = r' := by
  simp only [quote, List.cons_append, List.append_assoc, List.nil_append, List.cons.injEq,
    true_and] at h
  obtain ⟨hchars, hr⟩ := escapes_cancel h
  exact ⟨String.toList_inj.mp hchars, hr⟩

/-! ### The two written forms as one -/

/-- What stands between the parts of a document: the start of a line at a depth, and what follows
a colon. -/
structure Format where
  line : Nat → List Char
  space : List Char

/-- Nothing stands there. -/
def unspaced : Format := ⟨fun _ => [], []⟩

/-- Every part starts a line, and a blank follows a colon. -/
def indented : Format := ⟨newLine, [' ']⟩

mutual

/-- The document in a format, its first line at the given depth. -/
def chars (f : Format) (depth : Nat) : Json → List Char
  | array [] => ['[', ']']
  | array (item :: items) =>
    '[' :: (f.line (depth + 1) ++ (chars f (depth + 1) item ++ itemChars f depth items))
  | object [] => ['{', '}']
  | object ((key, value) :: members) =>
    '{' :: (f.line (depth + 1) ++ (quote key ++ ':' :: (f.space ++
      (chars f (depth + 1) value ++ memberChars f depth members))))
  | null => "null".toList
  | bool b => if b then "true".toList else "false".toList
  | integer n => Integer.digits n
  | number x => numberText x
  | string s => quote s

/-- The further items of an array, and its end. -/
def itemChars (f : Format) (depth : Nat) : List Json → List Char
  | [] => f.line depth ++ [']']
  | item :: items =>
    ',' :: (f.line (depth + 1) ++ (chars f (depth + 1) item ++ itemChars f depth items))

/-- The further members of an object, and its end. -/
def memberChars (f : Format) (depth : Nat) : List (String × Json) → List Char
  | [] => f.line depth ++ ['}']
  | (key, value) :: members =>
    ',' :: (f.line (depth + 1) ++ (quote key ++ ':' :: (f.space ++
      (chars f (depth + 1) value ++ memberChars f depth members))))

end

mutual

theorem chars_unspaced (depth : Nat) : (j : Json) → chars unspaced depth j = compactChars j
  | array [] => by simp only [chars, compactChars]
  | array (item :: items) => by
      simp only [chars, compactChars, chars_unspaced _ item, itemChars_unspaced _ items]
      rfl
  | object [] => by simp only [chars, compactChars]
  | object ((key, value) :: members) => by
      simp only [chars, compactChars, chars_unspaced _ value, memberChars_unspaced _ members]
      rfl
  | null => by simp only [chars, compactChars]
  | bool b => by simp only [chars, compactChars]
  | integer n => by simp only [chars, compactChars]
  | number x => by simp only [chars, compactChars]
  | string s => by simp only [chars, compactChars]

theorem itemChars_unspaced (depth : Nat) :
    (items : List Json) → itemChars unspaced depth items = compactItems items
  | [] => by simp only [itemChars, compactItems]; rfl
  | item :: items => by
      simp only [itemChars, compactItems, chars_unspaced _ item, itemChars_unspaced _ items]
      rfl

theorem memberChars_unspaced (depth : Nat) : (members : List (String × Json)) →
    memberChars unspaced depth members = compactMembers members
  | [] => by simp only [memberChars, compactMembers]; rfl
  | (key, value) :: members => by
      simp only [memberChars, compactMembers, chars_unspaced _ value,
        memberChars_unspaced _ members]
      rfl

end

mutual

theorem chars_indented (depth : Nat) : (j : Json) → chars indented depth j = prettyChars depth j
  | array [] => by simp only [chars, prettyChars]
  | array (item :: items) => by
      simp only [chars, prettyChars, chars_indented _ item, itemChars_indented _ items,
        List.append_assoc]
      rfl
  | object [] => by simp only [chars, prettyChars]
  | object ((key, value) :: members) => by
      simp only [chars, prettyChars, chars_indented _ value, memberChars_indented _ members,
        List.append_assoc]
      rfl
  | null => by simp only [chars, prettyChars]
  | bool b => by simp only [chars, prettyChars]
  | integer n => by simp only [chars, prettyChars]
  | number x => by simp only [chars, prettyChars]
  | string s => by simp only [chars, prettyChars]

theorem itemChars_indented (depth : Nat) :
    (items : List Json) → itemChars indented depth items = prettyItems depth items
  | [] => by simp only [itemChars, prettyItems]; rfl
  | item :: items => by
      simp only [itemChars, prettyItems, chars_indented _ item, itemChars_indented _ items,
        List.append_assoc]
      rfl

theorem memberChars_indented (depth : Nat) : (members : List (String × Json)) →
    memberChars indented depth members = prettyMembers depth members
  | [] => by simp only [memberChars, prettyMembers]; rfl
  | (key, value) :: members => by
      simp only [memberChars, prettyMembers, chars_indented _ value,
        memberChars_indented _ members, List.append_assoc]
      rfl

end

/-! ### Documents that are written alike -/

/-- A document without parts that is no string. -/
def isAtom : Json → Bool
  | null | bool _ | integer _ | number _ => true
  | string _ | array _ | object _ => false

mutual

/-- The documents are the same but for atoms, which have the same text. -/
inductive Alike : Json → Json → Prop
  | atom {a b : Json} : a.isAtom → b.isAtom → a.compactChars = b.compactChars → Alike a b
  | string (s : String) : Alike (.string s) (.string s)
  | array {items others : List Json} : AlikeItems items others →
      Alike (.array items) (.array others)
  | object {members others : List (String × Json)} : AlikeMembers members others →
      Alike (.object members) (.object others)

/-- The documents at each place are alike. -/
inductive AlikeItems : List Json → List Json → Prop
  | nil : AlikeItems [] []
  | cons {a b : Json} {items others : List Json} : Alike a b → AlikeItems items others →
      AlikeItems (a :: items) (b :: others)

/-- The keys are the same, and the documents under each are alike. -/
inductive AlikeMembers : List (String × Json) → List (String × Json) → Prop
  | nil : AlikeMembers [] []
  | cons {key : String} {a b : Json} {members others : List (String × Json)} : Alike a b →
      AlikeMembers members others → AlikeMembers ((key, a) :: members) ((key, b) :: others)

end

/-! ### Where a part ends -/

/-- A character that stands between the parts of a document. -/
def IsGap (c : Char) : Prop := c = '\n' ∨ c = ' '

/-- A character that a part without quotes or brackets cannot contain. -/
def IsMark (c : Char) : Prop := c = ',' ∨ c = ']' ∨ c = '}' ∨ IsGap c

/-- What can follow a part of a document. -/
def Follows (rest : List Char) : Prop := ∀ c, rest.head? = some c → IsMark c

theorem follows_nil : Follows [] := fun _ h => by simp at h

theorem follows_cons {c : Char} (h : IsMark c) (rest : List Char) : Follows (c :: rest) :=
  fun _ hd => Option.some.inj hd ▸ h

/-- Nothing but gaps stands at the start of a line. -/
def Format.Lays (f : Format) : Prop := ∀ depth, ∀ c ∈ f.line depth, IsGap c

theorem unspaced_lays : unspaced.Lays := fun _ _ h => absurd h List.not_mem_nil

theorem indented_lays : indented.Lays := by
  intro depth c hc
  rcases List.mem_cons.mp hc with hc | hc
  · exact .inl hc
  · exact .inr (List.eq_of_mem_replicate hc)

theorem follows_append {gap : List Char} (h : ∀ c ∈ gap, IsGap c) {c : Char} (hc : IsMark c)
    (rest : List Char) : Follows (gap ++ c :: rest) := by
  cases gap with
  | nil => exact follows_cons hc rest
  | cons g gap => exact follows_cons (.inr (.inr (.inr (h g List.mem_cons_self)))) _

theorem eq_of_gap_append {gap : List Char} (h : ∀ c ∈ gap, IsGap c) {c d : Char}
    {rest tail : List Char} (hd : ¬ IsGap d) (he : gap ++ c :: rest = d :: tail) : c = d := by
  cases gap with
  | nil => exact (List.cons.inj he).1
  | cons g gap =>
      obtain ⟨rfl, -⟩ := List.cons.inj he
      exact absurd (h g List.mem_cons_self) hd

/-! ### Atoms -/

/-- A character of an atom. -/
def IsPlain (c : Char) : Prop := c.isAlpha = true ∨ Decimal.IsNumeral c

theorem isPlain_of_mem_atom {a : Json} (ha : a.isAtom) {c : Char} (hc : c ∈ a.compactChars) :
    IsPlain c := by
  have hnull : ∀ c ∈ "null".toList, c.isAlpha = true := List.all_eq_true.mp (by decide)
  have htrue : ∀ c ∈ "true".toList, c.isAlpha = true := List.all_eq_true.mp (by decide)
  have hfalse : ∀ c ∈ "false".toList, c.isAlpha = true := List.all_eq_true.mp (by decide)
  cases a with
  | null =>
      rw [compactChars] at hc
      exact .inl (hnull c hc)
  | bool b =>
      rw [compactChars] at hc
      split at hc
      · exact .inl (htrue c hc)
      · exact .inl (hfalse c hc)
  | integer n =>
      rw [compactChars] at hc
      exact .inr (Integer.isNumeral_of_mem_digits hc)
  | number x =>
      rw [compactChars] at hc
      by_cases hx : x.isFinite
      · exact .inr (isNumeral_of_mem_numberText hx hc)
      · rw [numberText, if_neg hx] at hc
        exact .inl (hnull c hc)
  | string s => cases ha
  | array items => cases ha
  | object members => cases ha

theorem chars_of_isAtom {a : Json} (ha : a.isAtom) (f : Format) (depth : Nat) :
    chars f depth a = a.compactChars := by
  cases a with
  | string s => cases ha
  | array items => cases ha
  | object members => cases ha
  | _ => simp only [chars, compactChars]

theorem IsPlain.not_isMark {c : Char} (h : IsPlain c) : ¬ IsMark c := by
  unfold IsMark IsGap
  rintro (rfl | rfl | rfl | rfl | rfl)
  all_goals
    unfold IsPlain Decimal.IsNumeral at h
    revert h
    decide

/-- Two texts without marks that are followed by marks, or by nothing, end at one place. -/
theorem plain_cancel {s t r r' : List Char} (hs : ∀ c ∈ s, IsPlain c) (ht : ∀ c ∈ t, IsPlain c)
    (hr : Follows r) (hr' : Follows r') (h : s ++ r = t ++ r') : s = t ∧ r = r' := by
  induction s generalizing t with
  | nil => cases t with
    | nil => exact ⟨rfl, h⟩
    | cons d t =>
        exact absurd (hr d (by rw [List.nil_append] at h; rw [h]; rfl))
          (ht d List.mem_cons_self).not_isMark
  | cons c s ih => cases t with
    | nil =>
        exact absurd (hr' c (by rw [List.nil_append] at h; rw [← h]; rfl))
          (hs c List.mem_cons_self).not_isMark
    | cons d t =>
        obtain ⟨rfl, htail⟩ := List.cons.inj h
        obtain ⟨rfl, hrest⟩ := ih (fun c hc => hs c (List.mem_cons_of_mem _ hc))
          (fun c hc => ht c (List.mem_cons_of_mem _ hc)) htail
        exact ⟨rfl, hrest⟩

theorem atom_ne_nil {a : Json} (ha : a.isAtom) : a.compactChars ≠ [] := by
  cases a with
  | null => simp [compactChars]
  | bool b => cases b <;> simp [compactChars]
  | integer n => simp [compactChars, Integer.digits, Nat.toDigits_ne_nil]
  | number x =>
      rw [compactChars, numberText]
      split
      · next hx =>
        cases x with
        | nan => cases hx
        | number negative rank =>
            intro hnil
            obtain ⟨d, hd, -⟩ :=
              Decimal.exists_scan_text_document (of_decide_eq_true hx) Decimal.ends_nil
            rw [hnil] at hd
            cases hd
      · simp
  | string s => cases ha
  | array items => cases ha
  | object members => cases ha

/-! ### The first character -/

/-- The character that a document starts with if it is no atom. -/
def opening : Json → Option Char
  | string _ => some '"'
  | array _ => some '['
  | object _ => some '{'
  | null | bool _ | integer _ | number _ => none

/-- The character if one that is no atom can start with it. -/
def opens (c : Char) : Option Char := if c = '"' ∨ c = '[' ∨ c = '{' then some c else none

theorem IsPlain.opens_eq_none {c : Char} (h : IsPlain c) : opens c = none := by
  refine if_neg ?_
  rintro (rfl | rfl | rfl)
  all_goals
    unfold IsPlain Decimal.IsNumeral at h
    revert h
    decide

theorem isAtom_of_opening_eq_none {a : Json} (h : a.opening = none) : a.isAtom := by
  cases a with
  | string s => cases h
  | array items => cases h
  | object members => cases h
  | _ => rfl

/-- The first character of a document tells what it is, and is no mark. -/
theorem exists_chars_cons (f : Format) (depth : Nat) (a : Json) :
    ∃ c rest, chars f depth a = c :: rest ∧ a.opening = opens c ∧ ¬ IsMark c := by
  have hmark : ¬ IsMark '"' ∧ ¬ IsMark '[' ∧ ¬ IsMark '{' := by
    unfold IsMark IsGap
    decide
  by_cases ha : a.isAtom
  · obtain ⟨c, rest, hcons⟩ := List.exists_cons_of_ne_nil (atom_ne_nil ha)
    have hc : IsPlain c := isPlain_of_mem_atom ha (hcons ▸ List.mem_cons_self)
    refine ⟨c, rest, (chars_of_isAtom ha f depth).trans hcons, ?_, hc.not_isMark⟩
    rw [hc.opens_eq_none]
    cases a with
    | string s => cases ha
    | array items => cases ha
    | object members => cases ha
    | _ => rfl
  · cases a with
    | string s => exact ⟨'"', _, by rw [chars, quote], rfl, hmark.1⟩
    | array items => cases items with
      | nil => exact ⟨'[', _, by rw [chars], rfl, hmark.2.1⟩
      | cons item items => exact ⟨'[', _, by rw [chars], rfl, hmark.2.1⟩
    | object members => cases members with
      | nil => exact ⟨'{', _, by rw [chars], rfl, hmark.2.2⟩
      | cons member members => exact ⟨'{', _, by rw [chars], rfl, hmark.2.2⟩
    | _ => exact absurd rfl ha

variable {f : Format} {depth : Nat} {a b : Json} {r r' : List Char}

theorem opening_eq (h : chars f depth a ++ r = chars f depth b ++ r') : a.opening = b.opening := by
  obtain ⟨c, rest, hc, hopen, -⟩ := exists_chars_cons f depth a
  obtain ⟨d, rest', hd, hopen', -⟩ := exists_chars_cons f depth b
  rw [hc, hd] at h
  obtain ⟨rfl, -⟩ := List.cons.inj h
  rw [hopen, hopen']

theorem atom_cancel (ha : a.isAtom) (hb : b.isAtom) (hr : Follows r) (hr' : Follows r')
    (h : chars f depth a ++ r = chars f depth b ++ r') : Alike a b ∧ r = r' := by
  rw [chars_of_isAtom ha, chars_of_isAtom hb] at h
  obtain ⟨htext, hrest⟩ := plain_cancel (fun c => isPlain_of_mem_atom ha)
    (fun c => isPlain_of_mem_atom hb) hr hr' h
  exact ⟨.atom ha hb htext, hrest⟩

theorem mark_ne_gap_append (hf : f.Lays) {mark c : Char} {tail rest : List Char}
    (hmark : IsMark mark) (hgap : ¬ IsGap mark) (hc : ¬ IsMark c) :
    mark :: tail ≠ f.line depth ++ c :: rest := by
  intro h
  rw [eq_of_gap_append (hf depth) hgap h.symm] at hc
  exact hc hmark

theorem mark_ne_gap_append_chars (hf : f.Lays) {mark : Char} {tail rest : List Char}
    (hmark : IsMark mark) (hgap : ¬ IsGap mark) (depth' : Nat) (a : Json) :
    mark :: tail ≠ f.line depth ++ (chars f depth' a ++ rest) := by
  obtain ⟨c, chars', hc, -, hnot⟩ := exists_chars_cons f depth' a
  rw [hc]
  exact mark_ne_gap_append hf hmark hgap hnot

theorem closing_not_isGap : ¬ IsGap ']' ∧ ¬ IsGap '}' ∧ ¬ IsGap ',' := by
  unfold IsGap
  decide

theorem follows_itemChars (hf : f.Lays) (depth : Nat) (items : List Json) (r : List Char) :
    Follows (itemChars f depth items ++ r) := by
  cases items with
  | nil =>
      rw [itemChars, List.append_assoc]
      exact follows_append (hf depth) (.inr (.inl rfl)) _
  | cons item items =>
      rw [itemChars]
      exact follows_cons (.inl rfl) _

theorem follows_memberChars (hf : f.Lays) (depth : Nat) (members : List (String × Json))
    (r : List Char) : Follows (memberChars f depth members ++ r) := by
  cases members with
  | nil =>
      rw [memberChars, List.append_assoc]
      exact follows_append (hf depth) (.inr (.inr (.inl rfl))) _
  | cons member members =>
      rw [memberChars]
      exact follows_cons (.inl rfl) _

/-! ### Documents -/

theorem itemChars_eq_of_array (hf : f.Lays) {items others : List Json}
    (h : chars f depth (array items) ++ r = chars f depth (array others) ++ r') :
    itemChars f depth items ++ r = itemChars f depth others ++ r' := by
  cases items with
  | nil => cases others with
    | nil =>
        simp only [chars, List.cons_append, List.nil_append, List.cons.injEq, true_and] at h
        rw [h]
    | cons b others =>
        simp only [chars, List.cons_append, List.append_assoc, List.nil_append, List.cons.injEq,
          true_and] at h
        exact absurd h (mark_ne_gap_append_chars hf (.inr (.inl rfl)) closing_not_isGap.1 _ b)
  | cons a items => cases others with
    | nil =>
        simp only [chars, List.cons_append, List.append_assoc, List.nil_append, List.cons.injEq,
          true_and] at h
        exact absurd h.symm
          (mark_ne_gap_append_chars hf (.inr (.inl rfl)) closing_not_isGap.1 _ a)
    | cons b others =>
        simp only [chars, List.cons_append, List.cons.injEq, true_and] at h
        simp only [itemChars, List.cons_append, h]

theorem memberChars_eq_of_object (hf : f.Lays) {members others : List (String × Json)}
    (h : chars f depth (object members) ++ r = chars f depth (object others) ++ r') :
    memberChars f depth members ++ r = memberChars f depth others ++ r' := by
  have hquote : ¬ IsMark '"' := by
    unfold IsMark IsGap
    decide
  have hmark : IsMark '}' := .inr (.inr (.inl rfl))
  cases members with
  | nil => cases others with
    | nil =>
        simp only [chars, List.cons_append, List.nil_append, List.cons.injEq, true_and] at h
        rw [h]
    | cons b others =>
        obtain ⟨key, b⟩ := b
        simp only [chars, quote, List.cons_append, List.append_assoc, List.nil_append,
          List.cons.injEq, true_and] at h
        exact absurd h (mark_ne_gap_append hf hmark closing_not_isGap.2.1 hquote)
  | cons a members => cases others with
    | nil =>
        obtain ⟨key, a⟩ := a
        simp only [chars, quote, List.cons_append, List.append_assoc, List.nil_append,
          List.cons.injEq, true_and] at h
        exact absurd h.symm (mark_ne_gap_append hf hmark closing_not_isGap.2.1 hquote)
    | cons b others =>
        obtain ⟨key, a⟩ := a
        obtain ⟨key', b⟩ := b
        simp only [chars, List.cons_append, List.cons.injEq, true_and] at h
        simp only [memberChars, List.cons_append, h]

mutual

/-- **A document can be told from what follows it, but for atoms that are written alike.** -/
theorem chars_cancel (hf : f.Lays) : (a b : Json) → ∀ {depth : Nat} {r r' : List Char},
    Follows r → Follows r' → chars f depth a ++ r = chars f depth b ++ r' → Alike a b ∧ r = r'
  | string s, b => fun _ _ h => by
      have hopen := opening_eq h
      cases b with
      | string t =>
          simp only [chars] at h
          obtain ⟨rfl, hrest⟩ := quote_cancel h
          exact ⟨.string s, hrest⟩
      | _ => cases hopen
  | array items, b => fun hr hr' h => by
      have hopen := opening_eq h
      cases b with
      | array others =>
          obtain ⟨halike, hrest⟩ := items_cancel hf items others hr hr' (itemChars_eq_of_array hf h)
          exact ⟨.array halike, hrest⟩
      | _ => cases hopen
  | object members, b => fun hr hr' h => by
      have hopen := opening_eq h
      cases b with
      | object others =>
          obtain ⟨halike, hrest⟩ :=
            members_cancel hf members others hr hr' (memberChars_eq_of_object hf h)
          exact ⟨.object halike, hrest⟩
      | _ => cases hopen
  | null, _ => fun hr hr' h =>
      atom_cancel rfl (isAtom_of_opening_eq_none (opening_eq h).symm) hr hr' h
  | bool _, _ => fun hr hr' h =>
      atom_cancel rfl (isAtom_of_opening_eq_none (opening_eq h).symm) hr hr' h
  | integer _, _ => fun hr hr' h =>
      atom_cancel rfl (isAtom_of_opening_eq_none (opening_eq h).symm) hr hr' h
  | number _, _ => fun hr hr' h =>
      atom_cancel rfl (isAtom_of_opening_eq_none (opening_eq h).symm) hr hr' h

theorem items_cancel (hf : f.Lays) : (items others : List Json) →
    ∀ {depth : Nat} {r r' : List Char}, Follows r → Follows r' →
      itemChars f depth items ++ r = itemChars f depth others ++ r' →
      AlikeItems items others ∧ r = r'
  | [], [] => fun _ _ h => by
      simp only [itemChars, List.append_assoc, List.append_cancel_left_eq, List.cons_append,
        List.nil_append, List.cons.injEq, true_and] at h
      exact ⟨.nil, h⟩
  | [], _ :: _ => fun _ _ h => by
      simp only [itemChars, List.append_assoc, List.cons_append, List.nil_append] at h
      exact absurd (eq_of_gap_append (hf _) closing_not_isGap.2.2 h) (by decide)
  | _ :: _, [] => fun _ _ h => by
      simp only [itemChars, List.append_assoc, List.cons_append, List.nil_append] at h
      exact absurd (eq_of_gap_append (hf _) closing_not_isGap.2.2 h.symm) (by decide)
  | a :: items, b :: others => fun hr hr' h => by
      simp only [itemChars, List.cons_append, List.append_assoc, List.append_cancel_left_eq,
        List.cons.injEq, true_and] at h
      obtain ⟨halike, hrest⟩ := chars_cancel hf a b (follows_itemChars hf _ items _)
        (follows_itemChars hf _ others _) h
      obtain ⟨hitems, hr⟩ := items_cancel hf items others hr hr' hrest
      exact ⟨.cons halike hitems, hr⟩

theorem members_cancel (hf : f.Lays) : (members others : List (String × Json)) →
    ∀ {depth : Nat} {r r' : List Char}, Follows r → Follows r' →
      memberChars f depth members ++ r = memberChars f depth others ++ r' →
      AlikeMembers members others ∧ r = r'
  | [], [] => fun _ _ h => by
      simp only [memberChars, List.append_assoc, List.append_cancel_left_eq, List.cons_append,
        List.nil_append, List.cons.injEq, true_and] at h
      exact ⟨.nil, h⟩
  | [], (_, _) :: _ => fun _ _ h => by
      simp only [memberChars, List.append_assoc, List.cons_append, List.nil_append] at h
      exact absurd (eq_of_gap_append (hf _) closing_not_isGap.2.2 h) (by decide)
  | (_, _) :: _, [] => fun _ _ h => by
      simp only [memberChars, List.append_assoc, List.cons_append, List.nil_append] at h
      exact absurd (eq_of_gap_append (hf _) closing_not_isGap.2.2 h.symm) (by decide)
  | (key, a) :: members, (key', b) :: others => fun hr hr' h => by
      simp only [memberChars, List.cons_append, List.append_assoc, List.append_cancel_left_eq,
        List.cons.injEq, true_and] at h
      obtain ⟨rfl, hvalue⟩ := quote_cancel h
      simp only [List.cons.injEq, true_and, List.append_cancel_left_eq] at hvalue
      obtain ⟨halike, hrest⟩ := chars_cancel hf a b (follows_memberChars hf _ members _)
        (follows_memberChars hf _ others _) hvalue
      obtain ⟨hmembers, hr⟩ := members_cancel hf members others hr hr' hrest
      exact ⟨.cons halike hmembers, hr⟩

end

theorem alike_of_chars_eq (hf : f.Lays) {a b : Json} (h : chars f depth a = chars f depth b) :
    Alike a b :=
  have happend : chars f depth a ++ [] = chars f depth b ++ [] := by rw [h]
  (chars_cancel hf a b follows_nil follows_nil happend).1

theorem alike_of_compact_eq {a b : Json} (h : a.compact = b.compact) : Alike a b := by
  have hchars := String.ofList_injective h
  rw [← chars_unspaced 0 a, ← chars_unspaced 0 b] at hchars
  exact alike_of_chars_eq unspaced_lays hchars

theorem alike_of_pretty_eq {a b : Json} (h : a.pretty = b.pretty) : Alike a b := by
  have hchars := String.ofList_injective h
  rw [← chars_indented 0 a, ← chars_indented 0 b] at hchars
  exact alike_of_chars_eq indented_lays hchars

end AgentOptions.Json
