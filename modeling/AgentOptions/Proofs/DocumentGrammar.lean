import AgentOptions.Proofs.JsonText
import AgentOptions.Proofs.NumeralGrammar

/-! # The grammar of documents

Which texts spell a document (`Json.Spells`), said without the writers.  A string is spelled by what
reads as its characters, an integer and a double by a numeral for it, and the parts of arrays and
objects may have blanks and line feeds around them.

Both written forms of a document spell it, as one case of a format with nothing but blanks and line
feeds between the parts (`spells_chars`, and for the indented form `spells_pretty`). -/

namespace AgentOptions.Json

/-! ### Spelling -/

/-- What reads as the characters, one after another, where no quote and no control character
starts one. -/
inductive SpellsInside : List Char → List Char → Prop
  | nil : SpellsInside [] []
  | cons {c d : Char} {cs inside rest : List Char} : d ≠ '"' → 0x20 ≤ d.toNat →
      unescape (d :: inside) = some (c, rest) → SpellsInside cs rest →
      SpellsInside (c :: cs) (d :: inside)

/-- A string between quotes. -/
inductive SpellsString : String → List Char → Prop
  | mk {s : String} {inside : List Char} : SpellsInside s.toList inside →
      SpellsString s ('"' :: (inside ++ ['"']))

/-- The part, perhaps with blanks and line feeds before and behind it. -/
def Spaced (part text : List Char) : Prop :=
  ∃ before after, text = before ++ (part ++ after) ∧ (∀ c ∈ before, IsGap c) ∧
    ∀ c ∈ after, IsGap c

mutual

inductive Spells : Json → List Char → Prop
  | null : Spells .null "null".toList
  | true : Spells (.bool true) "true".toList
  | false : Spells (.bool false) "false".toList
  | integer {n : Int} {s : List Char} : Integer.Writes s n → Spells (.integer n) s
  | number {d : Decimal} {s : List Char} : Decimal.Numeral s d → d.nearest.isFinite →
      Spells (.number d.nearest) s
  | notFinite {x : Binary64} : ¬ x.isFinite → Spells (.number x) "null".toList
  | string {s : String} {text : List Char} : SpellsString s text → Spells (.string s) text
  | emptyArray {text : List Char} : Spaced [] text → Spells (.array []) ('[' :: (text ++ [']']))
  | array {items : List Json} {text : List Char} : SpellsItems items text →
      Spells (.array items) ('[' :: (text ++ [']']))
  | emptyObject {text : List Char} : Spaced [] text → Spells (.object []) ('{' :: (text ++ ['}']))
  | object {members : List (String × Json)} {text : List Char} : SpellsMembers members text →
      Spells (.object members) ('{' :: (text ++ ['}']))

/-- One or more items with commas between them. -/
inductive SpellsItems : List Json → List Char → Prop
  | last {item : Json} {part text : List Char} : Spells item part → Spaced part text →
      SpellsItems [item] text
  | more {item : Json} {items : List Json} {part text rest : List Char} : Spells item part →
      Spaced part text → SpellsItems items rest → SpellsItems (item :: items) (text ++ ',' :: rest)

/-- One or more members, each a key, a colon and a document, with commas between them. -/
inductive SpellsMembers : List (String × Json) → List Char → Prop
  | last {key : String} {value : Json} {name before part text : List Char} :
      SpellsString key name → Spaced name before → Spells value part → Spaced part text →
      SpellsMembers [(key, value)] (before ++ ':' :: text)
  | more {key : String} {value : Json} {members : List (String × Json)}
      {name before part text rest : List Char} :
      SpellsString key name → Spaced name before → Spells value part → Spaced part text →
      SpellsMembers members rest →
      SpellsMembers ((key, value) :: members) (before ++ ':' :: (text ++ ',' :: rest))

end

/-! ### What is written spells what it is written for -/

theorem exists_escape_cons (c : Char) : ∃ d tail, escape c = d :: tail ∧ 0x20 ≤ d.toNat := by
  have hmark : 0x20 ≤ '\\'.toNat := by decide
  unfold escape
  split_ifs with _ _ _ _ _ _ _ hc
  all_goals first
    | exact ⟨_, _, rfl, hmark⟩
    | exact ⟨c, [], rfl, Nat.le_of_not_lt hc⟩

theorem spellsInside_escape (cs : List Char) : SpellsInside cs (cs.flatMap escape) := by
  induction cs with
  | nil => exact .nil
  | cons c cs ih =>
      obtain ⟨d, tail, he, hd⟩ := exists_escape_cons c
      have hread := unescape_escape c (cs.flatMap escape)
      have hne := escape_append_ne c (cs.flatMap escape)
      rw [List.flatMap_cons]
      rw [he, List.cons_append] at hread hne ⊢
      exact .cons (fun h => hne _ (congrArg (· :: _) h)) hd hread ih

theorem spellsString_quote (s : String) : SpellsString s (quote s) :=
  .mk (spellsInside_escape s.toList)

theorem spells_numberText (x : Binary64) : Spells (.number x) (numberText x) := by
  unfold numberText
  split
  · next hx => cases x with
    | nan => cases hx
    | number negative rank =>
        obtain ⟨d, hd, hnearest⟩ :=
          Decimal.exists_scan_text_document (of_decide_eq_true hx) Decimal.ends_nil
        obtain ⟨numeral, hnumeral, he⟩ := Decimal.exists_numeral_of_scan hd
        rw [List.append_nil, List.append_nil] at he
        rw [he, ← hnearest]
        exact .number hnumeral (hnearest ▸ hx)
  · next hx => exact .notFinite hx

theorem spaced_nil : Spaced [] [] := ⟨[], [], rfl, by simp, by simp⟩

/-- Nothing but blanks and line feeds stands between the parts. -/
structure Format.Blank (f : Format) : Prop where
  line : ∀ depth, ∀ c ∈ f.line depth, IsGap c
  space : ∀ c ∈ f.space, IsGap c

section format

variable {f : Format}

/-- A part that starts a line, at the end of its array or object. -/
theorem Format.Blank.spaced_last (hf : f.Blank) (depth : Nat) (part : List Char) :
    Spaced part (f.line (depth + 1) ++ (part ++ f.line depth)) :=
  ⟨f.line (depth + 1), f.line depth, rfl, hf.line _, hf.line _⟩

/-- A part that starts a line, with more to come. -/
theorem Format.Blank.spaced_line (hf : f.Blank) (depth : Nat) (part : List Char) :
    Spaced part (f.line depth ++ part) :=
  ⟨f.line depth, [], by rw [List.append_nil], hf.line _, by simp⟩

mutual

/-- **What is written for a document spells it.** -/
theorem spells_chars (hf : f.Blank) (depth : Nat) : (j : Json) → Spells j (chars f depth j)
  | null => by
      rw [chars]
      exact .null
  | bool true => by
      rw [chars]
      exact .true
  | bool false => by
      rw [chars]
      exact .false
  | integer n => by
      rw [chars]
      exact .integer (Integer.value?_eq_some_iff.mp (Integer.value?_digits n))
  | number x => by
      rw [chars]
      exact spells_numberText x
  | string s => by
      rw [chars]
      exact .string (spellsString_quote s)
  | array [] => by
      rw [chars]
      exact .emptyArray spaced_nil
  | array (item :: items) => by
      obtain ⟨text, htext, he⟩ := spells_items hf depth items (spells_chars hf (depth + 1) item)
      rw [chars, he]
      exact .array htext
  | object [] => by
      rw [chars]
      exact .emptyObject spaced_nil
  | object ((key, value) :: members) => by
      obtain ⟨text, htext, he⟩ := spells_members hf depth members (spellsString_quote key)
        (spells_chars hf (depth + 1) value)
      rw [chars, he]
      exact .object htext

theorem spells_items (hf : f.Blank) (depth : Nat) : (items : List Json) →
    ∀ {item : Json} {part : List Char}, Spells item part →
      ∃ text, SpellsItems (item :: items) text ∧
        f.line (depth + 1) ++ (part ++ itemChars f depth items) = text ++ [']']
  | [], _, part, hpart => by
      refine ⟨_, .last hpart (hf.spaced_last depth part), ?_⟩
      rw [itemChars]
      simp only [List.append_assoc]
  | next :: items, _, part, hpart => by
      obtain ⟨text, htext, he⟩ := spells_items hf depth items (spells_chars hf (depth + 1) next)
      refine ⟨_, .more hpart (hf.spaced_line (depth + 1) part) htext, ?_⟩
      rw [itemChars, he]
      simp only [List.append_assoc, List.cons_append]

theorem spells_members (hf : f.Blank) (depth : Nat) : (members : List (String × Json)) →
    ∀ {key : String} {value : Json} {name part : List Char}, SpellsString key name →
      Spells value part → ∃ text, SpellsMembers ((key, value) :: members) text ∧
        f.line (depth + 1) ++ (name ++ ':' :: (f.space ++ (part ++ memberChars f depth members))) =
          text ++ ['}']
  | [], _, _, name, part, hname, hpart => by
      refine ⟨_, .last hname (hf.spaced_line (depth + 1) name) hpart
        ⟨f.space, f.line depth, rfl, hf.space, hf.line _⟩, ?_⟩
      rw [memberChars]
      simp only [List.append_assoc, List.cons_append]
  | (next, value) :: members, _, _, name, part, hname, hpart => by
      obtain ⟨text, htext, he⟩ := spells_members hf depth members (spellsString_quote next)
        (spells_chars hf (depth + 1) value)
      refine ⟨_, .more hname (hf.spaced_line (depth + 1) name) hpart
        ⟨f.space, [], rfl, hf.space, by simp⟩ htext, ?_⟩
      rw [memberChars, he]
      simp only [List.append_assoc, List.cons_append, List.append_nil]

end

end format

theorem indented_blank : indented.Blank :=
  ⟨indented_lays, List.forall_mem_singleton.mpr (.inr rfl)⟩

theorem spells_pretty (j : Json) : Spells j j.pretty.toList := by
  rw [pretty, String.toList_ofList, ← chars_indented]
  exact spells_chars indented_blank 0 j

end AgentOptions.Json
