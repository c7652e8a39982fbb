import AgentOptions.Source

/-! # Assignments

An assignment is a name and a text around its first `=` (`Overrides.Splits`).  Either the name is
that of an option, whose text is set, or nothing changes (`assign_of_splits`,
`assign_of_unknown`).

Of several elements of a list that give something, the last one counts (`LastGiven`); so it is
with assignments, and with every other way to set a text. -/

namespace AgentOptions

/-! ### The last that counts -/

/-- The last element that gives anything gives this. -/
def LastGiven {α β : Type} (gives : α → β → Prop) (l : List α) (b : β) : Prop :=
  ∃ before a after, l = before ++ a :: after ∧ gives a b ∧ ∀ c ∈ after, ∀ other, ¬ gives c other

namespace LastGiven

variable {α β : Type} {gives : α → β → Prop} {l : List α} {a : α} {b : β}

theorem not_nil : ¬ LastGiven gives [] b := by
  rintro ⟨before, a, after, he, -⟩
  simp at he

theorem cons_iff : LastGiven gives (a :: l) b ↔
    LastGiven gives l b ∨ gives a b ∧ ∀ c ∈ l, ∀ other, ¬ gives c other := by
  constructor
  · rintro ⟨before, c, after, he, hc, hafter⟩
    cases before with
    | nil =>
        obtain ⟨rfl, rfl⟩ := List.cons.inj he
        exact .inr ⟨hc, hafter⟩
    | cons d before =>
        obtain ⟨-, rfl⟩ := List.cons.inj he
        exact .inl ⟨before, c, after, rfl, hc, hafter⟩
  · rintro (⟨before, c, after, rfl, hc, hafter⟩ | ⟨ha, hl⟩)
    · exact ⟨a :: before, c, after, rfl, hc, hafter⟩
    · exact ⟨[], a, l, rfl, ha, hl⟩

/-- The second of two lists counts if it has an element that gives anything, else the first. -/
theorem append_iff {m : List α} : LastGiven gives (l ++ m) b ↔
    LastGiven gives m b ∨ (∀ c ∈ m, ∀ other, ¬ gives c other) ∧ LastGiven gives l b := by
  induction l with
  | nil => simp [not_nil]
  | cons a l ih =>
      rw [List.cons_append, cons_iff, cons_iff, ih]
      simp only [List.forall_mem_append]
      grind

/-- An element at the end counts if it gives anything, and makes no difference if it does not. -/
theorem concat_iff : LastGiven gives (l ++ [a]) b ↔
    gives a b ∨ (∀ other, ¬ gives a other) ∧ LastGiven gives l b := by
  rw [append_iff, cons_iff]
  simp [not_nil]

theorem exists_iff : (∃ b, LastGiven gives l b) ↔ ∃ a ∈ l, ∃ b, gives a b := by
  induction l with
  | nil => simp [not_nil]
  | cons a l ih =>
      simp only [cons_iff, exists_or, ih, exists_and_right, List.mem_cons, or_and_right,
        exists_eq_left]
      by_cases hl : ∃ c ∈ l, ∃ b, gives c b
      · simp only [hl, true_or, or_true]
      · have hnone : ∀ c ∈ l, ∀ other, ¬ gives c other :=
          fun c hc other h => hl ⟨c, hc, other, h⟩
        simp only [hl, false_or, or_false, and_iff_left hnone]

end LastGiven

/-! ### Assignments to overrides -/

namespace Overrides

/-- The name, without blanks around it, and the text of an assignment: what stands before and after
its first `=`, or all of it and nothing. -/
inductive Splits : String → String → String → Prop
  | cut {before after : List Char} : '=' ∉ before →
      Splits (String.ofList (before ++ '=' :: after)) (Text.trim (String.ofList before))
        (String.ofList after)
  | whole {assignment : String} : '=' ∉ assignment.toList →
      Splits assignment (Text.trim assignment) ""

theorem splits_splitAssignment (assignment : String) :
    Splits assignment (splitAssignment assignment).1 (splitAssignment assignment).2 := by
  unfold splitAssignment
  cases h : Text.cutAt '=' assignment.toList with
  | none => exact .whole (Text.cutAt_eq_none_iff.mp h)
  | some parts =>
      obtain ⟨he, hbefore⟩ := Text.cutAt_eq_some_iff.mp (show _ = some (parts.1, parts.2) from h)
      have hcut : Splits (String.ofList (parts.1 ++ '=' :: parts.2)) _ _ := .cut hbefore
      rw [← he, String.ofList_toList] at hcut
      exact hcut

variable {assignment name raw : String}

theorem Splits.splitAssignment_eq (h : Splits assignment name raw) :
    splitAssignment assignment = (name, raw) := by
  cases h with
  | @cut before after hbefore =>
      have hcut : Text.cutAt '=' (before ++ '=' :: after) = some (before, after) :=
        Text.cutAt_eq_some_iff.mpr ⟨rfl, hbefore⟩
      rw [splitAssignment, String.toList_ofList, hcut]
  | whole hnone => rw [splitAssignment, Text.cutAt_eq_none_iff.mpr hnone]

theorem Splits.unique {name' raw' : String} (h : Splits assignment name raw)
    (h' : Splits assignment name' raw') : name = name' ∧ raw = raw' :=
  Prod.mk.inj (h.splitAssignment_eq.symm.trans h'.splitAssignment_eq)

theorem assign_of_splits {n : OptionName} (h : Splits assignment n.text raw) (o : Overrides) :
    o.assign assignment = .ok (o.set n raw) := by
  simp only [assign, h.splitAssignment_eq, OptionName.ofText?_text]

theorem assign_of_unknown (h : Splits assignment name raw)
    (hname : ∀ n : OptionName, name ≠ n.text) (o : Overrides) :
    o.assign assignment = .error name := by
  have hnone : OptionName.ofText? name = none := by
    rw [Option.eq_none_iff_forall_ne_some]
    exact fun n hn => hname n (OptionName.ofText?_eq_some_iff.mp hn)
  simp only [assign, h.splitAssignment_eq, hnone]

theorem splits_or_unknown (assignment : String) :
    (∃ n raw, Splits assignment (OptionName.text n) raw) ∨
      ∃ name raw, Splits assignment name raw ∧ ∀ n : OptionName, name ≠ n.text := by
  have h := splits_splitAssignment assignment
  by_cases hn : ∃ n : OptionName, (splitAssignment assignment).1 = n.text
  · obtain ⟨n, hn⟩ := hn
    rw [hn] at h
    exact .inl ⟨n, _, h⟩
  · exact .inr ⟨_, _, h, fun n he => hn ⟨n, he⟩⟩

end Overrides

end AgentOptions
