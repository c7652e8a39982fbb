import AgentOptions.Text.Blank

/-! # Cutting texts into pieces

* `commaPieces`: the trimmed pieces between commas; `n` commas make `n + 1` pieces, some of which
  may be empty;
* `cutAt`: the parts before and after the first occurrence of a character. -/

namespace AgentOptions.Text

/-- The pieces between commas, each trimmed; none is dropped. -/
def commaPieces (s : String) : List String :=
  (s.toList.splitOn ',').map fun piece => String.ofList (trimChars piece)

/-- The parts before and after the first `mark`, if there is one. -/
def cutAt (mark : Char) : List Char → Option (List Char × List Char)
  | [] => none
  | c :: r => if c = mark then some ([], r) else (cutAt mark r).map fun p => (c :: p.1, p.2)

theorem cutAt_eq_none_iff {mark : Char} {s : List Char} : cutAt mark s = none ↔ mark ∉ s := by
  induction s with
  | nil => simp [cutAt]
  | cons c r ih =>
    by_cases h : c = mark
    · simp [cutAt, h]
    · simp [cutAt, h, ih, Ne.symm h]

theorem cutAt_eq_some_iff {mark : Char} {s before after : List Char} :
    cutAt mark s = some (before, after) ↔ s = before ++ mark :: after ∧ mark ∉ before := by
  induction s generalizing before with
  | nil => simp [cutAt]
  | cons c r ih =>
    by_cases h : c = mark
    · subst h
      cases before with
      | nil => simp [cutAt, eq_comm]
      | cons d b => simp [cutAt]; intro hd; simp [hd]
    · cases before with
      | nil => simp [cutAt, h]
      | cons d b =>
        simp only [cutAt, h, if_false, Option.map_eq_some_iff, Prod.exists, Prod.mk.injEq,
          List.cons.injEq, List.cons_append, List.mem_cons, not_or]
        constructor
        · rintro ⟨x, y, hxy, ⟨rfl, rfl⟩, rfl⟩
          have := ih.1 hxy
          exact ⟨⟨rfl, this.1⟩, Ne.symm h, this.2⟩
        · rintro ⟨⟨rfl, hr⟩, _, hb⟩
          exact ⟨b, after, ih.2 ⟨hr, hb⟩, ⟨rfl, rfl⟩, rfl⟩

end AgentOptions.Text
