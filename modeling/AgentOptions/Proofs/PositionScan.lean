import AgentOptions.Proofs.PatternLanguage
import Mathlib.Data.List.Forall2
import Mathlib.Order.Bounds.Basic

/-! # The scan of a text by positions

`Body.accepts` hands on what is left of a text.  The scan of this module keeps the text and a
position in it instead, and searches, cuts and subtracts lengths, all of them partial: an operation
that is out of bounds gives `none`, and so does the scan then.  It is never out of bounds, and
accepts what `Body.accepts` accepts (`Body.scan?_eq`).

Between two literals the position is the least one at which the literals so far can end
(`Body.Reaches.isLeast`): `Placed` says declaratively what it is for literals to stand in a text in
order, without overlap and, if they are pinned, from its start on.  One step keeps this, because a
later end of the earlier literals leaves no earlier place for the next one
(`Placed.isLeast_concat`).

Main statement: `Pattern.scan_keeps_least_end`. -/

namespace AgentOptions

/-! ### Places of literals -/

section places

variable (alike : Char → Char → Prop) (text : List Char)

/-- The literal stands in the text at this position. -/
def StandsAt (literal : List Char) (start : ℕ) : Prop :=
  ∃ before here after, text = before ++ (here ++ after) ∧ before.length = start ∧
    List.Forall₂ alike here literal

/-- The literals stand in the text in this order, each after the end of the one before, and the
last of them ends at this position.  Pinned literals start where the text starts. -/
inductive Placed (pinned : Prop) : List (List Char) → ℕ → Prop
  | none : Placed pinned [] 0
  | more {done : List (List Char)} {literal : List Char} {finish start : ℕ} :
      Placed pinned done finish → finish ≤ start → (done = [] → pinned → start = 0) →
      StandsAt alike text literal start →
      Placed pinned (done ++ [literal]) (start + literal.length)

variable {alike text} {literal : List Char} {start finish : ℕ} {pinned : Prop}
  {done : List (List Char)}

theorem StandsAt.end_le (h : StandsAt alike text literal start) :
    start + literal.length ≤ text.length := by
  obtain ⟨before, here, after, rfl, rfl, hl⟩ := h
  have hlen := hl.length_eq
  simp only [List.length_append]
  omega

theorem standsAt_iff_drop :
    StandsAt alike text literal start ↔
      start ≤ text.length ∧
        ∃ here after, text.drop start = here ++ after ∧ List.Forall₂ alike here literal := by
  constructor
  · rintro ⟨before, here, after, rfl, rfl, hl⟩
    refine ⟨by simp, here, after, ?_, hl⟩
    rw [List.drop_left]
  · rintro ⟨hle, here, after, hd, hl⟩
    refine ⟨text.take start, here, after, ?_, ?_, hl⟩
    · rw [← hd, List.take_append_drop]
    · rw [List.length_take, Nat.min_eq_left hle]

namespace Placed

theorem concat_iff :
    Placed alike text pinned (done ++ [literal]) finish ↔
      ∃ earlier start, Placed alike text pinned done earlier ∧ earlier ≤ start ∧
        (done = [] → pinned → start = 0) ∧ StandsAt alike text literal start ∧
        finish = start + literal.length := by
  constructor
  · intro h
    generalize hd : done ++ [literal] = all at h
    cases h with
    | none => simp at hd
    | more h hle hpin hs =>
        obtain ⟨rfl, hl⟩ := List.append_inj' hd rfl
        obtain rfl := List.singleton_inj.mp hl
        exact ⟨_, _, h, hle, hpin, hs, rfl⟩
  · rintro ⟨earlier, start, h, hle, hpin, hs, rfl⟩
    exact .more h hle hpin hs

theorem end_le (h : Placed alike text pinned done finish) : finish ≤ text.length := by
  cases h with
  | none => exact Nat.zero_le _
  | more _ _ _ hs => exact hs.end_le

/-- **The leftmost place after the least end gives the least end.**  The places of the earlier
literals that end later allow no place of the next one that this end does not allow. -/
theorem isLeast_concat {position : ℕ}
    (hleast : IsLeast {finish | Placed alike text pinned done finish} position)
    (hfree : done = [] → ¬ pinned)
    (hstart : IsLeast {start | position ≤ start ∧ StandsAt alike text literal start} start) :
    IsLeast {finish | Placed alike text pinned (done ++ [literal]) finish}
      (start + literal.length) := by
  obtain ⟨⟨hle, hs⟩, hmin⟩ := hstart
  constructor
  · exact .more hleast.1 hle (fun hd hp => absurd hp (hfree hd)) hs
  · intro finish h
    obtain ⟨earlier, other, hp, hother, -, hs', rfl⟩ := concat_iff.mp h
    have hearlier : position ≤ earlier := hleast.2 hp
    have : start ≤ other := hmin ⟨hearlier.trans hother, hs'⟩
    omega

theorem not_concat {position : ℕ}
    (hleast : IsLeast {finish | Placed alike text pinned done finish} position)
    (hnone : ∀ start, position ≤ start → ¬ StandsAt alike text literal start) :
    ¬ Placed alike text pinned (done ++ [literal]) finish := by
  intro h
  obtain ⟨earlier, start, hp, hle, -, hs, -⟩ := concat_iff.mp h
  have hearlier : position ≤ earlier := hleast.2 hp
  exact hnone start (hearlier.trans hle) hs

/-- A pinned first literal has its place at the start of the text, or none. -/
theorem singleton_iff_of_pinned (hpin : pinned) :
    Placed alike text pinned [literal] finish ↔
      StandsAt alike text literal 0 ∧ finish = literal.length := by
  rw [← List.nil_append [literal], concat_iff]
  constructor
  · rintro ⟨earlier, start, -, -, hstart, hs, rfl⟩
    obtain rfl := hstart rfl hpin
    exact ⟨hs, Nat.zero_add _⟩
  · rintro ⟨hs, rfl⟩
    exact ⟨0, 0, .none, le_rfl, fun _ _ => rfl, hs, (Nat.zero_add _).symm⟩

theorem isLeast_singleton_of_pinned (hpin : pinned) (hs : StandsAt alike text literal 0) :
    IsLeast {finish | Placed alike text pinned [literal] finish} literal.length := by
  constructor
  · exact (singleton_iff_of_pinned hpin).mpr ⟨hs, rfl⟩
  · intro finish h
    exact ((singleton_iff_of_pinned hpin).mp h).2.ge

end Placed

/-- What a search from a position on should find: the leftmost place of the literal, if any. -/
def Leftmost (alike : Char → Char → Prop) (text literal : List Char) (position : ℕ) :
    Option ℕ → Prop
  | some start => IsLeast {start | position ≤ start ∧ StandsAt alike text literal start} start
  | none => ∀ start, position ≤ start → ¬ StandsAt alike text literal start

theorem Leftmost.eq_of_standsAt {position : ℕ} {found : Option ℕ}
    (h : Leftmost alike text literal position found)
    (hs : StandsAt alike text literal position) : found = some position := by
  cases found with
  | none => exact absurd hs (h position le_rfl)
  | some start =>
      have hle : start ≤ position := h.2 ⟨le_rfl, hs⟩
      rw [Nat.le_antisymm hle h.1.1]

theorem Leftmost.succ_of_not_standsAt {position : ℕ} {found : Option ℕ}
    (h : Leftmost alike text literal position found)
    (hs : ¬ StandsAt alike text literal position) :
    Leftmost alike text literal (position + 1) found := by
  cases found with
  | none => exact fun start hle => h start (by omega)
  | some start =>
      obtain ⟨⟨hle, hstart⟩, hmin⟩ := h
      have hne : position ≠ start := fun he => hs (he ▸ hstart)
      refine ⟨⟨by omega, hstart⟩, ?_⟩
      rintro other ⟨hother, hs'⟩
      exact hmin ⟨by omega, hs'⟩

theorem Leftmost.eq_none {position : ℕ} {found : Option ℕ}
    (h : Leftmost alike text literal position found) (hout : text.length < position) :
    found = none := by
  cases found with
  | none => rfl
  | some start =>
      obtain ⟨⟨hle, hs⟩, -⟩ := h
      have hend := hs.end_le
      omega

end places

/-! ### Operations with bounds -/

/-- The difference of two lengths, the second of which is not the larger one. -/
def difference? (a b : ℕ) : Option ℕ := if b ≤ a then some (a - b) else none

/-- The text from a position on that it reaches. -/
def slice? (text : List Char) (start : ℕ) : Option (List Char) :=
  if start ≤ text.length then some (text.drop start) else none

theorem difference?_eq {a b : ℕ} (h : b ≤ a) : difference? a b = some (a - b) := if_pos h

theorem slice?_eq {text : List Char} {start : ℕ} (h : start ≤ text.length) :
    slice? text start = some (text.drop start) := if_pos h

namespace Body

/-- The literals of a body that are not empty. -/
def pieces (b : Body) : List (List Char) :=
  ((literals b.text).1 :: (literals b.text).2).filter (· ≠ [])

/-- The first literal has to start the text. -/
def Pinned (b : Body) : Prop := b.text.head? ≠ some '*'

/-- The last literal has to end the text. -/
def Anchored (b : Body) : Prop := b.text.getLast? ≠ some '*'

instance (b : Body) : Decidable b.Pinned := inferInstanceAs (Decidable (_ ≠ _))

instance (b : Body) : Decidable b.Anchored := inferInstanceAs (Decidable (_ ≠ _))

/-- What the scan does at a literal. -/
inductive Turn where
  | goesOn (position : ℕ)
  | answers (accepted : Bool)
  deriving DecidableEq

section scan

variable (same : Char → Char → Bool)

/-- The text starts with the literal. -/
def startsWith (literal text : List Char) : Bool :=
  decide (literal.length ≤ text.length) && (text.zip literal).all fun pair => same pair.1 pair.2

/-- The first position from the given one on at which the literal stands. -/
def findFrom? (text : List Char) (position : ℕ) (literal : List Char) : Option (Option ℕ) :=
  if text.length < position + literal.length then some none
  else do
    let last ← difference? text.length literal.length
    (List.range' position (last + 1 - position)).findM? fun start => do
      let rest ← slice? text start
      return startsWith same literal rest

variable (b : Body) (text : List Char)

/-- One literal of the scan: its index, the index of the last literal, and the position so far. -/
def turn? (last index position : ℕ) (literal : List Char) : Option Turn :=
  if index = 0 ∧ b.Pinned then
    if startsWith same literal text then
      if index = last ∧ b.Anchored then some (.answers (literal.length == text.length))
      else some (.goesOn literal.length)
    else some (.answers false)
  else if index = last ∧ b.Anchored then
    if text.length < position + literal.length then some (.answers false)
    else do
      let start ← difference? text.length literal.length
      let rest ← slice? text start
      return .answers (startsWith same literal rest)
  else do
    match ← findFrom? same text position literal with
    | some start => return .goesOn (start + literal.length)
    | none => return .answers false

/-- The scan from a literal on. -/
def scanFrom? (last : ℕ) : ℕ → ℕ → List (List Char) → Option Bool
  | _, _, [] => some true
  | index, position, literal :: rest => do
    match ← turn? same b text last index position literal with
    | .goesOn next => scanFrom? last (index + 1) next rest
    | .answers accepted => return accepted

/-- The whole scan.  A body without literals accepts every text if it has a star. -/
def scan? : Option Bool :=
  if b.pieces = [] then some (!b.Pinned || text.isEmpty)
  else do
    let last ← difference? b.pieces.length 1
    scanFrom? same b text last 0 0 b.pieces

/-- The scan comes to this position with these literals done and the others still to do. -/
inductive Reaches : List (List Char) → ℕ → List (List Char) → Prop
  | start : Reaches [] 0 b.pieces
  | goesOn {done rest : List (List Char)} {literal : List Char} {position next : ℕ} :
      Reaches done position (literal :: rest) →
      turn? same b text (b.pieces.length - 1) done.length position literal = some (.goesOn next) →
      Reaches (done ++ [literal]) next rest

/-! ### What the operations find -/

variable {same} {b} {text} {literal : List Char} {position : ℕ}

theorem dropLiteral_eq_some_iff {rest : List Char} :
    dropLiteral same literal text = some rest ↔
      ∃ here, text = here ++ rest ∧ List.Forall₂ (Alike same) here literal := by
  induction literal generalizing text with
  | nil => simp [dropLiteral, eq_comm]
  | cons p literal ih =>
      constructor
      · intro h
        cases text with
        | nil => cases h
        | cons c text =>
            unfold dropLiteral at h
            split at h
            · next hc =>
              obtain ⟨here, rfl, hl⟩ := ih.mp h
              exact ⟨c :: here, rfl, .cons hc hl⟩
            · cases h
      · rintro ⟨here, rfl, hl⟩
        cases hl with
        | @cons c _ here _ hc hl =>
            have hs : same c p = true := hc
            rw [List.cons_append, dropLiteral, if_pos hs]
            exact ih.mpr ⟨here, rfl, hl⟩

theorem startsWith_eq_isSome (literal text : List Char) :
    startsWith same literal text = (dropLiteral same literal text).isSome := by
  induction literal generalizing text with
  | nil => simp [startsWith, dropLiteral]
  | cons p literal ih =>
      cases text with
      | nil => rfl
      | cons c text =>
          unfold dropLiteral
          split
          · next hc =>
            rw [← ih]
            simp [startsWith, hc]
          · next hc => simp [startsWith, hc]

theorem startsWith_of_length_eq (h : text.length = literal.length) :
    startsWith same literal text = (dropLiteral same literal text == some []) := by
  rw [startsWith_eq_isSome]
  cases hd : dropLiteral same literal text with
  | none => rfl
  | some rest =>
      obtain ⟨-, rfl⟩ := dropLiteral_eq_drop same hd
      rw [← h, List.drop_length]
      rfl

theorem startsWith_drop_iff (h : position ≤ text.length) :
    startsWith same literal (text.drop position) = true ↔
      StandsAt (Alike same) text literal position := by
  rw [startsWith_eq_isSome, Option.isSome_iff_exists, standsAt_iff_drop]
  simp only [dropLiteral_eq_some_iff]
  constructor
  · rintro ⟨after, here, hd, hl⟩
    exact ⟨h, here, after, hd, hl⟩
  · rintro ⟨-, here, after, hd, hl⟩
    exact ⟨after, here, hd, hl⟩

theorem findM?_eq_some_find? {α : Type} {test? : α → Option Bool} {test : α → Bool} {l : List α}
    (h : ∀ a ∈ l, test? a = some (test a)) : l.findM? test? = some (l.find? test) := by
  induction l with
  | nil => rfl
  | cons a l ih =>
      have ih := ih fun a' ha => h a' (List.mem_cons_of_mem _ ha)
      rw [List.findM?, h a List.mem_cons_self, List.find?]
      cases test a with
      | true => rfl
      | false => exact ih

/-- The first of the positions at which the literal has room is its leftmost place. -/
theorem leftmost_find? (hroom : position + literal.length ≤ text.length) :
    Leftmost (Alike same) text literal position
      ((List.range' position (text.length - literal.length + 1 - position)).find? fun start =>
        startsWith same literal (text.drop start)) := by
  cases hf : List.find? _ _ with
  | none =>
      rw [List.find?_range'_eq_none] at hf
      intro start hle hs
      have hend := hs.end_le
      have hin : start ≤ text.length := by omega
      have hno := hf start hle (by omega)
      rw [(startsWith_drop_iff hin).mpr hs] at hno
      cases hno
  | some start =>
      rw [List.find?_range'_eq_some] at hf
      obtain ⟨htest, hmem, hbefore⟩ := hf
      have hrange := List.mem_range'_1.mp hmem
      have hin : start ≤ text.length := by omega
      refine ⟨⟨hrange.1, (startsWith_drop_iff hin).mp htest⟩, ?_⟩
      rintro other ⟨hle, hs⟩
      by_contra hlt
      have hin' : other ≤ text.length := by omega
      have hno := hbefore other hle (by omega)
      rw [(startsWith_drop_iff hin').mpr hs] at hno
      cases hno

variable (same) in
theorem exists_findFrom? (text literal : List Char) (position : ℕ) :
    ∃ found, findFrom? same text position literal = some found ∧
      Leftmost (Alike same) text literal position found := by
  unfold findFrom?
  split
  · next hlong =>
    refine ⟨none, rfl, fun start hle hs => ?_⟩
    have hend := hs.end_le
    omega
  · next hroom =>
    have hlen : literal.length ≤ text.length := by omega
    have hcut : ∀ start ∈ List.range' position (text.length - literal.length + 1 - position),
        (slice? text start >>= fun rest => some (startsWith same literal rest)) =
          some (startsWith same literal (text.drop start)) := by
      intro start hstart
      have hrange := List.mem_range'_1.mp hstart
      rw [slice?_eq (by omega)]
      rfl
    rw [difference?_eq hlen]
    exact ⟨_, findM?_eq_some_find? hcut, leftmost_find? (by omega)⟩

theorem dropLiteral_drop_of_standsAt (hs : StandsAt (Alike same) text literal position) :
    dropLiteral same literal (text.drop position) =
      some (text.drop (position + literal.length)) := by
  obtain ⟨-, here, after, hd, hl⟩ := standsAt_iff_drop.mp hs
  rw [← List.drop_drop, hd, dropLiteral_eq_some_iff]
  refine ⟨here, ?_, hl⟩
  rw [← hl.length_eq, List.drop_left]

theorem dropLiteral_drop_of_not_standsAt (hin : position ≤ text.length)
    (hs : ¬ StandsAt (Alike same) text literal position) :
    dropLiteral same literal (text.drop position) = none := by
  rw [← startsWith_drop_iff hin, startsWith_eq_isSome] at hs
  exact Option.not_isSome_iff_eq_none.mp hs

theorem skipPast_of_some {rest : List Char} (h : dropLiteral same literal text = some rest) :
    skipPast same literal text = some rest := by
  cases text with
  | nil => exact h
  | cons c text => rw [skipPast, h]

theorem skipPast_of_none (h : dropLiteral same literal text = none) :
    skipPast same literal text = skipPast same literal text.tail := by
  cases text with
  | nil => rfl
  | cons c text =>
      rw [skipPast, h]
      rfl

theorem skipPast_drop {position : ℕ} {found : Option ℕ} (hin : position ≤ text.length)
    (h : Leftmost (Alike same) text literal position found) :
    skipPast same literal (text.drop position) =
      found.map fun start => text.drop (start + literal.length) := by
  by_cases hs : StandsAt (Alike same) text literal position
  · obtain rfl := h.eq_of_standsAt hs
    exact skipPast_of_some (dropLiteral_drop_of_standsAt hs)
  have hnone := dropLiteral_drop_of_not_standsAt hin hs
  by_cases hend : position = text.length
  · obtain rfl : found = none := (h.succ_of_not_standsAt hs).eq_none (by omega)
    have hnil : text.drop position = [] := List.drop_eq_nil_of_le (by omega)
    rw [hnil] at hnone ⊢
    exact hnone
  · rw [skipPast_of_none hnone, List.tail_drop]
    exact skipPast_drop (by omega) (h.succ_of_not_standsAt hs)
termination_by text.length - position

/-! ### One literal -/

variable (same b text) in
theorem turn?_pinned {last index : ℕ} (hindex : index = 0) (hpin : b.Pinned) (position : ℕ)
    (literal : List Char) :
    turn? same b text last index position literal =
      some (if startsWith same literal text then
          if index = last ∧ b.Anchored then .answers (literal.length == text.length)
          else .goesOn literal.length
        else .answers false) := by
  rw [turn?, if_pos ⟨hindex, hpin⟩]
  split_ifs <;> rfl

theorem turn?_anchored {last index : ℕ} (hin : position ≤ text.length)
    (hfree : ¬ (index = 0 ∧ b.Pinned)) (hlast : index = last ∧ b.Anchored) (literal : List Char) :
    turn? same b text last index position literal =
      some (.answers (endsWith same literal (text.drop position))) := by
  rw [turn?, if_neg hfree, if_pos hlast, endsWith, List.length_drop]
  split
  · next hlong =>
    have hshort : ¬ literal.length ≤ text.length - position := by omega
    simp [hshort]
  · next hroom =>
    have hlen : literal.length ≤ text.length := by omega
    have hfits : literal.length ≤ text.length - position := by omega
    have hstart : position + (text.length - position - literal.length) =
        text.length - literal.length := by omega
    have hcut : (text.drop (text.length - literal.length)).length = literal.length := by
      rw [List.length_drop]
      omega
    rw [difference?_eq hlen, Option.bind_eq_bind, Option.bind_some, slice?_eq (Nat.sub_le _ _),
      List.drop_drop, hstart, decide_eq_true hfits, Bool.true_and, ← startsWith_of_length_eq hcut]
    rfl

theorem turn?_between {last index : ℕ} (hfree : ¬ (index = 0 ∧ b.Pinned))
    (hnext : ¬ (index = last ∧ b.Anchored)) (literal : List Char) :
    ∃ found, Leftmost (Alike same) text literal position found ∧
      turn? same b text last index position literal =
        some (match found with
          | some start => .goesOn (start + literal.length)
          | none => .answers false) := by
  obtain ⟨found, hf, hleft⟩ := exists_findFrom? same text literal position
  refine ⟨found, hleft, ?_⟩
  rw [turn?, if_neg hfree, if_neg hnext, hf]
  cases found <;> rfl

/-! ### What the scan keeps -/

section step

variable {last : ℕ} {done : List (List Char)}

/-- **One literal that need not end the text.**  From the least end of the literals before, the scan
goes on to the least end of them and this one, and it answers that the text is not accepted exactly
if these literals have no place. -/
theorem turn?_of_not_anchored
    (hleast : IsLeast {finish | Placed (Alike same) text b.Pinned done finish} position)
    (hnext : ¬ (done.length = last ∧ b.Anchored)) (literal : List Char) :
    (∃ next, turn? same b text last done.length position literal = some (.goesOn next) ∧
        IsLeast {finish | Placed (Alike same) text b.Pinned (done ++ [literal]) finish} next) ∨
      (turn? same b text last done.length position literal = some (.answers false) ∧
        ∀ finish, ¬ Placed (Alike same) text b.Pinned (done ++ [literal]) finish) := by
  by_cases hfree : done.length = 0 ∧ b.Pinned
  · obtain rfl : done = [] := List.length_eq_zero_iff.mp hfree.1
    have hstarts : startsWith same literal text = true ↔ StandsAt (Alike same) text literal 0 :=
      startsWith_drop_iff (Nat.zero_le text.length)
    rw [turn?_pinned same b text hfree.1 hfree.2, if_neg hnext]
    by_cases hs : StandsAt (Alike same) text literal 0
    · left
      rw [if_pos (hstarts.mpr hs)]
      exact ⟨_, rfl, Placed.isLeast_singleton_of_pinned hfree.2 hs⟩
    · right
      rw [if_neg (mt hstarts.mp hs)]
      exact ⟨rfl, fun finish h => hs ((Placed.singleton_iff_of_pinned hfree.2).mp h).1⟩
  · obtain ⟨found, hleft, hturn⟩ := turn?_between hfree hnext literal
    rw [hturn]
    cases found with
    | some start =>
        have hunpinned : done = [] → ¬ b.Pinned := by
          rintro rfl hpin
          exact hfree ⟨rfl, hpin⟩
        exact .inl ⟨_, rfl, Placed.isLeast_concat hleast hunpinned hleft⟩
    | none => exact .inr ⟨rfl, fun finish => Placed.not_concat hleast hleft⟩

/-- A literal that has to end the text is the last one that the scan looks at. -/
theorem turn?_of_anchored (hin : position ≤ text.length)
    (hlast : done.length = last ∧ b.Anchored) (literal : List Char) :
    ∃ accepted, turn? same b text last done.length position literal = some (.answers accepted) := by
  by_cases hfree : done.length = 0 ∧ b.Pinned
  · rw [turn?_pinned same b text hfree.1 hfree.2, if_pos hlast]
    split
    · exact ⟨_, rfl⟩
    · exact ⟨_, rfl⟩
  · exact ⟨_, turn?_anchored hin hfree hlast literal⟩

theorem isLeast_of_goesOn {next : ℕ}
    (hleast : IsLeast {finish | Placed (Alike same) text b.Pinned done finish} position)
    (hturn : turn? same b text last done.length position literal = some (.goesOn next)) :
    IsLeast {finish | Placed (Alike same) text b.Pinned (done ++ [literal]) finish} next := by
  by_cases hlast : done.length = last ∧ b.Anchored
  · obtain ⟨accepted, hturn'⟩ := turn?_of_anchored hleast.1.end_le hlast literal
    rw [hturn'] at hturn
    cases hturn
  · rcases turn?_of_not_anchored hleast hlast literal with ⟨next', hturn', hnext⟩ | ⟨hturn', -⟩
    · rw [hturn'] at hturn
      cases hturn
      exact hnext
    · rw [hturn'] at hturn
      cases hturn

end step

namespace Reaches

variable {done rest : List (List Char)}

theorem append_eq (h : Reaches same b text done position rest) : done ++ rest = b.pieces := by
  induction h with
  | start => rfl
  | goesOn _ _ ih => rw [List.append_assoc, List.singleton_append, ih]

/-- **Whenever the scan goes on, its position is the least end of the literals that are done.** -/
theorem isLeast (h : Reaches same b text done position rest) :
    IsLeast {finish | Placed (Alike same) text b.Pinned done finish} position := by
  induction h with
  | start =>
      refine ⟨.none, fun finish h => ?_⟩
      exact Nat.zero_le finish
  | @goesOn done rest literal position next h hturn ih => exact isLeast_of_goesOn ih hturn

theorem exists_turn? (h : Reaches same b text done position (literal :: rest)) :
    ∃ turn, turn? same b text (b.pieces.length - 1) done.length position literal = some turn := by
  by_cases hlast : done.length = b.pieces.length - 1 ∧ b.Anchored
  · obtain ⟨accepted, hturn⟩ := turn?_of_anchored h.isLeast.1.end_le hlast literal
    exact ⟨_, hturn⟩
  · rcases turn?_of_not_anchored h.isLeast hlast literal with ⟨next, hturn, -⟩ | ⟨hturn, -⟩
    · exact ⟨_, hturn⟩
    · exact ⟨_, hturn⟩

/-- Where the scan stops at a literal that need not end the text, there is no place for it. -/
theorem not_placed (h : Reaches same b text done position (literal :: rest))
    (hturn : turn? same b text (b.pieces.length - 1) done.length position literal =
      some (.answers false))
    (hnext : rest ≠ [] ∨ ¬ b.Anchored) (finish : ℕ) :
    ¬ Placed (Alike same) text b.Pinned (done ++ [literal]) finish := by
  have hlast : ¬ (done.length = b.pieces.length - 1 ∧ b.Anchored) := by
    rintro ⟨hindex, ha⟩
    have hlen := congrArg List.length h.append_eq
    rw [List.length_append, List.length_cons] at hlen
    have hrest : rest = [] := List.length_eq_zero_iff.mp (by omega)
    rcases hnext with hne | hna
    · exact hne hrest
    · exact hna ha
  rcases turn?_of_not_anchored h.isLeast hlast literal with ⟨next, hturn', -⟩ | ⟨-, hno⟩
  · rw [hturn'] at hturn
    cases hturn
  · exact hno finish

/-- The scan of a text goes on from every state that it reaches. -/
theorem scan?_eq_scanFrom? (h : Reaches same b text done position rest) (hne : b.pieces ≠ []) :
    scan? same b text = scanFrom? same b text (b.pieces.length - 1) done.length position rest := by
  induction h with
  | start =>
      have hlen : 1 ≤ b.pieces.length := List.length_pos_iff.mpr hne
      rw [scan?, if_neg hne, difference?_eq hlen]
      rfl
  | goesOn _ hturn ih =>
      rw [ih, scanFrom?, hturn, List.length_append]
      rfl

end Reaches

/-! ### Scanning by positions and by what is left -/

theorem scanFrom?_middle {last index : ℕ} {middle : List (List Char)} (tail : List (List Char))
    (hin : position ≤ text.length) (hfree : ¬ (index = 0 ∧ b.Pinned))
    (hnext : index + middle.length ≤ last ∨ ¬ b.Anchored) :
    (∃ next, next ≤ text.length ∧
        skipAll same middle (text.drop position) = some (text.drop next) ∧
        scanFrom? same b text last index position (middle ++ tail) =
          scanFrom? same b text last (index + middle.length) next tail) ∨
      (skipAll same middle (text.drop position) = none ∧
        scanFrom? same b text last index position (middle ++ tail) = some false) := by
  induction middle generalizing index position with
  | nil => exact .inl ⟨position, hin, rfl, rfl⟩
  | cons piece middle ih =>
      rw [List.length_cons] at hnext ⊢
      have hpiece : ¬ (index = last ∧ b.Anchored) := by
        rintro ⟨rfl, ha⟩
        rcases hnext with hle | hna
        · omega
        · exact hna ha
      obtain ⟨found, hleft, hturn⟩ := turn?_between hfree hpiece piece
      cases found with
      | none =>
          right
          rw [skipAll, List.foldlM_cons, skipPast_drop hin hleft]
          rw [List.cons_append, scanFrom?, hturn]
          exact ⟨rfl, rfl⟩
      | some start =>
          have hskip : skipAll same (piece :: middle) (text.drop position) =
              skipAll same middle (text.drop (start + piece.length)) := by
            rw [skipAll, List.foldlM_cons, skipPast_drop hin hleft]
            rfl
          have hscan : scanFrom? same b text last index position (piece :: middle ++ tail) =
              scanFrom? same b text last (index + 1) (start + piece.length) (middle ++ tail) := by
            rw [List.cons_append, scanFrom?, hturn]
            rfl
          have hfree' : ¬ (index + 1 = 0 ∧ b.Pinned) := fun h => Nat.succ_ne_zero index h.1
          have hnext' : index + 1 + middle.length ≤ last ∨ ¬ b.Anchored :=
            hnext.imp_left fun hle => by omega
          rw [hskip, hscan, Nat.add_comm middle.length 1, ← Nat.add_assoc]
          exact ih hleft.1.2.end_le hfree' hnext'

theorem pieces_exact {literal : List Char} (h : (exact literal).WellFormed) :
    (exact literal).pieces = [literal].filter (· ≠ []) := by
  rw [pieces, Body.text, literals_of_not_mem h]

theorem pieces_starred {first last : List Char} {middle : List (List Char)}
    (h : (starred first middle last).WellFormed) :
    (starred first middle last).pieces =
      [first].filter (· ≠ []) ++ (middle ++ [last].filter (· ≠ [])) := by
  obtain ⟨hfirst, hmiddle, hlast⟩ := h
  have hkept : middle.filter (· ≠ []) = middle :=
    List.filter_eq_self.mpr fun piece hp => by simp [(hmiddle piece hp).1]
  rw [pieces, Body.text, literals_append_star hfirst, literals_flatMap_append hmiddle hlast]
  rw [← List.singleton_append, List.filter_append, List.filter_append, hkept]

theorem pinned_exact {literal : List Char} (h : (exact literal).WellFormed) :
    (exact literal).Pinned := by
  intro hhead
  exact h (List.mem_of_mem_head? hhead)

theorem anchored_exact {literal : List Char} (h : (exact literal).WellFormed) :
    (exact literal).Anchored := by
  intro hlast
  exact h (List.mem_of_getLast? hlast)

theorem pinned_starred_iff {first last : List Char} {middle : List (List Char)}
    (h : (starred first middle last).WellFormed) :
    (starred first middle last).Pinned ↔ first ≠ [] := by
  rw [Pinned, Body.text]
  cases first with
  | nil => simp
  | cons c first =>
      have hc := h.1
      simp only [List.mem_cons, not_or] at hc
      simp [Ne.symm hc.1]

theorem anchored_starred_iff {first last : List Char} {middle : List (List Char)}
    (h : (starred first middle last).WellFormed) :
    (starred first middle last).Anchored ↔ last ≠ [] := by
  have hend : ∀ pieces : List (List Char),
      ('*' :: pieces.flatMap fun piece => piece ++ ['*']).getLast? = some '*' := by
    intro pieces
    rcases List.eq_nil_or_concat pieces with rfl | ⟨pieces, piece, rfl⟩
    · rfl
    · simp [List.getLast?_cons, List.getLast?_append]
  rw [Anchored, Body.text, ← List.cons_append, List.getLast?_append, List.getLast?_append, hend]
  rcases List.eq_nil_or_concat last with rfl | ⟨before, c, rfl⟩
  · simp
  · have hc := h.2.2
    simp only [List.concat_eq_append, List.mem_append, List.mem_singleton, not_or] at hc
    simp [Ne.symm hc.2]

theorem endsWith_nil (text : List Char) : endsWith same [] text = true := by
  simp [endsWith, dropLiteral]

theorem scanFrom?_last {lastIndex index : ℕ} {last : List Char} (hin : position ≤ text.length)
    (hfree : ¬ (index = 0 ∧ b.Pinned)) (hlast : b.Anchored ↔ last ≠ [])
    (hindex : index + ([last].filter (· ≠ [])).length = lastIndex + 1) :
    scanFrom? same b text lastIndex index position ([last].filter (· ≠ [])) =
      some (endsWith same last (text.drop position)) := by
  by_cases hne : last = []
  · subst hne
    simp [scanFrom?, endsWith_nil]
  · have hkept : [last].filter (· ≠ []) = [last] := by simp [hne]
    rw [hkept, List.length_singleton] at hindex
    have hanchored : index = lastIndex ∧ b.Anchored := ⟨by omega, hlast.mpr hne⟩
    rw [hkept, scanFrom?, turn?_anchored hin hfree hanchored]
    rfl

theorem scanFrom?_rest {lastIndex index : ℕ} {middle : List (List Char)} {last : List Char}
    (hin : position ≤ text.length) (hfree : ¬ (index = 0 ∧ b.Pinned))
    (hlast : b.Anchored ↔ last ≠ [])
    (hindex : index + (middle ++ [last].filter (· ≠ [])).length = lastIndex + 1) :
    scanFrom? same b text lastIndex index position (middle ++ [last].filter (· ≠ [])) =
      some (match skipAll same middle (text.drop position) with
        | some rest => endsWith same last rest
        | none => false) := by
  rw [List.length_append, ← Nat.add_assoc] at hindex
  have hnext : index + middle.length ≤ lastIndex ∨ ¬ b.Anchored := by
    by_cases hne : last = []
    · exact .inr fun ha => hlast.mp ha hne
    · left
      simp [hne] at hindex
      omega
  rcases scanFrom?_middle ([last].filter (· ≠ [])) hin hfree hnext with
    ⟨next, hle, hskip, hscan⟩ | ⟨hskip, hscan⟩
  · have hfree' : ¬ (index + middle.length = 0 ∧ b.Pinned) := by
      rintro ⟨hzero, hp⟩
      exact hfree ⟨by omega, hp⟩
    rw [hscan, hskip, scanFrom?_last hle hfree' hlast hindex]
  · rw [hscan, hskip]

theorem scan?_of_ne_nil (hne : b.pieces ≠ []) :
    scan? same b text = scanFrom? same b text (b.pieces.length - 1) 0 0 b.pieces :=
  Reaches.scan?_eq_scanFrom? .start hne

theorem scan?_exact {literal : List Char} (hb : (exact literal).WellFormed) :
    scan? same (exact literal) text = some ((exact literal).accepts same text) := by
  have hpin := pinned_exact hb
  have hpieces := pieces_exact hb
  by_cases hne : literal = []
  · subst hne
    have hnone : (exact []).pieces = [] := hpieces
    rw [scan?, if_pos hnone]
    cases text <;> simp [hpin, accepts, dropLiteral]
  · have hkept : [literal].filter (· ≠ []) = [literal] := by simp [hne]
    have hlast : 0 = [literal].length - 1 ∧ (exact literal).Anchored := ⟨rfl, anchored_exact hb⟩
    rw [hkept] at hpieces
    rw [scan?_of_ne_nil (by simp [hpieces]), hpieces, scanFrom?]
    rw [turn?_pinned same _ text rfl hpin, if_pos hlast, startsWith_eq_isSome, accepts]
    cases hd : dropLiteral same literal text with
    | none => rfl
    | some rest =>
        obtain ⟨hle, rfl⟩ := dropLiteral_eq_drop same hd
        have hend : (literal.length == text.length) =
            (some (text.drop literal.length) == some []) := by
          rw [Bool.eq_iff_iff, beq_iff_eq, beq_iff_eq, Option.some_inj, List.drop_eq_nil_iff]
          omega
        exact congrArg some hend

theorem scan?_of_star {last : List Char} {middle : List (List Char)}
    (hb : (starred [] middle last).WellFormed) :
    scan? same (starred [] middle last) text =
      some ((starred [] middle last).accepts same text) := by
  have hpin : ¬ (starred [] middle last).Pinned := fun h => (pinned_starred_iff hb).mp h rfl
  have hpieces : (starred [] middle last).pieces = middle ++ [last].filter (· ≠ []) :=
    pieces_starred hb
  by_cases hnone : (starred [] middle last).pieces = []
  · rw [scan?, if_pos hnone]
    rw [hpieces] at hnone
    obtain ⟨rfl, rfl⟩ : middle = [] ∧ last = [] := by simpa using hnone
    simp [hpin, accepts, dropLiteral, skipAll, endsWith_nil]
  · have hlen : 1 ≤ (starred [] middle last).pieces.length := List.length_pos_iff.mpr hnone
    have hfree : ¬ (0 = 0 ∧ (starred [] middle last).Pinned) := fun h => hpin h.2
    rw [scan?_of_ne_nil hnone]
    rw [hpieces] at hlen ⊢
    rw [scanFrom?_rest (Nat.zero_le _) hfree (anchored_starred_iff hb) (by omega)]
    rfl

theorem scan?_of_literal {first last : List Char} {middle : List (List Char)}
    (hb : (starred first middle last).WellFormed) (hne : first ≠ []) :
    scan? same (starred first middle last) text =
      some ((starred first middle last).accepts same text) := by
  have hpin := (pinned_starred_iff hb).mpr hne
  have hanchored := anchored_starred_iff hb
  have hpieces : (starred first middle last).pieces =
      first :: (middle ++ [last].filter (· ≠ [])) := by
    rw [pieces_starred hb]
    simp [hne]
  have hlen : (starred first middle last).pieces.length - 1 =
      (middle ++ [last].filter (· ≠ [])).length := by
    rw [hpieces, List.length_cons, Nat.add_sub_cancel]
  have hnext : ¬ (0 = (middle ++ [last].filter (· ≠ [])).length ∧
      (starred first middle last).Anchored) := by
    rintro ⟨hzero, ha⟩
    simp [hanchored.mp ha] at hzero
  have hfree : ¬ (0 + 1 = 0 ∧ (starred first middle last).Pinned) := fun h =>
    Nat.succ_ne_zero 0 h.1
  rw [scan?_of_ne_nil (by simp [hpieces]), hlen, hpieces, scanFrom?,
    turn?_pinned same _ text rfl hpin, if_neg hnext, startsWith_eq_isSome, accepts]
  cases hd : dropLiteral same first text with
  | none => rfl
  | some rest =>
      obtain ⟨hle, rfl⟩ := dropLiteral_eq_drop same hd
      exact scanFrom?_rest hle hfree hanchored (Nat.add_comm _ _)

/-- **The scan by positions is never out of bounds and accepts what the scan by what is left
accepts.** -/
theorem scan?_eq (hb : b.WellFormed) : scan? same b text = some (b.accepts same text) := by
  cases b with
  | exact literal => exact scan?_exact hb
  | starred first middle last =>
      by_cases hne : first = []
      · subst hne
        exact scan?_of_star hb
      · exact scan?_of_literal hb hne

end scan

end Body

namespace Pattern

open Body

/-- **Between two literals the position is the least end of the literals so far.**  Every state that
the scan reaches is one of its run and has a next step; a literal that stops the scan, and need not
end the text, has no place with the ones before.  So no operation of the scan is out of bounds, and
its answer is that of `accepts`. -/
theorem scan_keeps_least_end (p : Pattern) (text : String) :
    (∀ done position rest, Reaches p.same p.body text.toList done position rest →
      done ++ rest = p.body.pieces ∧ position ≤ text.toList.length ∧
        IsLeast {finish | Placed (Alike p.same) text.toList p.body.Pinned done finish} position ∧
        (p.body.pieces ≠ [] →
          scan? p.same p.body text.toList = scanFrom? p.same p.body text.toList
            (p.body.pieces.length - 1) done.length position rest)) ∧
      (∀ done position literal rest,
        Reaches p.same p.body text.toList done position (literal :: rest) → ∃ turn,
          turn? p.same p.body text.toList (p.body.pieces.length - 1) done.length position literal =
            some turn ∧
          (turn = .answers false → rest ≠ [] ∨ ¬ p.body.Anchored → ∀ finish,
            ¬ Placed (Alike p.same) text.toList p.body.Pinned (done ++ [literal]) finish)) ∧
      scan? p.same p.body text.toList = some (p.accepts text) := by
  refine ⟨?_, ?_, scan?_eq p.wellFormed⟩
  · intro done position rest h
    exact ⟨h.append_eq, h.isLeast.1.end_le, h.isLeast, h.scan?_eq_scanFrom?⟩
  · intro done position literal rest h
    obtain ⟨turn, hturn⟩ := h.exists_turn?
    refine ⟨turn, hturn, ?_⟩
    rintro rfl hnext
    exact h.not_placed hturn hnext

/-- The second literal would have to overlap the first one, which the text holds only once. -/
theorem scan_keeps_least_end_overlap :
    Reaches (ofText "*ab*ba*").same (ofText "*ab*ba*").body "aaba".toList
        [['a', 'b']] 3 [['b', 'a']] ∧
      IsLeast {finish | Placed (Alike (ofText "*ab*ba*").same) "aaba".toList
        (ofText "*ab*ba*").body.Pinned [['a', 'b']] finish} 3 ∧
      turn? (ofText "*ab*ba*").same (ofText "*ab*ba*").body "aaba".toList
        ((ofText "*ab*ba*").body.pieces.length - 1) 1 3 ['b', 'a'] = some (.answers false) ∧
      ∀ finish, ¬ Placed (Alike (ofText "*ab*ba*").same) "aaba".toList
        (ofText "*ab*ba*").body.Pinned [['a', 'b'], ['b', 'a']] finish := by
  have hpieces : (ofText "*ab*ba*").body.pieces = [['a', 'b'], ['b', 'a']] := by decide
  have hstart : Reaches (ofText "*ab*ba*").same (ofText "*ab*ba*").body "aaba".toList
      [] 0 [['a', 'b'], ['b', 'a']] := hpieces ▸ .start
  have h : Reaches (ofText "*ab*ba*").same (ofText "*ab*ba*").body "aaba".toList
      [['a', 'b']] 3 [['b', 'a']] := .goesOn hstart (by decide)
  have hturn : turn? (ofText "*ab*ba*").same (ofText "*ab*ba*").body "aaba".toList
      ((ofText "*ab*ba*").body.pieces.length - 1) 1 3 ['b', 'a'] = some (.answers false) := by
    decide
  obtain ⟨hreached, hstopped, -⟩ := scan_keeps_least_end (ofText "*ab*ba*") "aaba"
  obtain ⟨-, -, hleast, -⟩ := hreached _ _ _ h
  obtain ⟨turn, hturn', hno⟩ := hstopped _ _ _ _ h
  have hfalse : turn = .answers false := Option.some.inj (hturn'.symm.trans hturn)
  exact ⟨h, hleast, hturn, hno hfalse (.inr (by decide))⟩

end Pattern

end AgentOptions
