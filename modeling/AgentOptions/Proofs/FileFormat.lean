import AgentOptions.Proofs.ListText
import AgentOptions.Proofs.Utf8Text

/-! # The format of configuration files

What a file may hold, said without the reader: its lines (`lines`), those that say nothing
(`Idle`), those that assign a value to a key (`Assigns`), and the assignment that stands for a key
(`Stands`).  The reader takes exactly the files of which every line is one of the two, and gives
for every key the value that stands; of any other file it reports the first line that is neither.

Main statement: `assignments_of_text`. -/

namespace AgentOptions

theorem Bindings.lookup_filterMap {α β γ : Type} [BEq α] [LawfulBEq α] [DecidableEq α]
    (f : γ → Option (α × β)) (l : List γ) (a : α) :
    (l.filterMap f).lookup a = l.findSome? fun c => (f c).bind fun p =>
      if a = p.1 then some p.2 else none := by
  induction l with
  | nil => rfl
  | cons c l ih =>
      rw [List.filterMap_cons, List.findSome?_cons]
      cases f c with
      | none => exact ih
      | some p =>
          obtain ⟨k, v⟩ := p
          by_cases h : a = k
          · simp [h]
          · simp [lookup_cons_eq_ite, h, ih]

theorem forall_or_exists_first {α : Type} (p : α → Prop) (l : List α) :
    (∀ a ∈ l, p a) ∨
      ∃ before a after, l = before ++ a :: after ∧ (∀ b ∈ before, p b) ∧ ¬ p a := by
  induction l with
  | nil => exact .inl fun a h => absurd h List.not_mem_nil
  | cons a rest ih =>
      by_cases ha : p a
      · rcases ih with h | ⟨before, first, after, rfl, hb, hf⟩
        · exact .inl (List.forall_mem_cons.mpr ⟨ha, h⟩)
        · exact .inr ⟨a :: before, first, after, rfl, List.forall_mem_cons.mpr ⟨ha, hb⟩, hf⟩
      · exact .inr ⟨[], a, rest, rfl, fun b hb => absurd hb List.not_mem_nil, ha⟩

namespace ConfigFile

/-! ### Lines -/

/-- A list with all elements but the last changed. -/
def mapButLast {α : Type} (change : α → α) : List α → List α
  | [] => []
  | [a] => [a]
  | a :: b :: rest => change a :: mapButLast change (b :: rest)

theorem map_mapButLast {α β : Type} {change : α → α} {f : α → β} (h : ∀ a, f (change a) = f a) :
    ∀ l : List α, (mapButLast change l).map f = l.map f
  | [] => rfl
  | [_] => rfl
  | a :: b :: rest => by
      rw [mapButLast, List.map_cons, List.map_cons, h, map_mapButLast h (b :: rest)]

/-- A piece of a text without a carriage return at its end. -/
def dropReturn (piece : List Char) : List Char :=
  if piece.getLast? = some '\r' then piece.dropLast else piece

/-- The lines of a text, trimmed: what stands between line feeds, without one carriage return
before each of them. -/
def lines (content : String) : List (List Char) :=
  (mapButLast dropReturn (content.toList.splitOn '\n')).map Text.trimChars

/-- The text with a carriage return before every line feed. -/
def withReturns (content : String) : String :=
  String.ofList (content.toList.flatMap fun c => if c = '\n' then ['\r', '\n'] else [c])

theorem isBlank_of_mem_return : ∀ c ∈ ['\r'], Text.isBlank c := by
  intro c hc
  obtain rfl := List.mem_singleton.mp hc
  decide

theorem trimChars_append_return (piece : List Char) :
    Text.trimChars (piece ++ ['\r']) = Text.trimChars piece :=
  Text.trimChars_append_blanks isBlank_of_mem_return piece

theorem trimChars_dropReturn (piece : List Char) :
    Text.trimChars (dropReturn piece) = Text.trimChars piece := by
  unfold dropReturn
  split
  · next h =>
    obtain ⟨shorter, rfl⟩ := List.getLast?_eq_some_iff.mp h
    rw [List.dropLast_concat, trimChars_append_return]
  · rfl

/-- A carriage return is a blank, so the reader need not drop it. -/
theorem trimmedLines_eq_lines (content : String) : trimmedLines content = lines content :=
  (map_mapButLast trimChars_dropReturn _).symm

theorem mem_lines_iff {content : String} {line : List Char} :
    line ∈ lines content ↔ ∃ piece ∈ content.toList.splitOn '\n', Text.trimChars piece = line := by
  rw [← trimmedLines_eq_lines]
  exact List.mem_map

theorem mapButLast_modifyHead {α : Type} (change f : α → α)
    (h : ∀ a, change (f a) = f (change a)) :
    ∀ l : List α, mapButLast change (l.modifyHead f) = (mapButLast change l).modifyHead f
  | [] => rfl
  | [_] => rfl
  | a :: b :: rest => by simp [mapButLast, h]

theorem splitOn_returns (s : List Char) :
    (s.flatMap fun c => if c = '\n' then ['\r', '\n'] else [c]).splitOn '\n' =
      mapButLast (· ++ ['\r']) (s.splitOn '\n') := by
  induction s with
  | nil => rfl
  | cons c r ih =>
      rw [List.flatMap_cons, List.splitOn_cons_eq_if_modifyHead]
      by_cases hc : c = '\n'
      · subst hc
        obtain ⟨p, ps, hp⟩ := List.exists_cons_of_ne_nil (List.splitOn_ne_nil '\n' r)
        rw [hp] at ih ⊢
        simp only [if_true, List.cons_append, List.nil_append,
          List.splitOn_cons_eq_if_modifyHead, ih, beq_self_eq_true, mapButLast]
        rfl
      · have hbeq : (c == '\n') = false := beq_false_of_ne hc
        simp only [if_neg hc, hbeq, List.singleton_append, List.splitOn_cons_eq_if_modifyHead, ih,
          Bool.false_eq_true, if_false]
        exact (mapButLast_modifyHead (· ++ ['\r']) (List.cons c) (fun _ => rfl) _).symm

theorem trimmedLines_withReturns (content : String) :
    trimmedLines (withReturns content) = trimmedLines content := by
  unfold trimmedLines withReturns
  rw [String.toList_ofList, splitOn_returns]
  exact map_mapButLast trimChars_append_return _

/-! ### What a line says -/

/-- A letter, a digit, `_`, `.` or `-`. -/
def KeyChar (c : Char) : Prop :=
  ('A' ≤ c ∧ c ≤ 'Z') ∨ ('a' ≤ c ∧ c ≤ 'z') ∨ ('0' ≤ c ∧ c ≤ '9') ∨ c = '_' ∨ c = '.' ∨ c = '-'

/-- What is left of a text without one pair of equal quotes around it. -/
inductive Unquotes : List Char → List Char → Prop
  | quoted {quote : Char} {value : List Char} : quote = '"' ∨ quote = '\'' →
      Unquotes (quote :: (value ++ [quote])) value
  | bare {text : List Char} :
      (∀ quote value, quote = '"' ∨ quote = '\'' → text ≠ quote :: (value ++ [quote])) →
      Unquotes text text

/-- A line without a meaning: an empty one, a comment or a section header. -/
inductive Idle : List Char → Prop
  | empty : Idle []
  | comment {mark : Char} {rest : List Char} : mark = ';' ∨ mark = '#' → Idle (mark :: rest)
  | header {inner : List Char} : Idle ('[' :: (inner ++ [']']))

/-- A line with a key, blanks, `=` and a rest.  It gives the key in small letters the rest, trimmed
and without quotes. -/
inductive Assigns : List Char → String → String → Prop
  | mk {key blanks rest value : List Char} : key ≠ [] → (∀ c ∈ key, KeyChar c) →
      (∀ c ∈ blanks, Text.isBlank c) → Unquotes (Text.trimChars rest) value →
      Assigns (key ++ (blanks ++ '=' :: rest)) (String.ofList (key.map Char.toLower))
        (String.ofList value)

/-- A line that a file may hold. -/
def Legal (line : List Char) : Prop := Idle line ∨ ∃ key value, Assigns line key value

/-- The value that the last of the lines with an assignment to the key gives it. -/
def Stands (lines : List (List Char)) (key value : String) : Prop :=
  ∃ before line after, lines = before ++ line :: after ∧ Assigns line key value ∧
    ∀ later ∈ after, ∀ other, ¬ Assigns later key other

/-! ### Reading a line -/

theorem isKeyChar_iff {c : Char} : isKeyChar c = true ↔ KeyChar c := by
  have hupper : c.isUpper = true ↔ 'A' ≤ c ∧ c ≤ 'Z' := decide_eq_true_iff
  have hlower : c.isLower = true ↔ 'a' ≤ c ∧ c ≤ 'z' := by
    change (decide ('a' ≤ c) && decide (c ≤ 'z')) = true ↔ _
    rw [Bool.and_eq_true, decide_eq_true_iff, decide_eq_true_iff]
  have hdigit : c.isDigit = true ↔ '0' ≤ c ∧ c ≤ '9' := by
    change (decide ('0' ≤ c) && decide (c ≤ '9')) = true ↔ _
    rw [Bool.and_eq_true, decide_eq_true_iff, decide_eq_true_iff]
  change (((c.isUpper || c.isLower) || c.isDigit) || c == '_' || c == '.' || c == '-') = true ↔ _
  simp only [Bool.or_eq_true, hupper, hlower, hdigit, beq_iff_eq, or_assoc, KeyChar]

theorem KeyChar.isBlank_eq_false {c : Char} (h : KeyChar c) : Text.isBlank c = false := by
  have hnumber : ¬ Text.isBlank c = true ∨ c.toNat ≤ 32 ∨ 133 ≤ c.toNat := by
    simp only [Text.isBlank, Bool.or_eq_true, Bool.and_eq_true, decide_eq_true_eq, beq_iff_eq]
    omega
  rw [← Bool.not_eq_true]
  refine hnumber.resolve_right ?_
  rcases h with ⟨hlow, hhigh⟩ | ⟨hlow, hhigh⟩ | ⟨hlow, hhigh⟩ | rfl | rfl | rfl
  · have hlow : 65 ≤ c.toNat := hlow
    have hhigh : c.toNat ≤ 90 := hhigh
    omega
  · have hlow : 97 ≤ c.toNat := hlow
    have hhigh : c.toNat ≤ 122 := hhigh
    omega
  · have hlow : 48 ≤ c.toNat := hlow
    have hhigh : c.toNat ≤ 57 := hhigh
    omega
  · decide
  · decide
  · decide

theorem isKeyChar_of_isBlank {c : Char} (h : Text.isBlank c = true) : isKeyChar c = false := by
  rw [← Bool.not_eq_true, isKeyChar_iff]
  intro hkey
  rw [hkey.isBlank_eq_false] at h
  cases h

theorem isKeyChar_of_head?_eq_some {blanks rest : List Char} (h : ∀ c ∈ blanks, Text.isBlank c)
    {c : Char} (hc : (blanks ++ '=' :: rest).head? = some c) : isKeyChar c = false := by
  cases blanks with
  | nil =>
      obtain rfl : '=' = c := Option.some.inj hc
      decide
  | cons d blanks =>
      obtain rfl : d = c := Option.some.inj hc
      exact isKeyChar_of_isBlank (h d List.mem_cons_self)

theorem unquote_of_unquotes {text value : List Char} (h : Unquotes text value) :
    unquote text = value := by
  cases h with
  | @quoted quote value hq =>
      obtain ⟨d, r, hr⟩ := List.exists_cons_of_ne_nil (l := value ++ [quote]) (by simp)
      have hlast : (d :: r).getLast? = some quote := by rw [← hr, List.getLast?_concat]
      have hinner : (d :: r).dropLast = value := by rw [← hr, List.dropLast_concat]
      rw [hr, unquote, if_pos ⟨hq, hlast⟩, hinner]
      exact List.cons_ne_nil d r
  | bare hbare =>
      unfold unquote
      split
      · rfl
      · rfl
      · next first rest hne =>
        split
        · next hquotes =>
          obtain ⟨inner, hinner⟩ := List.getLast?_eq_some_iff.mp hquotes.2
          exact absurd (congrArg (first :: ·) hinner) (hbare first inner hquotes.1)
        · rfl

theorem unquotes_unquote (text : List Char) : Unquotes text (unquote text) := by
  by_cases h : ∃ quote value, (quote = '"' ∨ quote = '\'') ∧ text = quote :: (value ++ [quote])
  · obtain ⟨quote, value, hq, rfl⟩ := h
    have hu : Unquotes (quote :: (value ++ [quote])) value := .quoted hq
    rw [unquote_of_unquotes hu]
    exact hu
  · have hu : Unquotes text text :=
      .bare fun quote value hq ht => h ⟨quote, value, hq, ht⟩
    rw [unquote_of_unquotes hu]
    exact hu

theorem idle_iff {line : List Char} : Idle line ↔ isIdle line = true := by
  constructor
  · intro h
    cases h with
    | empty => rfl
    | comment hmark =>
        rcases hmark with rfl | rfl
        · rfl
        · rfl
    | header => simp [isIdle, List.getLast?_cons]
  · intro h
    unfold isIdle at h
    split at h
    · exact .empty
    · next first rest =>
      simp only [Bool.or_eq_true, Bool.and_eq_true, beq_iff_eq] at h
      rcases h with h | ⟨rfl, h⟩
      · exact .comment h
      · obtain ⟨inner, hinner⟩ := List.getLast?_eq_some_iff.mp h
        cases inner with
        | nil => cases hinner
        | cons d inner =>
            obtain ⟨rfl, rfl⟩ := List.cons.inj hinner
            exact .header

theorem span_of_boundary {α : Type} {p : α → Bool} {body rest : List α}
    (inside : ∀ a ∈ body, p a = true) (boundary : ∀ a, rest.head? = some a → p a = false) :
    (body ++ rest).takeWhile p = body ∧ (body ++ rest).dropWhile p = rest := by
  rw [List.takeWhile_append_of_pos inside, List.dropWhile_append_of_pos inside]
  cases rest with
  | nil => simp
  | cons a rest => simp [boundary a rfl]

theorem assigns_iff {line : List Char} {key value : String} :
    Assigns line key value ↔ assignment? line = some (key, value) := by
  constructor
  · rintro @⟨key, blanks, rest, value, hne, hkey, hblank, hvalue⟩
    have hend : ∀ c, (blanks ++ '=' :: rest).head? = some c → isKeyChar c = false :=
      fun c => isKeyChar_of_head?_eq_some hblank
    obtain ⟨htake, hdrop⟩ := span_of_boundary (fun c hc => isKeyChar_iff.mpr (hkey c hc)) hend
    have htrim : Text.trimLeft (blanks ++ '=' :: rest) = '=' :: rest :=
      (span_of_boundary hblank fun c hc => by
        obtain rfl : '=' = c := Option.some.inj hc
        decide).2
    simp only [assignment?, htake, hdrop, htrim, if_neg hne, unquote_of_unquotes hvalue]
  · intro h
    simp only [assignment?] at h
    split at h
    · cases h
    · next hne =>
      split at h
      · next rest htrim =>
        obtain ⟨rfl, rfl⟩ := Prod.mk.inj (Option.some.inj h)
        have hline : line.takeWhile isKeyChar ++
            ((line.dropWhile isKeyChar).takeWhile Text.isBlank ++ '=' :: rest) = line := by
          rw [← htrim, Text.trimLeft, List.takeWhile_append_dropWhile,
            List.takeWhile_append_dropWhile]
        have hkey : ∀ c ∈ line.takeWhile isKeyChar, KeyChar c := fun c hc =>
          isKeyChar_iff.mp (List.all_eq_true.mp List.all_takeWhile c hc)
        have hblank : ∀ c ∈ (line.dropWhile isKeyChar).takeWhile Text.isBlank, Text.isBlank c :=
          List.all_eq_true.mp List.all_takeWhile
        have hassigns := Assigns.mk hne hkey hblank (unquotes_unquote (Text.trimChars rest))
        rw [hline] at hassigns
        exact hassigns
      · cases h

theorem Assigns.exists_head {line : List Char} {key value : String} (h : Assigns line key value) :
    ∃ c rest, line = c :: rest ∧ KeyChar c := by
  rcases h with @⟨chars, blanks, rest, -, hne, hkey, -, -⟩
  obtain ⟨c, chars, rfl⟩ := List.exists_cons_of_ne_nil hne
  exact ⟨c, chars ++ (blanks ++ '=' :: rest), rfl, hkey c List.mem_cons_self⟩

theorem Idle.not_assigns {line : List Char} (h : Idle line) (key value : String) :
    ¬ Assigns line key value := by
  intro ha
  obtain ⟨c, rest, hline, hc⟩ := ha.exists_head
  have hc : isKeyChar c = true := isKeyChar_iff.mpr hc
  cases h with
  | empty => cases hline
  | comment hmark =>
      obtain ⟨rfl, -⟩ := List.cons.inj hline
      rcases hmark with rfl | rfl
      · exact absurd hc (by decide)
      · exact absurd hc (by decide)
  | header =>
      obtain ⟨rfl, -⟩ := List.cons.inj hline
      exact absurd hc (by decide)

theorem assignment?_eq_none_iff {line : List Char} :
    assignment? line = none ↔ ∀ key value, ¬ Assigns line key value := by
  simp only [assigns_iff, Option.eq_none_iff_forall_ne_some, Prod.forall, ne_eq]

/-! ### Reading lines -/

/-- One step of the reader on a line that a file may hold. -/
theorem readLines_cons_of_legal {line : List Char} (h : Legal line) (number : Nat)
    (rest : List (List Char)) :
    readLines number (line :: rest) =
      (readLines (number + 1) rest).map ((assignment? line).toList ++ ·) := by
  rw [readLines]
  rcases h with h | ⟨key, value, h⟩
  · have hnone : assignment? line = none := assignment?_eq_none_iff.mpr h.not_assigns
    rw [if_pos (idle_iff.mp h), hnone]
    cases readLines (number + 1) rest with
    | error e => rfl
    | ok assignments => rfl
  · have hidle : ¬ isIdle line = true := fun hi => (idle_iff.mpr hi).not_assigns key value h
    rw [if_neg hidle, assigns_iff.mp h]
    rfl

/-- One step of the reader on any other line: it stops. -/
theorem readLines_cons_of_not_legal {line : List Char} (h : ¬ Legal line) (number : Nat)
    (rest : List (List Char)) :
    readLines number (line :: rest) = .error ⟨number, String.ofList line⟩ := by
  have hidle : ¬ isIdle line = true := fun hi => h (.inl (idle_iff.mpr hi))
  have hnone : assignment? line = none :=
    assignment?_eq_none_iff.mpr fun key value ha => h (.inr ⟨key, value, ha⟩)
  rw [readLines, if_neg hidle, hnone]

theorem readLines_of_legal {lines : List (List Char)} (h : ∀ line ∈ lines, Legal line)
    (number : Nat) : readLines number lines = .ok (lines.filterMap assignment?) := by
  induction lines generalizing number with
  | nil => rfl
  | cons line rest ih =>
      rw [List.forall_mem_cons] at h
      rw [readLines_cons_of_legal h.1, ih h.2, List.filterMap_cons]
      cases assignment? line with
      | none => rfl
      | some a => rfl

/-- The first line that no file may hold is reported, whatever follows it. -/
theorem readLines_of_not_legal {before : List (List Char)} {line : List Char}
    (hb : ∀ b ∈ before, Legal b) (hl : ¬ Legal line) (number : Nat) (after : List (List Char)) :
    readLines number (before ++ line :: after) =
      .error ⟨number + before.length, String.ofList line⟩ := by
  -- Each legal line in front raises the number by one and adds only to what is thrown away.
  induction before generalizing number with
  | nil => exact readLines_cons_of_not_legal hl number after
  | cons b before ih =>
      rw [List.forall_mem_cons] at hb
      have hnumber : number + 1 + before.length = number + (b :: before).length := by
        rw [List.length_cons]
        omega
      rw [List.cons_append, readLines_cons_of_legal hb.1, ih hb.2, hnumber]
      rfl

theorem readLines_eq_ok_iff (number : Nat) {lines : List (List Char)}
    {assignments : List (String × String)} :
    readLines number lines = .ok assignments ↔
      (∀ line ∈ lines, Legal line) ∧ assignments = lines.filterMap assignment? := by
  rcases forall_or_exists_first Legal lines with h | ⟨before, line, after, rfl, hb, hl⟩
  · rw [readLines_of_legal h, Except.ok.injEq, eq_comm]
    exact (and_iff_right h).symm
  · rw [readLines_of_not_legal hb hl]
    constructor
    · intro h
      cases h
    · rintro ⟨h, -⟩
      exact absurd (h line (by simp)) hl

theorem readLines_eq_error_iff {number : Nat} {lines : List (List Char)} {fault : Malformed} :
    readLines number lines = .error fault ↔
      ∃ before line after, lines = before ++ line :: after ∧ (∀ b ∈ before, Legal b) ∧
        ¬ Legal line ∧ fault = ⟨number + before.length, String.ofList line⟩ := by
  constructor
  · intro h
    rcases forall_or_exists_first Legal lines with hall | ⟨before, line, after, rfl, hb, hl⟩
    · rw [readLines_of_legal hall] at h
      cases h
    · rw [readLines_of_not_legal hb hl] at h
      exact ⟨before, line, after, rfl, hb, hl, (Except.error.inj h).symm⟩
  · rintro ⟨before, line, after, rfl, hb, hl, rfl⟩
    exact readLines_of_not_legal hb hl number after

/-! ### Looking keys up -/

/-- What a line gives a key. -/
def given? (key : String) (line : List Char) : Option String :=
  (assignment? line).bind fun a => if key = a.1 then some a.2 else none

theorem given?_eq_some_iff {key value : String} {line : List Char} :
    given? key line = some value ↔ Assigns line key value := by
  rw [assigns_iff, given?]
  cases assignment? line with
  | none => simp
  | some a => simp [Prod.ext_iff, eq_comm]

theorem value?_filterMap_iff {lines : List (List Char)} {key value : String} :
    value? (lines.filterMap assignment?) key = some value ↔ Stands lines key value := by
  have hvalue : value? (lines.filterMap assignment?) key =
      lines.reverse.findSome? (given? key) := by
    rw [value?, ← List.filterMap_reverse, Bindings.lookup_filterMap]
    rfl
  have hnone : ∀ line, given? key line = none ↔ ∀ other, ¬ Assigns line key other := by
    intro line
    simp only [Option.eq_none_iff_forall_ne_some, ne_eq, given?_eq_some_iff]
  rw [hvalue, List.findSome?_eq_some_iff]
  constructor
  · rintro ⟨after, line, before, hlines, hline, hafter⟩
    refine ⟨before.reverse, line, after.reverse, ?_, given?_eq_some_iff.mp hline, ?_⟩
    · rw [← List.reverse_reverse lines, hlines]
      simp
    · intro later hl
      exact (hnone later).mp (hafter later (List.mem_reverse.mp hl))
  · rintro ⟨before, line, after, rfl, hline, hafter⟩
    refine ⟨after.reverse, line, before.reverse, by simp, given?_eq_some_iff.mpr hline, ?_⟩
    intro later hl
    exact (hnone later).mpr (hafter later (List.mem_reverse.mp hl))

theorem mem_keys_filterMap_iff {lines : List (List Char)} {key : String} :
    key ∈ keys (lines.filterMap assignment?) ↔ ∃ line ∈ lines, ∃ value, Assigns line key value := by
  simp only [keys, List.mem_mergeSort, List.mem_eraseDups, List.mem_map, List.mem_filterMap,
    Prod.exists, exists_and_right, exists_eq_right, assigns_iff]
  constructor
  · rintro ⟨value, line, hline, ha⟩
    exact ⟨line, hline, value, ha⟩
  · rintro ⟨line, hline, value, ha⟩
    exact ⟨value, line, hline, ha⟩

/-! ### Files -/

section

variable {path content : String} {file : FileContent} (h : file.text path = .ok content)

include h

theorem assignments_eq :
    file.assignments path =
      (readLines 1 (lines content)).mapError (SourceError.malformed path) := by
  rw [FileContent.assignments, h, ← trimmedLines_eq_lines]
  unfold ConfigFile.read
  cases hr : readLines 1 (trimmedLines content) with
  | ok assignments => simp only [hr, Except.mapError]
  | error fault => simp only [hr, Except.mapError]

theorem assignments_eq_ok_iff {assignments : List (String × String)} :
    file.assignments path = .ok assignments ↔
      (∀ line ∈ lines content, Legal line) ∧
        assignments = (lines content).filterMap assignment? := by
  rw [assignments_eq h, ← readLines_eq_ok_iff 1]
  cases readLines 1 (lines content) with
  | ok found => simp [Except.mapError]
  | error fault => simp [Except.mapError]

theorem assignments_eq_error_iff {error : SourceError} :
    file.assignments path = .error error ↔
      ∃ before line after, lines content = before ++ line :: after ∧ (∀ b ∈ before, Legal b) ∧
        ¬ Legal line ∧ error = .malformed path ⟨before.length + 1, String.ofList line⟩ := by
  rw [assignments_eq h]
  constructor
  · intro he
    cases hr : readLines 1 (lines content) with
    | ok found => simp [hr, Except.mapError] at he
    | error fault =>
        obtain ⟨before, line, after, hlines, hb, hl, rfl⟩ := readLines_eq_error_iff.mp hr
        rw [hr] at he
        refine ⟨before, line, after, hlines, hb, hl, ?_⟩
        rw [Nat.add_comm]
        exact (Except.error.inj he).symm
  · rintro ⟨before, line, after, hlines, hb, hl, rfl⟩
    rw [hlines, readLines_of_not_legal hb hl, Nat.add_comm]
    rfl

end

/-- **The format, accepted and read exactly.**  A file is read if and only if all its lines are
empty, comments, headers or assignments.  Its keys are then those that a line assigns to, and the
value of a key is that of the last such line.  Otherwise the error names the first other line,
with its number from 1 and its trimmed text.  Carriage returns before the line feeds change
nothing. -/
theorem assignments_of_text (path content : String) (file : FileContent)
    (h : file.text path = .ok content) :
    ((∃ assignments, file.assignments path = .ok assignments) ↔
      ∀ line ∈ lines content, Legal line) ∧
    (∀ assignments, file.assignments path = .ok assignments →
      (∀ key, key ∈ keys assignments ↔ ∃ line ∈ lines content, ∃ value, Assigns line key value) ∧
      ∀ key value, value? assignments key = some value ↔ Stands (lines content) key value) ∧
    (∀ error, file.assignments path = .error error ↔
      ∃ before line after, lines content = before ++ line :: after ∧ (∀ b ∈ before, Legal b) ∧
        ¬ Legal line ∧ error = .malformed path ⟨before.length + 1, String.ofList line⟩) ∧
    ∀ other : FileContent, other.text path = .ok (withReturns content) →
      other.assignments path = file.assignments path := by
  refine ⟨⟨?_, fun hall => ⟨_, (assignments_eq_ok_iff h).mpr ⟨hall, rfl⟩⟩⟩, ?_,
    fun error => assignments_eq_error_iff h, ?_⟩
  · rintro ⟨assignments, ha⟩
    exact ((assignments_eq_ok_iff h).mp ha).1
  · intro assignments ha
    obtain ⟨-, rfl⟩ := (assignments_eq_ok_iff h).mp ha
    exact ⟨fun key => mem_keys_filterMap_iff, fun key value => value?_filterMap_iff⟩
  · intro other ho
    rw [assignments_eq ho, assignments_eq h, ← trimmedLines_eq_lines, ← trimmedLines_eq_lines,
      trimmedLines_withReturns]

/-- A key in two letter cases, with two layers of quotes and then without a value. -/
def assignedTwice : String :=
  "; agent\r\n[elastic]\nElastic_Otel.Enabled\u00a0= \"'no'\" \r\nelastic_otel.enabled=\n"

theorem assignments_of_text_assigned_twice :
    (FileContent.ofText assignedTwice).text "agent.ini" = .ok assignedTwice ∧
      (∀ line ∈ lines assignedTwice, Legal line) ∧
      Stands (lines assignedTwice) "elastic_otel.enabled" "" ∧
      (FileContent.ofText (withReturns assignedTwice)).assignments "agent.ini" =
        .ok [("elastic_otel.enabled", "'no'"), ("elastic_otel.enabled", "")] := by
  have htext := FileContent.text_ofText "agent.ini" assignedTwice
  have hread : (FileContent.ofText assignedTwice).assignments "agent.ini" =
      .ok [("elastic_otel.enabled", "'no'"), ("elastic_otel.enabled", "")] := by
    decide +kernel
  obtain ⟨haccepted, hvalues, -, hreturns⟩ := assignments_of_text "agent.ini" _ _ htext
  have hlast := (hvalues _ hread).2 "elastic_otel.enabled" ""
  exact ⟨htext, haccepted.mp ⟨_, hread⟩, hlast.mp (by decide),
    (hreturns _ (FileContent.text_ofText _ _)).trans hread⟩

example : (FileContent.ofText "\n; agent\n[elastic \nenabled\n").assignments "agent.ini" =
    .error (.malformed "agent.ini" ⟨3, "[elastic"⟩) := by
  decide +kernel

end ConfigFile

end AgentOptions
