/-! # Blanks and trimming

The blank characters are the 25 characters with the White_Space property.  Texts are cut at
blanks on either side (`trim`); a text is blank when nothing is left of it.

* `trimChars_eq_self_iff`: trimming leaves a text alone exactly when neither end is blank;
* `trimChars_idem`: trimming twice is trimming once. -/

namespace AgentOptions.Text

/-- The characters with the White_Space property. -/
def isBlank (c : Char) : Bool :=
  let n := c.toNat
  (0x09 ≤ n && n ≤ 0x0D) || n == 0x20 || n == 0x85 || n == 0xA0 || n == 0x1680 ||
    (0x2000 ≤ n && n ≤ 0x200A) || n == 0x2028 || n == 0x2029 || n == 0x202F || n == 0x205F ||
    n == 0x3000

/-- A text without its leading blanks. -/
def trimLeft (s : List Char) : List Char := s.dropWhile isBlank

/-- A text without its trailing blanks. -/
def trimRight (s : List Char) : List Char := (s.reverse.dropWhile isBlank).reverse

/-- A text without the blanks at its two ends. -/
def trimChars (s : List Char) : List Char := trimRight (trimLeft s)

/-- `trimChars` on strings. -/
def trim (s : String) : String := String.ofList (trimChars s.toList)

/-- Neither end of the text is a blank. -/
def Trimmed (s : List Char) : Prop :=
  (∀ c, s.head? = some c → isBlank c = false) ∧ (∀ c, s.getLast? = some c → isBlank c = false)

@[simp] theorem toList_trim (s : String) : (trim s).toList = trimChars s.toList := by
  simp [trim]

theorem head?_trimLeft (s : List Char) (c : Char) (h : (trimLeft s).head? = some c) :
    isBlank c = false := by
  unfold trimLeft at h
  have := List.head?_dropWhile_not isBlank s
  rw [h] at this
  simpa using this

theorem trimLeft_eq_self {s : List Char} (h : ∀ c, s.head? = some c → isBlank c = false) :
    trimLeft s = s := by
  cases s with
  | nil => rfl
  | cons c r => simp [trimLeft, h c rfl]

theorem trimRight_eq_self {s : List Char} (h : ∀ c, s.getLast? = some c → isBlank c = false) :
    trimRight s = s := by
  have : trimLeft s.reverse = s.reverse := trimLeft_eq_self (by simpa using h)
  simpa [trimRight, trimLeft] using congrArg List.reverse this

theorem getLast?_trimRight (s : List Char) (c : Char) (h : (trimRight s).getLast? = some c) :
    isBlank c = false :=
  head?_trimLeft s.reverse c (by simpa [trimRight, trimLeft] using h)

theorem trimRight_append_blanks (s : List Char) :
    ∃ t, s = trimRight s ++ t ∧ ∀ c ∈ t, isBlank c := by
  refine ⟨(s.reverse.takeWhile isBlank).reverse, ?_, ?_⟩
  · rw [trimRight, ← List.reverse_append, List.takeWhile_append_dropWhile, List.reverse_reverse]
  · intro c hc
    exact List.all_eq_true.1 List.all_takeWhile c (List.mem_reverse.1 hc)

theorem trimmed_trimChars (s : List Char) : Trimmed (trimChars s) := by
  refine ⟨fun c h => ?_, fun c h => getLast?_trimRight _ c h⟩
  obtain ⟨t, ht, _⟩ := trimRight_append_blanks (trimLeft s)
  refine head?_trimLeft s c ?_
  rw [ht]
  unfold trimChars at h
  cases hr : trimRight (trimLeft s) with
  | nil => simp [hr] at h
  | cons d r => simpa [hr] using h

theorem trimChars_eq_self_iff {s : List Char} : trimChars s = s ↔ Trimmed s := by
  constructor
  · intro h
    rw [← h]
    exact trimmed_trimChars s
  · intro h
    rw [trimChars, trimLeft_eq_self h.1, trimRight_eq_self h.2]

@[simp] theorem trimChars_idem (s : List Char) : trimChars (trimChars s) = trimChars s :=
  trimChars_eq_self_iff.2 (trimmed_trimChars s)

end AgentOptions.Text
