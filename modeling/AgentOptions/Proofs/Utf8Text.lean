import AgentOptions.Source

/-! # Texts as bytes

Every text is the text of a file, the one with the encoding of its characters one after another
(`FileContent.ofText`, `FileContent.text_ofText`).  The decoder takes one byte at a time, so what
it does with the encoding of a character is said for each number of bytes that a character has. -/

namespace AgentOptions

namespace Utf8

theorem toNat_ofNat {n : Nat} (h : n < 256) : (UInt8.ofNat n).toNat = n := by
  rw [UInt8.toNat_ofNat']
  exact Nat.mod_eq_of_lt h

theorem decodeFrom_cons (p : Option Partial) (b : UInt8) (bytes : List UInt8) :
    decodeFrom p (b :: bytes) = (step b.toNat p).1 ++ decodeFrom (step b.toNat p).2 bytes := by
  cases p with
  | none => rfl
  | some p => rfl

/-- The last byte of a sequence completes its character. -/
theorem decodeFrom_last {low high bits b : Nat} (hb : b < 256) (h : low ≤ b ∧ b ≤ high)
    (bytes : List UInt8) :
    decodeFrom (some ⟨0, low, high, bits⟩) (UInt8.ofNat b :: bytes) =
      some (Char.ofNat (bits * 64 + (b - 0x80))) :: decodeFrom none bytes := by
  rw [decodeFrom_cons, toNat_ofNat hb]
  simp only [step, h, and_self, if_true]
  rfl

/-- A byte in the middle of a sequence adds six bits to it. -/
theorem decodeFrom_middle {missing low high bits b : Nat} (hb : b < 256) (h : low ≤ b ∧ b ≤ high)
    (bytes : List UInt8) :
    decodeFrom (some ⟨missing + 1, low, high, bits⟩) (UInt8.ofNat b :: bytes) =
      decodeFrom (some ⟨missing, 0x80, 0xBF, bits * 64 + (b - 0x80)⟩) bytes := by
  rw [decodeFrom_cons, toNat_ofNat hb]
  simp only [step, h, and_self, if_true, Nat.add_eq_zero_iff, Nat.one_ne_zero, and_false,
    if_false, Nat.add_sub_cancel, List.nil_append]

theorem decodeFrom_first {b : Nat} {p : Partial} (hb : b < 256) (h : startOf b = .longer p)
    (bytes : List UInt8) :
    decodeFrom none (UInt8.ofNat b :: bytes) = decodeFrom (some p) bytes := by
  rw [decodeFrom_cons, toNat_ofNat hb]
  simp only [step, begin, h, List.nil_append]

/-! ### The first byte of a sequence -/

theorem startOf_two {b : Nat} (h : 0xC2 ≤ b ∧ b ≤ 0xDF) :
    startOf b = .longer ⟨0, 0x80, 0xBF, b - 0xC0⟩ := by
  rw [startOf, if_neg (by omega), if_pos h]

/-- A sequence of three bytes excludes characters with a shorter one, and the numbers that are no
characters. -/
theorem exists_startOf_three {b : Nat} (h : 0xE0 ≤ b ∧ b ≤ 0xEF) :
    ∃ low high, startOf b = .longer ⟨1, low, high, b - 0xE0⟩ ∧
      (low ≤ 0x80 ∨ b = 0xE0 ∧ low = 0xA0) ∧ (0xBF ≤ high ∨ b = 0xED ∧ high = 0x9F) := by
  unfold startOf
  rw [if_neg (by omega), if_neg (by omega)]
  split
  · next he => exact ⟨0xA0, 0xBF, by rw [he], .inr ⟨he, rfl⟩, .inl (by omega)⟩
  · split
    · next he => exact ⟨0x80, 0x9F, by rw [he], .inl (by omega), .inr ⟨he, rfl⟩⟩
    · rw [if_pos (by omega)]
      exact ⟨0x80, 0xBF, rfl, .inl (by omega), .inl (by omega)⟩

theorem exists_startOf_four {b : Nat} (h : 0xF0 ≤ b ∧ b ≤ 0xF4) :
    ∃ low high, startOf b = .longer ⟨2, low, high, b - 0xF0⟩ ∧
      (low ≤ 0x80 ∨ b = 0xF0 ∧ low = 0x90) ∧ (0xBF ≤ high ∨ b = 0xF4 ∧ high = 0x8F) := by
  unfold startOf
  rw [if_neg (by omega), if_neg (by omega), if_neg (by omega), if_neg (by omega),
    if_neg (by omega)]
  split
  · next he => exact ⟨0x90, 0xBF, by rw [he], .inr ⟨he, rfl⟩, .inl (by omega)⟩
  · split
    · exact ⟨0x80, 0xBF, rfl, .inl (by omega), .inl (by omega)⟩
    · have he : b = 0xF4 := by omega
      rw [if_pos he]
      exact ⟨0x80, 0x8F, by rw [he], .inl (by omega), .inr ⟨he, rfl⟩⟩

/-! ### Characters -/

theorem decodeFrom_utf8EncodeChar (c : Char) (bytes : List UInt8) :
    decodeFrom none (String.utf8EncodeChar c ++ bytes) = some c :: decodeFrom none bytes := by
  have hvalid : c.toNat < 0xD800 ∨ 0xDFFF < c.toNat ∧ c.toNat < 0x110000 := c.valid
  have hc : Char.ofNat c.toNat = c := Char.ofNat_toNat c
  have hv : c.val.toNat = c.toNat := rfl
  unfold String.utf8EncodeChar
  simp only [hv]
  generalize c.toNat = v at hvalid hc
  split
  · next h₁ =>
    have hstart : startOf v = .whole (Char.ofNat v) := by rw [startOf, if_pos (by omega)]
    rw [List.singleton_append, decodeFrom_cons, toNat_ofNat (by omega)]
    simp only [step, begin, hstart, hc, List.singleton_append]
  · split
    · next h₁ h₂ =>
      simp only [List.cons_append, List.nil_append]
      rw [decodeFrom_first (by omega) (startOf_two (by omega)),
        decodeFrom_last (by omega) (by omega)]
      have hbits : (v / 64 % 32 + 192 - 0xC0) * 64 + (v % 64 + 128 - 0x80) = v := by omega
      rw [hbits, hc]
    · split
      · next h₁ h₂ h₃ =>
        obtain ⟨low, high, hstart, hlow, hhigh⟩ :=
          exists_startOf_three (b := v / 4096 % 16 + 224) (by omega)
        simp only [List.cons_append, List.nil_append]
        rw [decodeFrom_first (by omega) hstart, decodeFrom_middle (by omega) (by omega),
          decodeFrom_last (by omega) (by omega)]
        have hbits : ((v / 4096 % 16 + 224 - 0xE0) * 64 + (v / 64 % 64 + 128 - 0x80)) * 64 +
            (v % 64 + 128 - 0x80) = v := by omega
        rw [hbits, hc]
      · next h₁ h₂ h₃ =>
        obtain ⟨low, high, hstart, hlow, hhigh⟩ :=
          exists_startOf_four (b := v / 262144 % 8 + 240) (by omega)
        simp only [List.cons_append, List.nil_append]
        rw [decodeFrom_first (by omega) hstart, decodeFrom_middle (by omega) (by omega),
          decodeFrom_middle (by omega) (by omega), decodeFrom_last (by omega) (by omega)]
        have hbits : (((v / 262144 % 8 + 240 - 0xF0) * 64 + (v / 4096 % 64 + 128 - 0x80)) * 64 +
            (v / 64 % 64 + 128 - 0x80)) * 64 + (v % 64 + 128 - 0x80) = v := by omega
        rw [hbits, hc]

theorem decode_flatMap_utf8EncodeChar (s : List Char) :
    decode (s.flatMap String.utf8EncodeChar) = s.map some := by
  unfold decode
  induction s with
  | nil => rfl
  | cons c s ih => rw [List.flatMap_cons, decodeFrom_utf8EncodeChar, ih, List.map_cons]

/-- **A text is read from its encoding.** -/
theorem text?_flatMap_utf8EncodeChar (s : String) :
    text? (s.toList.flatMap String.utf8EncodeChar) = some s := by
  have hmapM : ∀ l : List Char, (l.map some).mapM id = some l := by
    intro l
    induction l with
    | nil => rfl
    | cons c l ih => simp [ih]
  rw [text?, decode_flatMap_utf8EncodeChar, hmapM, Option.map_some, String.ofList_toList]

end Utf8

/-! ### Files -/

/-- The file that holds a text. -/
def FileContent.ofText (s : String) : FileContent :=
  .bytes (s.toList.flatMap String.utf8EncodeChar)

theorem FileContent.text_ofText (path s : String) : (ofText s).text path = .ok s := by
  simp only [FileContent.text, FileContent.ofText, Utf8.text?_flatMap_utf8EncodeChar]

end AgentOptions
