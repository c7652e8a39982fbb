/-! # UTF-8

Bytes are decoded one at a time.  `Utf8.decode` gives a character for every well-formed sequence
and `none` for every other piece of the input, where a piece is the longest start of a sequence
that could have been completed, or a single byte that starts none. -/

namespace AgentOptions.Utf8

/-- A sequence that is under way: how many bytes are missing, the bounds of the next one, and the
bits so far. -/
structure Partial where
  missing : Nat
  low : Nat
  high : Nat
  bits : Nat

/-- A byte at the start of a sequence: a whole character, the start of a longer sequence, or
neither. -/
inductive Start where
  | whole (c : Char)
  | longer (p : Partial)
  | invalid

def startOf (b : Nat) : Start :=
  if b < 0x80 then .whole (Char.ofNat b)
  else if 0xC2 ≤ b ∧ b ≤ 0xDF then .longer ⟨0, 0x80, 0xBF, b - 0xC0⟩
  else if b = 0xE0 then .longer ⟨1, 0xA0, 0xBF, 0⟩
  else if b = 0xED then .longer ⟨1, 0x80, 0x9F, 0xD⟩
  else if 0xE1 ≤ b ∧ b ≤ 0xEF then .longer ⟨1, 0x80, 0xBF, b - 0xE0⟩
  else if b = 0xF0 then .longer ⟨2, 0x90, 0xBF, 0⟩
  else if 0xF1 ≤ b ∧ b ≤ 0xF3 then .longer ⟨2, 0x80, 0xBF, b - 0xF0⟩
  else if b = 0xF4 then .longer ⟨2, 0x80, 0x8F, 4⟩
  else .invalid

/-- What a byte between two sequences gives, and the sequence that it leaves under way. -/
def begin (b : Nat) : List (Option Char) × Option Partial :=
  match startOf b with
  | .whole c => ([some c], none)
  | .longer p => ([], some p)
  | .invalid => ([none], none)

/-- What a byte gives after a sequence under way, if there is one. -/
def step (b : Nat) : Option Partial → List (Option Char) × Option Partial
  | none => begin b
  | some p =>
    if p.low ≤ b ∧ b ≤ p.high then
      let bits := p.bits * 64 + (b - 0x80)
      if p.missing = 0 then ([some (Char.ofNat bits)], none)
      else ([], some ⟨p.missing - 1, 0x80, 0xBF, bits⟩)
    else (none :: (begin b).1, (begin b).2)

/-- The pieces of the bytes that follow a sequence under way. -/
def decodeFrom : Option Partial → List UInt8 → List (Option Char)
  | none, [] => []
  | some _, [] => [none]
  | p, b :: bytes => (step b.toNat p).1 ++ decodeFrom (step b.toNat p).2 bytes

/-- The pieces of the input. -/
def decode (bytes : List UInt8) : List (Option Char) := decodeFrom none bytes

/-- The text that the bytes encode, if they are well-formed throughout. -/
def text? (bytes : List UInt8) : Option String := ((decode bytes).mapM id).map String.ofList

/-- The text of the bytes with the replacement character for every ill-formed piece. -/
def replacingText (bytes : List UInt8) : String :=
  String.ofList ((decode bytes).map fun c => c.getD (Char.ofNat 0xFFFD))

end AgentOptions.Utf8
