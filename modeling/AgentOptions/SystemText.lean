import AgentOptions.Text.Utf8

/-! # Texts of the operating system

The content of a variable and the path of a file are bytes.  Mostly they encode a text; bytes that
encode none can still be cut at slashes, measured and shown.

`text?_ofBytes`: bytes are read as the text that they encode. -/

namespace AgentOptions

/-- A text, or bytes that encode none. -/
inductive SystemText where
  | text (s : String)
  | bytes (content : List UInt8)
  deriving DecidableEq

namespace SystemText

def ofBytes (content : List UInt8) : SystemText :=
  match Utf8.text? content with
  | some s => text s
  | none => bytes content

def text? : SystemText → Option String
  | text s => some s
  | bytes _ => none

/-- The text with the replacement character for what is no text. -/
def shown : SystemText → String
  | text s => s
  | bytes content => Utf8.replacingText content

/-- The number of bytes. -/
def size : SystemText → Nat
  | text s => s.utf8ByteSize
  | bytes content => content.length

/-- The parts between slashes; `n` slashes make `n + 1` parts, some of which may be empty. -/
def parts : SystemText → List SystemText
  | text s => (s.toList.splitOn '/').map fun part => text (String.ofList part)
  | bytes content => (content.splitOn 0x2F).map ofBytes

@[simp] theorem text?_ofBytes (content : List UInt8) :
    (ofBytes content).text? = Utf8.text? content := by
  unfold ofBytes
  split
  · next s hs => exact hs.symm
  · next hn => exact hn.symm

end SystemText

end AgentOptions
