import AgentOptions.Pattern.Matching
import AgentOptions.Text.Pieces

/-! # Lists of patterns

A list is written as patterns between commas.  Every piece is trimmed and none is dropped, so an
empty piece is a pattern, the one that describes the empty text alone. -/

namespace AgentOptions

/-- Patterns in order of declaration. -/
structure PatternList where
  patterns : List Pattern
  deriving DecidableEq

namespace PatternList

/-- Reads the patterns between commas. -/
def ofText (s : String) : PatternList := ⟨(Text.commaPieces s).map Pattern.ofText⟩

/-- The canonical texts, with a comma and a space between two of them. -/
def text (l : PatternList) : String := ", ".intercalate (l.patterns.map Pattern.text)

/-- The first pattern that describes the text. -/
def firstMatch? (l : PatternList) (text : String) : Option Pattern :=
  l.patterns.find? (·.accepts text)

/-- Some pattern describes the text. -/
def anyMatches (l : PatternList) (text : String) : Bool := (l.firstMatch? text).isSome

end PatternList

end AgentOptions
