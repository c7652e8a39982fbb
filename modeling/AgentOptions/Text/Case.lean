/-! # Letter case of keywords

Keywords (truth words, unit suffixes, severities, keys of files) are compared without regard to
the case of the letters `A` to `Z`; every other character stands for itself. -/

namespace AgentOptions.Text

/-- The text with `A` to `Z` replaced by `a` to `z`. -/
def smallLetters (s : String) : String := String.ofList (s.toList.map Char.toLower)

/-- The text with `a` to `z` replaced by `A` to `Z`. -/
def capitalLetters (s : String) : String := String.ofList (s.toList.map Char.toUpper)

/-- Equality up to the case of the letters `A` to `Z`. -/
def sameKeyword (s t : String) : Bool := smallLetters s == smallLetters t

end AgentOptions.Text
