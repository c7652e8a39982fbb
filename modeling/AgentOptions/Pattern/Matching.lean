import AgentOptions.Pattern.Basic

/-! # Matching a text against a pattern

The text is scanned once, from left to right: the first literal has to start it, each literal
between stars is looked for at its leftmost place in what is left, and the last literal has to end
what is left then.  Nothing is ever tried again.

The scan takes the comparison of two characters as a parameter.  `Pattern.same` is the comparison
of a pattern: equality and, unless the pattern is case-sensitive, equality of lower-case forms. -/

namespace AgentOptions

namespace Body

variable (same : Char → Char → Bool)

/-- What is left of a text that starts with the literal. -/
def dropLiteral : List Char → List Char → Option (List Char)
  | [], text => some text
  | _ :: _, [] => none
  | p :: literal, c :: text => if same c p then dropLiteral literal text else none

/-- What is left of a text after the leftmost place of the literal. -/
def skipPast (literal : List Char) : List Char → Option (List Char)
  | [] => dropLiteral same literal []
  | c :: text =>
    match dropLiteral same literal (c :: text) with
    | some rest => some rest
    | none => skipPast literal text

/-- What is left of a text after the literals, each at its leftmost place after the one before. -/
def skipAll (middle : List (List Char)) (text : List Char) : Option (List Char) :=
  middle.foldlM (fun rest literal => skipPast same literal rest) text

/-- The text ends with the literal. -/
def endsWith (literal text : List Char) : Bool :=
  literal.length ≤ text.length &&
    dropLiteral same literal (text.drop (text.length - literal.length)) == some []

/-- The body describes the whole text. -/
def accepts : Body → List Char → Bool
  | exact literal, text => dropLiteral same literal text == some []
  | starred first middle last, text =>
    match (dropLiteral same first text).bind (skipAll same middle) with
    | some rest => endsWith same last rest
    | none => false

end Body

namespace Pattern

/-- Two characters that the pattern does not tell apart. -/
def same (p : Pattern) (a b : Char) : Bool :=
  a == b || (!p.caseSensitive && Text.lowerCase a == Text.lowerCase b)

/-- The pattern describes the whole text. -/
def accepts (p : Pattern) (text : String) : Bool := p.body.accepts p.same text.toList

end Pattern

end AgentOptions
