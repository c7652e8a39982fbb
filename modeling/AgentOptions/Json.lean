import AgentOptions.Decimal.Layout
import AgentOptions.Integer

/-! # JSON documents

Documents and their two written forms: `Json.compact` without any blanks, and `Json.pretty` with
one element a line, two blanks deeper at each level.  Strings escape the quote, the backslash and
the control characters below U+0020; numbers that are not finite are written `null`. -/

namespace AgentOptions

inductive Json where
  | null
  | bool (b : Bool)
  | integer (n : Int)
  | number (x : Binary64)
  | string (s : String)
  | array (items : List Json)
  | object (members : List (String × Json))

namespace Json

/-! ### Strings and numbers -/

/-- One hexadecimal digit, `a` to `f` in small letters. -/
def hexDigit (n : Nat) : Char := Nat.digitChar n

/-- A character inside a JSON string. -/
def escape (c : Char) : List Char :=
  if c = '"' then ['\\', '"']
  else if c = '\\' then ['\\', '\\']
  else if c.toNat = 0x08 then ['\\', 'b']
  else if c.toNat = 0x09 then ['\\', 't']
  else if c.toNat = 0x0A then ['\\', 'n']
  else if c.toNat = 0x0C then ['\\', 'f']
  else if c.toNat = 0x0D then ['\\', 'r']
  else if c.toNat < 0x20 then
    ['\\', 'u', '0', '0', hexDigit (c.toNat / 16), hexDigit (c.toNat % 16)]
  else [c]

/-- A string between quotes. -/
def quote (s : String) : List Char := '"' :: (s.toList.flatMap escape ++ ['"'])

/-- A double; what is not finite is written `null`. -/
def numberText (x : Binary64) : List Char :=
  if x.isFinite then (Decimal.document.text x).toList else "null".toList

/-! ### Written forms -/

mutual

/-- The document without blanks. -/
def compactChars : Json → List Char
  | array [] => ['[', ']']
  | array (item :: items) => '[' :: (compactChars item ++ compactItems items)
  | object [] => ['{', '}']
  | object ((key, value) :: members) =>
    '{' :: (quote key ++ ':' :: (compactChars value ++ compactMembers members))
  | null => "null".toList
  | bool b => if b then "true".toList else "false".toList
  | integer n => Integer.digits n
  | number x => numberText x
  | string s => quote s

/-- The further items of an array, and its end. -/
def compactItems : List Json → List Char
  | [] => [']']
  | item :: items => ',' :: (compactChars item ++ compactItems items)

/-- The further members of an object, and its end. -/
def compactMembers : List (String × Json) → List Char
  | [] => ['}']
  | (key, value) :: members =>
    ',' :: (quote key ++ ':' :: (compactChars value ++ compactMembers members))

end

/-- A new line that starts at the given depth. -/
def newLine (depth : Nat) : List Char := '\n' :: List.replicate (2 * depth) ' '

mutual

/-- The document with one element a line, its first line at the given depth. -/
def prettyChars (depth : Nat) : Json → List Char
  | array [] => ['[', ']']
  | array (item :: items) =>
    '[' :: (newLine (depth + 1) ++ prettyChars (depth + 1) item ++ prettyItems depth items)
  | object [] => ['{', '}']
  | object ((key, value) :: members) =>
    '{' :: (newLine (depth + 1) ++ quote key ++ ':' :: ' ' ::
      (prettyChars (depth + 1) value ++ prettyMembers depth members))
  | null => "null".toList
  | bool b => if b then "true".toList else "false".toList
  | integer n => Integer.digits n
  | number x => numberText x
  | string s => quote s

def prettyItems (depth : Nat) : List Json → List Char
  | [] => newLine depth ++ [']']
  | item :: items =>
    ',' :: (newLine (depth + 1) ++ prettyChars (depth + 1) item ++ prettyItems depth items)

def prettyMembers (depth : Nat) : List (String × Json) → List Char
  | [] => newLine depth ++ ['}']
  | (key, value) :: members =>
    ',' :: (newLine (depth + 1) ++ quote key ++ ':' :: ' ' ::
      (prettyChars (depth + 1) value ++ prettyMembers depth members))

end

def compact (j : Json) : String := String.ofList j.compactChars

def pretty (j : Json) : String := String.ofList (j.prettyChars 0)

end Json

end AgentOptions
