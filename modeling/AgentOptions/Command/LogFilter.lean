import AgentOptions.Decimal.Layout
import AgentOptions.Event
import AgentOptions.Text.Blank
import AgentOptions.Text.Case

/-! # Which events are logged

A directive gives a level to some events: to those whose origin starts with its target, and, if it
names a field, that have this field.  Of the directives for an event the closest one decides: the
one with the longest target, of equal targets one that names a field, the later field in the order
of texts, and of equal directives the last (`Directive.deciding?`).

A filter text consists of directives between commas, written `level`, `target`, `target=level` or
`target[{field}]=level`, where the target before a field and the level after it may be missing.  A
malformed directive says nothing.  Neither does one for a named span or for a field of a certain
value: these speak of the spans that an event lies in, and no event lies in one. -/

namespace AgentOptions

/-- How much is logged. -/
inductive LogDetail where
  | off
  | error
  | warn
  | info
  | debug
  | trace
  deriving DecidableEq

namespace LogDetail

def all : List LogDetail := [off, error, warn, info, debug, trace]

def rank (d : LogDetail) : Nat := all.idxOf d

def text : LogDetail → String
  | off => "off"
  | error => "error"
  | warn => "warn"
  | info => "info"
  | debug => "debug"
  | trace => "trace"

/-- The number written with digits, after a plus or without it. -/
def number? (s : List Char) : Option Nat :=
  let digits := match s with
    | '+' :: r => r
    | _ => s
  if digits ≠ [] ∧ digits.all Char.isDigit then some (Decimal.natOfDigits digits) else none

/-- Reads a level by its name in any letter case, or by its rank. -/
def ofText? (s : List Char) : Option LogDetail :=
  all.find? fun d => Text.sameKeyword d.text (String.ofList s) || number? s == some d.rank

end LogDetail

/-- The level that an event needs to be logged. -/
def Urgency.detail : Urgency → LogDetail
  | .warn => .warn
  | .debug => .debug

def Urgency.text : Urgency → String
  | .warn => "WARN"
  | .debug => "DEBUG"

/-- The names of the fields of an event, the message among them. -/
def Event.fieldNames (e : Event) : List String := "message" :: e.fields.map Prod.fst

/-- A level for the events whose origin starts with a target and that have a field, if one is
named. -/
structure Directive where
  target : String
  field : Option String
  detail : LogDetail
  deriving DecidableEq

namespace Directive

/-- A level for every event. -/
def overall (detail : LogDetail) : Directive := ⟨"", none, detail⟩

/-! ### Reading -/

/-- A character of a target. -/
def isTargetChar (c : Char) : Bool := c != '=' && c != '['

/-- Reads the level of a directive; without one it means everything. -/
def readDetail? (level : List Char) : Option LogDetail :=
  if level = [] then some .trace else LogDetail.ofText? level

/-- Reads what follows a target and a bracket: a field between braces, the other bracket, and
perhaps a level.  Blanks after the bracket do not count. -/
def readField? (target : String) (s : List Char) : Option Directive :=
  match s with
  | '{' :: r =>
    let field := r.takeWhile fun c => c != '}'
    if field = [] || field.contains '=' then none
    else
      let directive := Directive.mk target (some (String.ofList field))
      match r.dropWhile fun c => c != '}' with
      | '}' :: ']' :: '=' :: level => (readDetail? level).map directive
      | '}' :: ']' :: rest => if rest.all Text.isBlank then some (directive .trace) else none
      | _ => none
  | _ => none

/-- Reads one directive. -/
def ofText? (s : List Char) : Option Directive :=
  let target := s.takeWhile isTargetChar
  match s.dropWhile isTargetChar with
  | [] =>
    if target = [] then none
    else
      match LogDetail.ofText? target with
      | some detail => some (overall detail)
      | none => some ⟨String.ofList target, none, .trace⟩
  | '=' :: level =>
    if target = [] then none
    else (readDetail? level).map fun detail => ⟨String.ofList target, none, detail⟩
  | _ :: rest => readField? (String.ofList target) rest

/-- Reads the directives of a filter text. -/
def readAll (s : String) : List Directive := (s.toList.splitOn ',').filterMap ofText?

/-! ### Deciding -/

/-- The directive speaks of the event. -/
def covers (d : Directive) (e : Event) : Bool :=
  d.target.toList.isPrefixOf e.target.toList && d.field.all fun name => e.fieldNames.contains name

/-- Of two directives for an event, the second is at least as close as the first. -/
def yieldsTo (b d : Directive) : Bool :=
  b.target.length < d.target.length ||
    (b.target.length == d.target.length && decide (b.field.getD "" ≤ d.field.getD ""))

/-- The directive that decides for an event. -/
def deciding? (directives : List Directive) (e : Event) : Option Directive :=
  (directives.filter (·.covers e)).foldl
    (fun best d =>
      match best with
      | some b => if b.yieldsTo d then some d else some b
      | none => some d)
    none

end Directive

/-- The event is logged. -/
def Event.isLogged (directives : List Directive) (e : Event) : Bool :=
  match Directive.deciding? directives e with
  | some d => e.urgency.detail.rank ≤ d.detail.rank
  | none => false

/-! ### Writing -/

/-- How an event starts in the log. -/
def Event.headline (e : Event) : String := e.urgency.text ++ " " ++ e.target

/-- A field value in the log. -/
def FieldValue.shown : FieldValue → String
  | text s => s
  | number x => Decimal.plain.text x

/-- An event in the log. -/
def Event.line (e : Event) : String :=
  e.headline ++ ": " ++ e.message ++
    String.join (e.fields.map fun f => " " ++ f.1 ++ "=" ++ f.2.shown)

end AgentOptions
