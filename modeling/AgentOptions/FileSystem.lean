import AgentOptions.SystemText

/-! # Files

A place in a file system is the list of names on the way to it from the root; at a place is a file,
a directory or nothing.  A path says how to go from place to place, one part after another: `..`
goes back, an empty part and `.` stay, and every other part is a name.  Each part, also one that
stays, needs a directory to start from.  `FileSystem.read` says what reading a path gives. -/

namespace AgentOptions

/-- Why a file cannot be read. -/
inductive ReadFailure where
  | notFound
  | isDirectory
  | notDirectory
  | nameTooLong
  | notUtf8
  | other (reason : String)
  deriving DecidableEq

def ReadFailure.message : ReadFailure → String
  | notFound => "No such file or directory (os error 2)"
  | isDirectory => "Is a directory (os error 21)"
  | notDirectory => "Not a directory (os error 20)"
  | nameTooLong => "File name too long (os error 36)"
  | notUtf8 => "stream did not contain valid UTF-8"
  | other reason => reason

/-- What reading a path gives. -/
inductive FileContent where
  | bytes (content : List UInt8)
  | failure (reason : ReadFailure)

/-- What is at a place. -/
inductive FileNode where
  | file (content : List UInt8)
  | directory

/-- The names on the way from the root. -/
abbrev Place := List String

/-- What is at some places, and the place where a path starts that does not start with a slash. -/
structure FileSystem where
  nodes : List (Place × FileNode)
  current : Place

namespace FileSystem

/-- What is at a place.  The places on the way to a listed one, or to the current one, are
directories. -/
def nodeAt? (fs : FileSystem) (place : Place) : Option FileNode :=
  match fs.nodes.lookup place with
  | some node => some node
  | none =>
    if (fs.current :: fs.nodes.map Prod.fst).any place.isPrefixOf then some .directory else none

/-- The most bytes that a name can have. -/
def nameLimit : Nat := 255

/-- The most bytes that a path can have. -/
def pathLimit : Nat := 4095

/-- Goes from a place along one part of a path.  All names are texts, so nothing is found under
a part that is none. -/
def step (fs : FileSystem) (place : Place) (part : SystemText) : Except ReadFailure Place :=
  match fs.nodeAt? place with
  | none => .error .notFound
  | some (.file _) => .error .notDirectory
  | some .directory =>
    if nameLimit < part.size then .error .nameTooLong
    else
      match part.text? with
      | none => .error .notFound
      | some name =>
        if name = "" ∨ name = "." then .ok place
        else if name = ".." then .ok place.dropLast
        else .ok (place ++ [name])

/-- Goes along parts of a path, one after another. -/
def walk (fs : FileSystem) (place : Place) : List SystemText → Except ReadFailure Place
  | [] => .ok place
  | part :: rest =>
    match fs.step place part with
    | .ok next => fs.walk next rest
    | .error reason => .error reason

/-- The place where a path starts: the root if it starts with a slash. -/
def start (fs : FileSystem) (path : SystemText) : Place :=
  if path.parts.head? = some (.text "") then [] else fs.current

/-- What reading a path gives.  An empty path leads nowhere. -/
def read (fs : FileSystem) (path : SystemText) : FileContent :=
  if path.size = 0 then .failure .notFound
  else if pathLimit < path.size then .failure .nameTooLong
  else
    match fs.walk (fs.start path) path.parts with
    | .error reason => .failure reason
    | .ok place =>
      match fs.nodeAt? place with
      | none => .failure .notFound
      | some .directory => .failure .isDirectory
      | some (.file content) => .bytes content

end FileSystem

end AgentOptions
