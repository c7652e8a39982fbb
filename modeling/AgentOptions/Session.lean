import AgentOptions.Resolution

/-! # Live configuration

A board shows the current snapshot and counts how often one was published (`Board`).  A session is
a board together with overrides kept under identifiers and snapshots held under slots; it carries
out operations one after another (`Session.run`).

A published snapshot is a value: neither later writes to the overrides it came from nor later
publications change it or a held copy of it. -/

namespace AgentOptions

/-- The current snapshot, and the number of publications so far. -/
structure Board where
  epoch : Nat
  current : Snapshot

namespace Board

def new (initial : Snapshot) : Board := ⟨0, initial⟩

/-- Makes a snapshot the current one. -/
def publish (b : Board) (s : Snapshot) : Board := ⟨b.epoch + 1, s⟩

/-- The board in a log. -/
def text (b : Board) : String :=
  "SnapshotCell \x7b epoch: " ++ Integer.text b.epoch ++ ", .. \x7d"

end Board

/-- A snapshot that is held, and the epoch in which it was current. -/
structure Held where
  epoch : Nat
  snapshot : Snapshot

structure Session where
  registry : Registry
  board : Board
  /-- Overrides by identifier, the latest first. -/
  sources : List (String × Overrides)
  /-- Held snapshots by slot, the latest first. -/
  slots : List (String × Held)

namespace Session

/-- A session whose current snapshot is the defaults. -/
def new (registry : Registry) : Session := ⟨registry, .new (.defaults registry), [], []⟩

/-- What can be asked of a session. -/
inductive Operation where
  /-- New overrides without any values, in place of those with the identifier. -/
  | create (id name : String)
  | set (id option raw : String)
  | assign (id assignment : String)
  | load (id : String) (requested : List OptionName)
  | resolve (ids : List String)
  | publish (ids : List String)
  | readEpoch
  | hold (slot : String)
  | readCurrent (option : OptionName) (texts : List String)
  | readHeld (slot : String) (option : OptionName) (texts : List String)
  | compare (slot : String)

/-- How an option stands in a snapshot; for a pattern list, with the first pattern that describes
each of some texts. -/
structure Reading where
  value : OptionValue
  origin : Option String
  hits : List (Option Pattern)

/-- What a session answers. -/
inductive Reply where
  | done
  | loaded (values : RawValues)
  | snapshot (s : Snapshot)
  | published (epoch : Nat)
  | epoch (board : Board)
  | reading (r : Reading)
  /-- Whether a held snapshot is the one that was published last, and whether it has its values. -/
  | comparison (identical equal : Bool)
  | unknownOption (name : String)
  | failed (error : ResolutionError)
  | unreadable (error : SourceError)
  /-- No overrides or held snapshot go by the name. -/
  | absent (name : String)

/-- How an option stands in a snapshot. -/
def read (s : Snapshot) (option : OptionName) (texts : List String) : Reading where
  value := s.value option
  origin := s.origin? option
  hits := texts.map fun text => (s.patterns? option).bind (·.firstMatch? text)

/-- Puts overrides under an identifier. -/
def put (s : Session) (id : String) (o : Overrides) : Session :=
  { s with sources := (id, o) :: s.sources }

/-- The overrides with the identifiers, in their order; the error is an unused identifier. -/
def gather (s : Session) : List String → Except String (List Source)
  | [] => .ok []
  | id :: ids =>
    match s.sources.lookup id with
    | none => .error id
    | some o => (s.gather ids).map (.overrides o :: ·)

/-- Carries out one operation: the session after it, the answer and the events. -/
def step (s : Session) : Operation → Session × Reply × List Event
  | .create id name => (s.put id (.new name), .done, [])
  | .set id option raw =>
    match s.sources.lookup id, OptionName.ofText? option with
    | none, _ => (s, .absent id, [])
    | some _, none => (s, .unknownOption option, [])
    | some o, some n => (s.put id (o.set n raw), .done, [])
  | .assign id assignment =>
    match s.sources.lookup id with
    | none => (s, .absent id, [])
    | some o =>
      match o.assign assignment with
      | .ok changed => (s.put id changed, .done, [])
      | .error name => (s, .unknownOption name, [])
  | .load id requested =>
    match s.sources.lookup id with
    | none => (s, .absent id, [])
    | some o =>
      match (Source.overrides o).load requested with
      | .ok loaded => (s, .loaded loaded.values, loaded.events)
      | .error e => (s, .unreadable e, [])
  | .resolve ids =>
    match s.gather ids with
    | .error id => (s, .absent id, [])
    | .ok sources =>
      let resolution := s.registry.resolve sources
      match resolution.result with
      | .ok snapshot => (s, .snapshot snapshot, resolution.events)
      | .error e => (s, .failed e, resolution.events)
  | .publish ids =>
    match s.gather ids with
    | .error id => (s, .absent id, [])
    | .ok sources =>
      let resolution := s.registry.resolve sources
      match resolution.result with
      | .ok snapshot =>
        let board := s.board.publish snapshot
        ({ s with board }, .published board.epoch, resolution.events ++ [.published board.epoch])
      | .error e => (s, .failed e, resolution.events)
  | .readEpoch => (s, .epoch s.board, [])
  | .hold slot =>
    ({ s with slots := (slot, ⟨s.board.epoch, s.board.current⟩) :: s.slots }, .done, [])
  | .readCurrent option texts => (s, .reading (read s.board.current option texts), [])
  | .readHeld slot option texts =>
    match s.slots.lookup slot with
    | none => (s, .absent slot, [])
    | some held => (s, .reading (read held.snapshot option texts), [])
  | .compare slot =>
    match s.slots.lookup slot with
    | none => (s, .absent slot, [])
    | some held =>
      (s, .comparison (held.epoch == s.board.epoch) (held.snapshot.same s.board.current), [])

/-- Carries out operations in order. -/
def run (s : Session) : List Operation → Session × List (Reply × List Event)
  | [] => (s, [])
  | op :: ops =>
    let first := s.step op
    let others := first.1.run ops
    (others.1, first.2 :: others.2)

end Session

end AgentOptions
