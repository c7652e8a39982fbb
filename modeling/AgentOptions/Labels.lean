import AgentOptions.Bindings
import AgentOptions.Event
import AgentOptions.Text.Pieces

/-! # Labels

Labels bind keys to values; they are kept in ascending order of their keys, by code points.  They
are written as `key=value` pieces between commas.  Blanks around keys and values do not count,
empty pieces are skipped, the last of several values for a key stands, and a piece that binds
nothing is dropped with a warning.

* `ascending_insertPair`: insertion keeps the order of the keys;
* `get?_insert`: it changes the value of its key alone. -/

namespace AgentOptions

/-- Pairs of keys and values, by ascending keys. -/
structure Labels where
  pairs : List (String × String)
  ascending : pairs.Pairwise fun p q => p.1 < q.1
  deriving DecidableEq

namespace Labels

def empty : Labels := ⟨[], .nil⟩

/-- Puts a pair at its place; a pair with the same key gives way. -/
def insertPair (key value : String) : List (String × String) → List (String × String)
  | [] => [(key, value)]
  | (k, v) :: rest =>
    if key < k then (key, value) :: (k, v) :: rest
    else if key = k then (key, value) :: rest
    else (k, v) :: insertPair key value rest

theorem mem_insertPair {key value : String} {pairs : List (String × String)} {p : String × String}
    (h : p ∈ insertPair key value pairs) : p = (key, value) ∨ p ∈ pairs := by
  induction pairs with
  | nil => exact .inl (by simpa [insertPair] using h)
  | cons q rest ih =>
    obtain ⟨k, v⟩ := q
    unfold insertPair at h
    split at h
    · simpa using h
    · split at h
      · rcases List.mem_cons.1 h with h | h
        · exact .inl h
        · exact .inr (List.mem_cons_of_mem _ h)
      · rcases List.mem_cons.1 h with h | h
        · exact .inr (h ▸ List.mem_cons_self)
        · exact (ih h).imp_right (List.mem_cons_of_mem _)

theorem lt_of_not_lt_of_ne {a b : String} (h : ¬ a < b) (hne : a ≠ b) : b < a := by
  by_cases hb : b < a
  · exact hb
  · exact absurd (String.le_antisymm (String.not_lt.1 hb) (String.not_lt.1 h)) hne

theorem ascending_insertPair {key value : String} {pairs : List (String × String)}
    (h : pairs.Pairwise fun p q => p.1 < q.1) :
    (insertPair key value pairs).Pairwise fun p q => p.1 < q.1 := by
  induction pairs with
  | nil => simp [insertPair]
  | cons q rest ih =>
    obtain ⟨k, v⟩ := q
    obtain ⟨hk, hr⟩ := List.pairwise_cons.1 h
    unfold insertPair
    split
    · next hlt =>
      refine List.pairwise_cons.2 ⟨fun p hp => ?_, h⟩
      rcases List.mem_cons.1 hp with rfl | hp
      · exact hlt
      · exact String.lt_trans hlt (hk p hp)
    · next hlt =>
      split
      · next heq => exact List.pairwise_cons.2 ⟨heq ▸ hk, hr⟩
      · next hne =>
        refine List.pairwise_cons.2 ⟨fun p hp => ?_, ih hr⟩
        rcases mem_insertPair hp with rfl | hp
        · exact lt_of_not_lt_of_ne hlt hne
        · exact hk p hp

/-- Binds a key to a value, in place of any value it had. -/
def insert (labels : Labels) (key value : String) : Labels :=
  ⟨insertPair key value labels.pairs, ascending_insertPair labels.ascending⟩

/-- The value bound to a key. -/
def get? (labels : Labels) (key : String) : Option String := labels.pairs.lookup key

theorem lookup_insertPair (key value k : String) (pairs : List (String × String)) :
    (insertPair key value pairs).lookup k = if k = key then some value else pairs.lookup k := by
  induction pairs with
  | nil => simp [insertPair, Bindings.lookup_cons_eq_ite]
  | cons q rest ih =>
    obtain ⟨l, v⟩ := q
    unfold insertPair
    split
    · rw [Bindings.lookup_cons_eq_ite]
    · split
      · next heq =>
        subst heq
        by_cases h : k = key <;> simp [Bindings.lookup_cons_eq_ite, h]
      · next hne =>
        by_cases h : k = l
        · simp [h, Ne.symm hne]
        · simp [Bindings.lookup_cons_eq_ite, h, ih]

theorem get?_insert (labels : Labels) (key value k : String) :
    (labels.insert key value).get? k = if k = key then some value else labels.get? k :=
  lookup_insertPair key value k labels.pairs

/-- The labels of a list of pairs; the last value of a key stands. -/
def ofPairs (pairs : List (String × String)) : Labels :=
  pairs.foldl (fun labels p => labels.insert p.1 p.2) empty

/-- What a piece of a label text does. -/
inductive Entry where
  | skipped
  | binding (key value : String)
  | malformed (entry : String)
  deriving DecidableEq

/-- Classifies a trimmed piece: the key is what stands before the first `=`, and is not blank. -/
def entryOf (piece : String) : Entry :=
  if piece = "" then .skipped
  else
    match Text.cutAt '=' piece.toList with
    | none => .malformed piece
    | some (key, value) =>
      if Text.trimChars key = [] then .malformed piece
      else .binding (String.ofList (Text.trimChars key)) (String.ofList (Text.trimChars value))

/-- The entries of a label text, in text order. -/
def entries (raw : String) : List Entry := (Text.commaPieces raw).map entryOf

/-- The pair that an entry binds. -/
def Entry.pair? : Entry → Option (String × String)
  | binding key value => some (key, value)
  | _ => none

/-- The warning that an entry causes. -/
def Entry.warning? : Entry → Option Event
  | malformed entry => some (.malformedLabel entry)
  | _ => none

/-- Reads the labels of a text; this never fails. -/
def ofText (raw : String) : Labels := ofPairs ((entries raw).filterMap Entry.pair?)

/-- The warnings that reading a text causes, in text order. -/
def warnings (raw : String) : List Event := (entries raw).filterMap Entry.warning?

/-- The pairs as `key=value`, with a comma between two of them. -/
def text (labels : Labels) : String :=
  ",".intercalate (labels.pairs.map fun p => p.1 ++ "=" ++ p.2)

end Labels

end AgentOptions
