import AgentOptions.Proofs.Assignments
import AgentOptions.Proofs.Loading
import AgentOptions.Proofs.Readings
import Mathlib.Data.List.Induction

/-! # Sessions and their histories

The state of a session is told from the operations that it carried out, and from nothing else.  The
overrides under an identifier hold what was written to them since they were created
(`Reflects`), the current snapshot is resolved from such overrides as they were at the last
publication, and the epoch counts the publications (`publications`).

What one operation can do is said once (`Effect`, `effect_step`).  From it follows that carrying out
one more operation keeps the session in step with its history (`Tells.step`), and by induction the
same of whole runs (`tells_run`).

What is asked of a session is answered from the current snapshot or a held one, so the history tells
the answers too: a reading is of what the history published last, or had published last when the
snapshot was held, and a comparison says whether anything was published in between.

Main statements: `session_tells_history`, `answers_tell_history`. -/

namespace AgentOptions.Session

/-! ### What an operation can do -/

/-- The operation writes the text for the option to the overrides under the identifier. -/
inductive Operation.Writes (id : String) (n : OptionName) (raw : String) : Operation → Prop
  | set : Writes id n raw (.set id n.text raw)
  | assign {assignment : String} : Overrides.Splits assignment n.text raw →
      Writes id n raw (.assign id assignment)

theorem Operation.Writes.unique {op : Operation} {id id' raw raw' : String} {n m : OptionName}
    (h : op.Writes id n raw) (h' : op.Writes id' m raw') : id = id' ∧ n = m ∧ raw = raw' := by
  cases h with
  | set =>
      generalize he : OptionName.text n = option at h'
      cases h' with
      | set => exact ⟨rfl, OptionName.text_inj he, rfl⟩
  | assign hsplits => cases h' with
    | assign hsplits' =>
        obtain ⟨hname, hraw⟩ := hsplits.unique hsplits'
        exact ⟨rfl, OptionName.text_inj hname, hraw⟩

/-- The operation only asks for something. -/
def Operation.asks : Operation → Bool
  | load _ _ | resolve _ | readEpoch | readCurrent _ _ | readHeld _ _ _ | compare _ => true
  | create _ _ | set _ _ _ | assign _ _ | publish _ | hold _ => false

/-- What an operation can change, and when, with the answer: new overrides, a text in overrides, the
board, a held snapshot, or nothing. -/
inductive Effect (s : Session) : Operation → Session → Reply → Prop
  | created (id name : String) : Effect s (.create id name) (s.put id (.new name)) .done
  | written {op : Operation} {id raw : String} {n : OptionName} {o : Overrides} :
      op.Writes id n raw → s.sources.lookup id = some o → Effect s op (s.put id (o.set n raw)) .done
  | published {ids : List String} {sources : List Source} {snapshot : Snapshot} :
      s.gather ids = .ok sources → (s.registry.resolve sources).result = .ok snapshot →
      Effect s (.publish ids) { s with board := s.board.publish snapshot }
        (.published (s.board.epoch + 1))
  | held (slot : String) :
      Effect s (.hold slot)
        { s with slots := (slot, ⟨s.board.epoch, s.board.current⟩) :: s.slots } .done
  | nothing {op : Operation} {reply : Reply} : (∀ id name, op ≠ .create id name) →
      (∀ id n raw, op.Writes id n raw → s.sources.lookup id = none) →
      (∀ ids, op = .publish ids → ∃ id ∈ ids, s.sources.lookup id = none) →
      (∀ slot, op ≠ .hold slot) → Effect s op s reply

section step

variable (s : Session)

theorem exists_of_gather_eq_error {ids : List String} {id : String} (h : s.gather ids = .error id) :
    id ∈ ids ∧ s.sources.lookup id = none := by
  induction ids with
  | nil => cases h
  | cons i ids ih =>
      unfold gather at h
      split at h
      · next hnone =>
        cases h
        exact ⟨List.mem_cons_self, hnone⟩
      · cases hrest : s.gather ids with
        | error j =>
            rw [hrest] at h
            cases h
            obtain ⟨hmem, hnone⟩ := ih hrest
            exact ⟨List.mem_cons_of_mem _ hmem, hnone⟩
        | ok sources =>
            rw [hrest] at h
            cases h

theorem forall₂_of_gather_eq_ok {ids : List String} {sources : List Source}
    (h : s.gather ids = .ok sources) :
    List.Forall₂ (fun id source => ∃ o, s.sources.lookup id = some o ∧ source = .overrides o)
      ids sources := by
  induction ids generalizing sources with
  | nil =>
      cases h
      exact .nil
  | cons i ids ih =>
      unfold gather at h
      split at h
      · cases h
      · next o hsome =>
        cases hrest : s.gather ids with
        | error j =>
            rw [hrest] at h
            cases h
        | ok rest =>
            rw [hrest] at h
            cases h
            exact .cons ⟨o, hsome, rfl⟩ (ih hrest)

/-- Overrides can always be loaded, so a resolution of gathered ones succeeds. -/
theorem exists_resolve_of_gather_eq_ok {ids : List String} {sources : List Source}
    (h : s.gather ids = .ok sources) :
    ∃ snapshot, (s.registry.resolve sources).result = .ok snapshot := by
  have hloads : ∀ source ∈ sources, source.Loads := by
    have hall := forall₂_of_gather_eq_ok s h
    clear h
    induction hall with
    | nil => simp
    | cons hhead _ ih =>
        obtain ⟨o, -, rfl⟩ := hhead
        exact List.forall_mem_cons.mpr ⟨⟨_, rfl⟩, ih⟩
  exact exists_resolve_of_loads s.registry hloads

/-- An operation that only asks leaves the session as it is. -/
theorem step_of_asks {op : Operation} (h : op.asks) : (s.step op).1 = s := by
  cases op with
  | load id requested =>
      cases hid : s.sources.lookup id with
      | none => simp only [step, hid]
      | some o => simp only [step, hid, Source.overrides]
  | resolve ids =>
      cases hg : s.gather ids with
      | error id => simp only [step, hg]
      | ok sources =>
          obtain ⟨snapshot, hs⟩ := exists_resolve_of_gather_eq_ok s hg
          simp only [step, hg, hs]
  | readEpoch => rfl
  | readCurrent option texts => rfl
  | readHeld slot option texts =>
      cases hslot : s.slots.lookup slot with
      | none => simp only [step, hslot]
      | some held => simp only [step, hslot]
  | compare slot =>
      cases hslot : s.slots.lookup slot with
      | none => simp only [step, hslot]
      | some held => simp only [step, hslot]
  | _ => cases h

theorem effect_of_asks {op : Operation} (h : op.asks) (reply : Reply) : s.Effect op s reply := by
  refine .nothing ?_ ?_ ?_ ?_
  · rintro id name rfl
    cases h
  · intro id n raw hw
    cases hw with
    | set | assign => cases h
  · rintro ids rfl
    cases h
  · rintro slot rfl
    cases h

/-- **Each operation has one of these effects.** -/
theorem effect_step (op : Operation) : s.Effect op (s.step op).1 (s.step op).2.1 := by
  cases op with
  | create id name => exact .created id name
  | set id option raw =>
      cases hid : s.sources.lookup id with
      | none =>
          simp only [step, hid]
          refine .nothing (by simp) (fun id' n raw' h => ?_) (by simp) (by simp)
          cases h
          exact hid
      | some o => cases hn : OptionName.ofText? option with
        | none =>
            simp only [step, hid, hn]
            refine .nothing (by simp) (fun id' n raw' h => ?_) (by simp) (by simp)
            cases h
            simp [OptionName.ofText?_text] at hn
        | some n =>
            simp only [step, hid, hn]
            rw [OptionName.ofText?_eq_some_iff.mp hn]
            exact .written .set hid
  | assign id assignment =>
      cases hid : s.sources.lookup id with
      | none =>
          simp only [step, hid]
          refine .nothing (by simp) (fun id' n raw' h => ?_) (by simp) (by simp)
          cases h
          exact hid
      | some o =>
          rcases Overrides.splits_or_unknown assignment with ⟨n, raw, h⟩ | ⟨name, raw, h, hname⟩
          · simp only [step, hid, Overrides.assign_of_splits h]
            exact .written (.assign h) hid
          · simp only [step, hid, Overrides.assign_of_unknown h hname]
            refine .nothing (by simp) (fun id' n raw' hw => ?_) (by simp) (by simp)
            cases hw with
            | assign hsplits => exact absurd (h.unique hsplits).1 (hname n)
  | publish ids =>
      cases hg : s.gather ids with
      | error id =>
          simp only [step, hg]
          refine .nothing (by simp) (fun id' n raw' h => ?_) (fun ids' h => ?_) (by simp)
          · cases h
          · cases h
            exact ⟨id, exists_of_gather_eq_error s hg⟩
      | ok sources =>
          obtain ⟨snapshot, hs⟩ := exists_resolve_of_gather_eq_ok s hg
          simp only [step, hg, hs]
          exact .published hg hs
  | hold slot => exact .held slot
  | load | resolve | readEpoch | readCurrent | readHeld | compare =>
      rw [step_of_asks s rfl]
      exact effect_of_asks s rfl _

end step

/-- Nothing but holding under a slot changes what is held under it. -/
theorem Effect.lookup_slots {s t : Session} {op : Operation} {reply : Reply}
    (h : s.Effect op t reply) {slot : String} (hop : op ≠ .hold slot) :
    t.slots.lookup slot = s.slots.lookup slot := by
  cases h with
  | held other =>
      have hne : slot ≠ other := fun he => hop (he ▸ rfl)
      exact (Bindings.lookup_cons_eq_ite _ _ _ _).trans (if_neg hne)
  | created | written | published | nothing => rfl

/-! ### Runs -/

section run

variable (s : Session)

theorem run_append (ops others : List Operation) : s.run (ops ++ others) =
    (((s.run ops).1.run others).1, (s.run ops).2 ++ ((s.run ops).1.run others).2) := by
  induction ops generalizing s with
  | nil => rfl
  | cons op ops ih => simp only [List.cons_append, run, ih]

theorem run_concat (ops : List Operation) (op : Operation) :
    (s.run (ops ++ [op])).1 = ((s.run ops).1.step op).1 := by
  rw [run_append]
  rfl

theorem length_run (ops : List Operation) : (s.run ops).2.length = ops.length := by
  induction ops generalizing s with
  | nil => rfl
  | cons op ops ih => simp only [run, List.length_cons, ih]

/-- The answer to an operation is that of its step after the operations before it. -/
theorem answer_run (before after : List Operation) (op : Operation) :
    (s.run (before ++ op :: after)).2[before.length]? = some ((s.run before).1.step op).2 := by
  rw [run_append, List.getElem?_append_right (Nat.le_of_eq (length_run s before)), length_run,
    Nat.sub_self]
  rfl

theorem lookup_slots_run {slot : String} {ops : List Operation} (h : .hold slot ∉ ops) :
    (s.run ops).1.slots.lookup slot = s.slots.lookup slot := by
  induction ops generalizing s with
  | nil => rfl
  | cons op ops ih =>
      rw [List.mem_cons, not_or] at h
      have hop := (effect_step s op).lookup_slots fun he => h.1 he.symm
      exact (ih (s.step op).1 h.2).trans hop

theorem lookup_slots_run_hold {slot : String} {before after : List Operation}
    (hafter : .hold slot ∉ after) :
    (s.run (before ++ .hold slot :: after)).1.slots.lookup slot =
      some ⟨(s.run before).1.board.epoch, (s.run before).1.board.current⟩ := by
  simp only [run_append, run]
  rw [lookup_slots_run _ hafter]
  exact List.lookup_cons_self

end run

/-! ### What a history says -/

/-- The history creates overrides under the identifier. -/
def Created (history : List Operation) (id : String) : Prop :=
  ∃ name, .create id name ∈ history

/-- What comes after the last creation of overrides under the identifier, which gave them the
name. -/
def Since (history : List Operation) (id name : String) (since : List Operation) : Prop :=
  ∃ before, history = before ++ .create id name :: since ∧ ∀ other, .create id other ∉ since

/-- The overrides are those under the identifier: for each option they have the text that was
written last since they were created. -/
def Reflects (history : List Operation) (id : String) (o : Overrides) : Prop :=
  ∃ since, Since history id o.name since ∧
    ∀ n raw, o.values n = some raw ↔ LastGiven (fun op raw => op.Writes id n raw) since raw

section history

variable {history : List Operation} {id : String} {o : Overrides} {op : Operation}

theorem created_concat_iff :
    Created (history ++ [op]) id ↔ Created history id ∨ ∃ name, op = .create id name := by
  simp only [Created, List.mem_append, List.mem_singleton, exists_or, eq_comm]

theorem Reflects.created (h : Reflects history id o) : Created history id := by
  obtain ⟨_, ⟨before, rfl, -⟩, -⟩ := h
  exact ⟨o.name, by simp⟩

theorem reflects_new (history : List Operation) (id name : String) :
    Reflects (history ++ [.create id name]) id (.new name) := by
  refine ⟨[], ⟨history, rfl, by simp⟩, fun n raw => iff_of_false ?_ LastGiven.not_nil⟩
  exact fun h => nomatch h

theorem Since.concat {name : String} {since : List Operation} (h : Since history id name since)
    (hop : ∀ other, op ≠ .create id other) :
    Since (history ++ [op]) id name (since ++ [op]) := by
  obtain ⟨before, rfl, hsince⟩ := h
  refine ⟨before, by simp, fun other hmem => ?_⟩
  rcases List.mem_append.mp hmem with hmem | hmem
  · exact hsince other hmem
  · exact hop other (List.mem_singleton.mp hmem).symm

/-- What writes nothing under the identifier and does not create it anew changes nothing there. -/
theorem Reflects.concat (h : Reflects history id o) (hop : ∀ other, op ≠ .create id other)
    (hwrites : ∀ n raw, ¬ op.Writes id n raw) : Reflects (history ++ [op]) id o := by
  obtain ⟨since, hsince, hvalues⟩ := h
  refine ⟨since ++ [op], hsince.concat hop, fun n raw => ?_⟩
  rw [LastGiven.concat_iff, hvalues]
  exact ⟨fun h => .inr ⟨hwrites n, h⟩, fun h => (h.resolve_left (hwrites n raw)).2⟩

theorem Reflects.set {n : OptionName} {raw : String} (h : Reflects history id o)
    (hwrites : op.Writes id n raw) : Reflects (history ++ [op]) id (o.set n raw) := by
  obtain ⟨since, hsince, hvalues⟩ := h
  have hop : ∀ other, op ≠ .create id other := by
    rintro other rfl
    cases hwrites
  refine ⟨since ++ [op], hsince.concat hop, fun m raw' => ?_⟩
  rw [LastGiven.concat_iff, Overrides.values_set]
  by_cases hmn : m = n
  · subst hmn
    rw [if_pos rfl]
    constructor
    · intro he
      exact .inl (Option.some.inj he ▸ hwrites)
    · rintro (hw | ⟨hnone, -⟩)
      · rw [(hwrites.unique hw).2.2]
      · exact absurd hwrites (hnone raw)
  · have hnone : ∀ other, ¬ op.Writes id m other := fun other hw =>
      hmn (hw.unique hwrites).2.1
    rw [if_neg hmn, hvalues]
    exact ⟨fun h => .inr ⟨hnone, h⟩, fun h => (h.resolve_left (hnone raw')).2⟩

end history

/-! ### Publications -/

instance (history : List Operation) (id : String) : Decidable (Created history id) :=
  decidable_of_iff (history.any fun
    | .create other _ => other == id
    | _ => false) <| by
  rw [List.any_eq_true]
  constructor
  · rintro ⟨op, hmem, hop⟩
    cases op with
    | create other name => exact ⟨name, eq_of_beq hop ▸ hmem⟩
    | _ => cases hop
  · rintro ⟨name, hmem⟩
    exact ⟨_, hmem, beq_self_eq_true id⟩

/-- The publications among operations: for each, the history before it and the identifiers.  All
of these must have been created. -/
def publicationsFrom (history : List Operation) :
    List Operation → List (List Operation × List String)
  | [] => []
  | .publish ids :: ops =>
    if ∀ id ∈ ids, Created history id then
      (history, ids) :: publicationsFrom (history ++ [.publish ids]) ops
    else publicationsFrom (history ++ [.publish ids]) ops
  | op :: ops => publicationsFrom (history ++ [op]) ops

/-- The publications in a history. -/
def publications (history : List Operation) : List (List Operation × List String) :=
  publicationsFrom [] history

theorem publicationsFrom_append (history ops others : List Operation) :
    publicationsFrom history (ops ++ others) =
      publicationsFrom history ops ++ publicationsFrom (history ++ ops) others := by
  induction ops generalizing history with
  | nil => rw [List.append_nil]; rfl
  | cons op ops ih =>
      rw [List.cons_append]
      cases op with
      | publish ids =>
          simp only [publicationsFrom, ih, List.append_assoc, List.singleton_append]
          split <;> rfl
      | _ => simp only [publicationsFrom, ih, List.append_assoc, List.singleton_append]

theorem publications_concat (history : List Operation) (op : Operation) :
    publications (history ++ [op]) = publications history ++ publicationsFrom history [op] :=
  publicationsFrom_append [] history [op]

theorem publicationsFrom_eq_nil {history : List Operation} {op : Operation}
    (h : ∀ ids, op = .publish ids → ∃ id ∈ ids, ¬ Created history id) :
    publicationsFrom history [op] = [] := by
  cases op with
  | publish ids =>
      obtain ⟨id, hid, hnone⟩ := h ids rfl
      exact if_neg fun hall => hnone (hall id hid)
  | _ => rfl

/-- The snapshot is what overrides that reflect the history resolve to, listed by their identifiers
from the highest precedence to the lowest. -/
def Resolves (registry : Registry) (history : List Operation) (ids : List String)
    (snapshot : Snapshot) : Prop :=
  ∃ sources, List.Forall₂ (fun id source => ∃ o, Reflects history id o ∧ source = .overrides o)
      ids sources ∧
    (registry.resolve sources).result = .ok snapshot ∧
    ∀ n, registry.Settles sources n (snapshot.setting n)

/-! ### Sessions in step with their histories -/

/-- What is under an identifier is told by the history. -/
inductive Stored (history : List Operation) (id : String) : Option Overrides → Prop
  | absent : ¬ Created history id → Stored history id none
  | present {o : Overrides} : Reflects history id o → Stored history id (some o)

/-- The board shows what the history published last, and counts its publications. -/
structure Shows (registry : Registry) (history : List Operation) (board : Board) : Prop where
  epoch_eq : board.epoch = (publications history).length
  initial : publications history = [] → board.current = .defaults registry
  latest : ∀ before ids, (publications history).getLast? = some (before, ids) →
    Resolves registry before ids board.current

/-- What the session has is told by the history. -/
structure Tells (registry : Registry) (history : List Operation) (s : Session) : Prop where
  registry_eq : s.registry = registry
  stored : ∀ id, Stored history id (s.sources.lookup id)
  shows : Shows registry history s.board

theorem tells_new (registry : Registry) : Tells registry [] (.new registry) where
  registry_eq := rfl
  stored := fun _ => .absent fun ⟨_, h⟩ => List.not_mem_nil h
  shows := ⟨rfl, fun _ => rfl, fun _ _ h => nomatch h⟩

section tells

variable {registry : Registry} {history : List Operation} {s t : Session} {op : Operation}
  {reply : Reply}

theorem Stored.created_iff {id : String} {o? : Option Overrides} (h : Stored history id o?) :
    Created history id ↔ o? ≠ none := by
  cases h with
  | absent hnone => simpa using hnone
  | present ho => simpa using ho.created

theorem Stored.reflects {id : String} {o : Overrides} (h : Stored history id (some o)) :
    Reflects history id o := by
  cases h with
  | present ho => exact ho

theorem Stored.concat {id : String} {o? : Option Overrides} (h : Stored history id o?)
    (hop : ∀ name, op ≠ .create id name) (hwrites : ∀ n raw, op.Writes id n raw → o? = none) :
    Stored (history ++ [op]) id o? := by
  cases h with
  | absent hnone =>
      refine .absent fun hc => ?_
      rcases created_concat_iff.mp hc with hc | ⟨name, hc⟩
      · exact hnone hc
      · exact hop name hc
  | present ho => exact .present (ho.concat hop fun n raw hw => nomatch hwrites n raw hw)

theorem Effect.stored (he : s.Effect op t reply)
    (h : ∀ id, Stored history id (s.sources.lookup id)) (id : String) :
    Stored (history ++ [op]) id (t.sources.lookup id) := by
  cases he with
  | created other name =>
      rw [put, Bindings.lookup_cons_eq_ite]
      split
      · next heq =>
        rw [heq]
        exact .present (reflects_new history other name)
      · next hne =>
        refine (h id).concat (fun name' hop => hne ?_) fun _ _ hw => nomatch hw
        cases hop
        rfl
  | @written _ other raw n o hw ho =>
      rw [put, Bindings.lookup_cons_eq_ite]
      split
      · next heq =>
        have hstored := h other
        rw [ho] at hstored
        rw [heq]
        exact .present (hstored.reflects.set hw)
      · next hne =>
        refine (h id).concat ?_ fun m raw' hw' => absurd (hw'.unique hw).1 hne
        rintro name rfl
        cases hw
  | published => exact (h id).concat (by simp) fun _ _ hw => nomatch hw
  | held slot => exact (h id).concat (by simp) fun _ _ hw => nomatch hw
  | nothing hcreate hwrites _ _ => exact (h id).concat (hcreate id) (hwrites id)

theorem Tells.resolves (h : Tells registry history s) {ids : List String} {sources : List Source}
    {snapshot : Snapshot} (hg : s.gather ids = .ok sources)
    (hs : (registry.resolve sources).result = .ok snapshot) :
    Resolves registry history ids snapshot := by
  refine ⟨sources, (forall₂_of_gather_eq_ok s hg).imp ?_, hs, fun n => (settles_iff hs).mpr rfl⟩
  rintro id source ⟨o, ho, rfl⟩
  have hstored := h.stored id
  rw [ho] at hstored
  exact ⟨o, hstored.reflects, rfl⟩

theorem Resolves.created {ids : List String} {snapshot : Snapshot}
    (h : Resolves registry history ids snapshot) : ∀ id ∈ ids, Created history id := by
  obtain ⟨sources, hall, -, -⟩ := h
  induction hall with
  | nil => simp
  | cons hhead _ ih =>
      obtain ⟨o, ho, -⟩ := hhead
      exact List.forall_mem_cons.mpr ⟨ho.created, ih⟩

theorem Shows.concat {board : Board} (h : Shows registry history board)
    (hop : publicationsFrom history [op] = []) : Shows registry (history ++ [op]) board := by
  have heq : publications (history ++ [op]) = publications history := by
    rw [publications_concat, hop, List.append_nil]
  exact ⟨heq ▸ h.epoch_eq, heq ▸ h.initial, heq ▸ h.latest⟩

theorem Shows.publish {board : Board} (h : Shows registry history board) {ids : List String}
    {snapshot : Snapshot} (hs : Resolves registry history ids snapshot) :
    Shows registry (history ++ [.publish ids]) (board.publish snapshot) := by
  have heq : publications (history ++ [.publish ids]) =
      publications history ++ [(history, ids)] := by
    rw [publications_concat, publicationsFrom, if_pos hs.created]
    rfl
  refine ⟨?_, ?_, fun before ids' hlast => ?_⟩
  · rw [heq, List.length_append, ← h.epoch_eq]
    rfl
  · simp [heq]
  · rw [heq, List.getLast?_concat] at hlast
    cases hlast
    exact hs

/-- **One more operation keeps a session in step with its history.** -/
theorem Tells.step (h : Tells registry history s) (op : Operation) :
    Tells registry (history ++ [op]) (s.step op).1 := by
  have he := effect_step s op
  generalize (s.step op).1 = t, (s.step op).2.1 = reply at he
  refine ⟨?_, he.stored h.stored, ?_⟩
  · rw [← h.registry_eq]
    cases he with
    | created | written | published | held | nothing => rfl
  · cases he with
    | published hg hs => exact h.shows.publish (h.resolves hg (h.registry_eq ▸ hs))
    | written hw ho =>
        refine h.shows.concat (publicationsFrom_eq_nil ?_)
        rintro ids rfl
        cases hw
    | created | held => exact h.shows.concat rfl
    | nothing _ _ hpublish _ =>
        refine h.shows.concat (publicationsFrom_eq_nil fun ids hop => ?_)
        obtain ⟨id, hid, hnone⟩ := hpublish ids hop
        exact ⟨id, hid, fun hc => (h.stored id).created_iff.mp hc hnone⟩

/-- A session is in step with what it carried out. -/
theorem tells_run (registry : Registry) (history : List Operation) :
    Tells registry history ((Session.new registry).run history).1 := by
  induction history using List.reverseRecOn with
  | nil => exact tells_new registry
  | append_singleton history op ih =>
      rw [run_concat]
      exact ih.step op

theorem Tells.exists_gather (h : Tells registry history s) {ids : List String}
    (hids : ∀ id ∈ ids, Created history id) : ∃ sources, s.gather ids = .ok sources := by
  cases hg : s.gather ids with
  | ok sources => exact ⟨sources, rfl⟩
  | error id =>
      obtain ⟨hmem, hnone⟩ := exists_of_gather_eq_error s hg
      exact absurd hnone ((h.stored id).created_iff.mp (hids id hmem))

theorem Tells.publish_answer (h : Tells registry history s) {ids : List String}
    (hids : ∀ id ∈ ids, Created history id) :
    ∃ events, (s.step (.publish ids)).2 =
      (.published (publications (history ++ [.publish ids])).length, events) := by
  obtain ⟨sources, hg⟩ := h.exists_gather hids
  obtain ⟨snapshot, hs⟩ := exists_resolve_of_gather_eq_ok s hg
  have hepoch : (publications (history ++ [.publish ids])).length = s.board.epoch + 1 := by
    rw [← (h.step (.publish ids)).shows.epoch_eq]
    simp only [Session.step, hg, hs]
    rfl
  simp only [Session.step, hg, hs, hepoch]
  exact ⟨_, rfl⟩

theorem Tells.resolve_answer (h : Tells registry history s) {ids : List String}
    (hids : ∀ id ∈ ids, Created history id) : (s.step (.resolve ids)).1 = s ∧
      ∃ snapshot, (s.step (.resolve ids)).2.1 = .snapshot snapshot ∧
        Resolves registry history ids snapshot := by
  obtain ⟨sources, hg⟩ := h.exists_gather hids
  obtain ⟨snapshot, hs⟩ := exists_resolve_of_gather_eq_ok s hg
  simp only [Session.step, hg, hs]
  exact ⟨trivial, snapshot, rfl, h.resolves hg (h.registry_eq ▸ hs)⟩

end tells

theorem step_assign_unknown (s : Session) (id : String) {assignment name raw : String}
    (h : Overrides.Splits assignment name raw) (hname : ∀ n : OptionName, name ≠ n.text) :
    (s.step (.assign id assignment)).1 = s := by
  cases hid : s.sources.lookup id with
  | none => simp only [step, hid]
  | some o => simp only [step, hid, Overrides.assign_of_unknown h hname]

/-- **A session is what its history tells.**  After any operations the epoch counts the
publications, each of which was answered with the epoch that it began.  Without a publication the
current snapshot is the defaults; with one, it is what the overrides resolve to as they were then,
with the text that was set last since they were created.  An assignment that names no option leaves
everything as it is, and a held snapshot stays what was current when it was held. -/
theorem session_tells_history (registry : Registry) (history : List Operation) :
    let s := ((Session.new registry).run history).1
    s.board.epoch = (publications history).length ∧
      (∀ before ids after, history = before ++ .publish ids :: after →
        (∀ id ∈ ids, Created before id) →
        ∃ events, ((Session.new registry).run history).2[before.length]? =
          some (.published (publications (before ++ [.publish ids])).length, events)) ∧
      (publications history = [] → s.board.current = .defaults registry) ∧
      (∀ before ids, (publications history).getLast? = some (before, ids) →
        Resolves registry before ids s.board.current) ∧
      (∀ ids, (∀ id ∈ ids, Created history id) → (s.step (.resolve ids)).1 = s ∧
        ∃ snapshot, (s.step (.resolve ids)).2.1 = .snapshot snapshot ∧
          Resolves registry history ids snapshot) ∧
      (∀ id, (Created history id ↔ s.sources.lookup id ≠ none) ∧
        ∀ o, s.sources.lookup id = some o → Reflects history id o) ∧
      (∀ id assignment name raw, Overrides.Splits assignment name raw →
        (∀ n : OptionName, name ≠ n.text) → (s.step (.assign id assignment)).1 = s) ∧
      ∀ slot before after, history = before ++ .hold slot :: after → .hold slot ∉ after →
        s.slots.lookup slot = some ⟨(publications before).length,
          ((Session.new registry).run before).1.board.current⟩ := by
  intro s
  have h : Tells registry history s := tells_run registry history
  refine ⟨h.shows.epoch_eq, ?_, h.shows.initial, h.shows.latest, fun ids => h.resolve_answer,
    fun id => ⟨(h.stored id).created_iff, fun o ho => ?_⟩,
    fun id _ _ _ => step_assign_unknown s id, ?_⟩
  · rintro before ids after rfl hids
    obtain ⟨events, hanswer⟩ := (tells_run registry before).publish_answer hids
    exact ⟨events, by rw [answer_run, hanswer]⟩
  · have hstored := h.stored id
    rw [ho] at hstored
    exact hstored.reflects
  · rintro slot before after rfl hafter
    rw [← (tells_run registry before).shows.epoch_eq]
    exact lookup_slots_run_hold _ hafter

/-- A timeout is published and held, then replaced by a shorter one in vain: the overrides are
created anew before the next publication. -/
def timeoutForgotten : List Operation :=
  [.create "a" "app", .set "a" "server_timeout" "5s", .publish ["a"], .hold "first",
    .assign "a" "timeout=1s", .assign "a" " server_timeout =2s", .create "a" "app",
    .set "a" "enabled" "no", .publish ["a"]]

theorem session_tells_history_timeout :
    let s := ((Session.new .builtin).run timeoutForgotten).1
    s.board.epoch = 2 ∧
      (∃ events,
        ((Session.new .builtin).run timeoutForgotten).2[2]? = some (.published 1, events)) ∧
      Resolves .builtin (timeoutForgotten.take 8) ["a"] s.board.current ∧
      (s.step (.assign "a" "timeout=1s")).1 = s ∧
      s.slots.lookup "first" =
        some ⟨1, ((Session.new .builtin).run (timeoutForgotten.take 3)).1.board.current⟩ := by
  obtain ⟨hepoch, hanswer, -, hlatest, -, -, hunknown, hheld⟩ :=
    session_tells_history .builtin timeoutForgotten
  refine ⟨hepoch.trans (by decide +kernel), ?_, ?_, ?_, ?_⟩
  · exact hanswer (timeoutForgotten.take 2) ["a"] (timeoutForgotten.drop 3) rfl (by decide +kernel)
  · exact hlatest (timeoutForgotten.take 8) ["a"] rfl
  · exact hunknown "a" "timeout=1s" "timeout" "1s"
      (Overrides.splits_splitAssignment "timeout=1s") (by intro n; cases n <;> decide)
  · exact hheld "first" (timeoutForgotten.take 3) (timeoutForgotten.drop 4) rfl
      (by simp [timeoutForgotten])

/-! ### Answers -/

theorem length_publications_eq_append_iff {before after : List Operation} :
    (publications before).length = (publications (before ++ after)).length ↔
      publicationsFrom before after = [] := by
  have heq : publications (before ++ after) =
      publications before ++ publicationsFrom before after :=
    publicationsFrom_append [] before after
  rw [heq, List.length_append, ← List.length_eq_zero_iff]
  omega

section answers

variable {s : Session} {slot : String}

theorem readHeld_answer {held : Held} (h : s.slots.lookup slot = some held) (option : OptionName)
    (texts : List String) : ∃ r, (s.step (.readHeld slot option texts)).2 = (.reading r, []) ∧
      r.Tells (held.snapshot.setting option) texts := by
  simp only [step, h]
  exact ⟨_, rfl, read_tells held.snapshot option texts⟩

theorem compare_answer {held : Held} (h : s.slots.lookup slot = some held) :
    ∃ identical equal, (s.step (.compare slot)).2 = (.comparison identical equal, []) ∧
      (identical = true ↔ held.epoch = s.board.epoch) ∧
      (equal = true ↔ ∀ n, (held.snapshot.setting n).Equal (s.board.current.setting n)) := by
  simp only [step, h]
  exact ⟨_, _, rfl, beq_iff_eq, Snapshot.same_iff⟩

theorem absent_answer (h : s.slots.lookup slot = none) :
    (∀ option texts, (s.step (.readHeld slot option texts)).2 = (.absent slot, [])) ∧
      (s.step (.compare slot)).2 = (.absent slot, []) := by
  simp only [step, h, implies_true, and_self]

end answers

/-- **What a session answers is what its history tells.**  It shows the epoch and the current
snapshot that the history published last.  From a slot it reads the snapshot that was current when
it was last held there; that is the current one as long as nothing is published, and equals it when
all settings are equal.  Nothing is read from a slot where nothing was held, and reading changes
nothing. -/
theorem answers_tell_history (registry : Registry) (history : List Operation) :
    let s := ((Session.new registry).run history).1
    (∃ board, Shows registry history board ∧ (s.step .readEpoch).2 = (.epoch board, []) ∧
      ∀ option texts, ∃ r, (s.step (.readCurrent option texts)).2 = (.reading r, []) ∧
        r.Tells (board.current.setting option) texts) ∧
      (∀ slot before after, history = before ++ .hold slot :: after → .hold slot ∉ after →
        ∃ held current, Shows registry before held ∧ Shows registry history current ∧
          (∀ option texts, ∃ r, (s.step (.readHeld slot option texts)).2 = (.reading r, []) ∧
            r.Tells (held.current.setting option) texts) ∧
          ∃ identical equal, (s.step (.compare slot)).2 = (.comparison identical equal, []) ∧
            (identical = true ↔ publicationsFrom before (.hold slot :: after) = []) ∧
            (equal = true ↔
              ∀ n, (held.current.setting n).Equal (current.current.setting n))) ∧
      (∀ slot, .hold slot ∉ history →
        (∀ option texts, (s.step (.readHeld slot option texts)).2 = (.absent slot, [])) ∧
          (s.step (.compare slot)).2 = (.absent slot, [])) ∧
      ∀ op, op.asks → (s.step op).1 = s := by
  intro s
  have h : Tells registry history s := tells_run registry history
  refine ⟨⟨s.board, h.shows, rfl, fun option texts => ⟨_, rfl, read_tells _ option texts⟩⟩,
    ?_, fun slot hslot => absent_answer (lookup_slots_run _ hslot), fun op => step_of_asks s⟩
  rintro slot before after rfl hafter
  have hbefore := (tells_run registry before).shows
  have hheld : s.slots.lookup slot = _ := lookup_slots_run_hold _ hafter
  obtain ⟨identical, equal, hreply, hidentical, hequal⟩ := compare_answer hheld
  refine ⟨_, s.board, hbefore, h.shows, readHeld_answer hheld, identical, equal, hreply, ?_, hequal⟩
  rw [hidentical, hbefore.epoch_eq, h.shows.epoch_eq]
  exact length_publications_eq_append_iff

end AgentOptions.Session
