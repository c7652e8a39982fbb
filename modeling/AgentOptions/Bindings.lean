/-! # Lists of bindings

A list of pairs binds keys to values, and the first binding of a key counts (`List.lookup`).

* `lookup_cons_eq_ite`: a binding in front decides for its key alone;
* `mem_of_lookup_eq_some`: what is looked up is bound;
* `lookup_eq_some_iff_mem`: with distinct keys, what is bound is looked up;
* `lookup_eq_of_mem_iff`: where all bindings of a key agree, it is bound to what they say. -/

namespace AgentOptions.Bindings

variable {α β : Type} [BEq α] [LawfulBEq α] [DecidableEq α]

theorem lookup_cons_eq_ite (a k : α) (v : β) (bindings : List (α × β)) :
    ((k, v) :: bindings).lookup a = if a = k then some v else bindings.lookup a := by
  by_cases h : a = k
  · simp [h]
  · simp [List.lookup_cons, h, beq_false_of_ne h]

theorem mem_of_lookup_eq_some {a : α} {b : β} {bindings : List (α × β)}
    (h : bindings.lookup a = some b) : (a, b) ∈ bindings := by
  induction bindings with
  | nil => simp at h
  | cons p rest ih =>
    obtain ⟨k, v⟩ := p
    rw [lookup_cons_eq_ite] at h
    split at h
    · next heq =>
      obtain rfl := Option.some.inj h
      exact heq ▸ List.mem_cons_self
    · exact List.mem_cons_of_mem _ (ih h)

theorem lookup_eq_of_mem_iff {a : α} {found : Option β} {bindings : List (α × β)}
    (h : ∀ b, (a, b) ∈ bindings ↔ found = some b) : bindings.lookup a = found := by
  cases hl : bindings.lookup a with
  | some b => exact ((h b).mp (mem_of_lookup_eq_some hl)).symm
  | none =>
    cases found with
    | none => rfl
    | some b =>
      have hne := List.lookup_eq_none_iff.mp hl (a, b) ((h b).mpr rfl)
      simp at hne

/-- With distinct keys, what is bound is what is looked up. -/
theorem lookup_eq_some_iff_mem {a : α} {b : β} {bindings : List (α × β)}
    (hnd : (bindings.map Prod.fst).Nodup) : bindings.lookup a = some b ↔ (a, b) ∈ bindings := by
  constructor
  · exact mem_of_lookup_eq_some
  · intro h
    induction bindings with
    | nil => cases h
    | cons p rest ih =>
        obtain ⟨k, v⟩ := p
        rw [List.map_cons, List.nodup_cons] at hnd
        rw [lookup_cons_eq_ite]
        rcases List.mem_cons.mp h with he | h
        · cases he
          exact if_pos rfl
        · have hne : a ≠ k := fun he => hnd.1 (List.mem_map.mpr ⟨(a, b), h, he⟩)
          rw [if_neg hne]
          exact ih hnd.2 h

end AgentOptions.Bindings
