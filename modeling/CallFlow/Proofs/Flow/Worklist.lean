import CallFlow.Flow.Worklist

/-! What waits on a worklist. A worklist is coherent if every location that it believes to wait does
wait; then an item that is added waits afterwards, whether or not it was accepted. -/

namespace CallFlow.Worklist

/-- Every location that is believed to wait does wait. -/
def Coherent (w : Worklist) : Prop :=
  ∀ k, w.queued.contains k = true → WorkItem.propagate k ∈ w.items

theorem coherent_empty : empty.Coherent := by
  intro k believed
  simp [empty] at believed

theorem key?_eq_some_iff (item : WorkItem) (k : Nat) :
    item.key? = some k ↔ item = .propagate k := by
  cases item <;> simp [WorkItem.key?]

theorem mem_items_of_push {w : Worklist} {item other : WorkItem}
    (waits : other ∈ (w.push item).2.items) : other ∈ w.items ∨ other = item := by
  rw [items_push] at waits
  split at waits
  · simpa using waits
  · exact .inl waits

theorem mem_items_push_of_mem {w : Worklist} {other : WorkItem} (item : WorkItem)
    (waits : other ∈ w.items) : other ∈ (w.push item).2.items := by
  rw [items_push]
  split
  · exact List.mem_append_left _ waits
  · exact waits

/-- Just a location that is believed to wait already is refused. -/
theorem refused_push_iff {w : Worklist} {item : WorkItem} :
    (w.push item).1 = false ↔ ∃ k, item = .propagate k ∧ w.queued.contains k = true := by
  simp only [← key?_eq_some_iff]
  unfold push
  split
  · rename_i k key
    split <;> rename_i believed <;> simp [key, believed]
  · rename_i key
    simp [key]

theorem Coherent.mem_items_push {w : Worklist} (h : w.Coherent) (item : WorkItem) :
    item ∈ (w.push item).2.items := by
  rw [items_push]
  split
  · simp
  · rename_i refused
    obtain ⟨k, rfl, believed⟩ := refused_push_iff.mp (Bool.eq_false_iff.mpr refused)
    exact h k believed

theorem Coherent.mem_items_push_iff {w : Worklist} (h : w.Coherent) (item other : WorkItem) :
    other ∈ (w.push item).2.items ↔ other ∈ w.items ∨ other = item := by
  constructor
  · exact mem_items_of_push
  · rintro (waits | rfl)
    · exact mem_items_push_of_mem item waits
    · exact h.mem_items_push _

theorem contains_queued_push (w : Worklist) (item : WorkItem) (k : Nat) :
    (w.push item).2.queued.contains k = true ↔
      w.queued.contains k = true ∨ item = .propagate k := by
  rw [← key?_eq_some_iff item k]
  unfold push
  split
  · rename_i other key
    split
    · rename_i believed
      rw [key, Option.some.injEq]
      exact ⟨.inl, fun either => either.elim id fun same => same ▸ believed⟩
    · simp only [key, KeySet.contains_insert, Bool.or_eq_true, decide_eq_true_eq,
        Option.some.injEq, @eq_comm Nat other k]
  · rename_i key
    simp [key, enqueue]

theorem Coherent.push {w : Worklist} (h : w.Coherent) (item : WorkItem) :
    (w.push item).2.Coherent := by
  intro k believed
  rw [h.mem_items_push_iff]
  exact ((contains_queued_push w item k).mp believed).imp (h k) Eq.symm

theorem contains_queued_release (w : Worklist) (item : WorkItem) (k : Nat) :
    (w.release item).queued.contains k = true ↔
      w.queued.contains k = true ∧ item ≠ .propagate k := by
  rw [ne_eq, ← key?_eq_some_iff item k]
  unfold release
  split
  · rename_i other key
    simp only [key, Dictionary.contains_erase, Bool.and_eq_true, decide_eq_true_eq,
      Option.some.injEq, ne_eq, @eq_comm Nat other k]
  · rename_i key
    simp [key]

/-- An item leaves a worklist, wherever in the queue it waits. -/
structure Takes (w : Worklist) (item : WorkItem) (rest : Worklist) : Prop where
  items : ∃ before after, w.items = before ++ item :: after ∧ rest.items = before ++ after
  queued : ∀ k, rest.queued.contains k = true ↔
    w.queued.contains k = true ∧ item ≠ .propagate k

/-- The first item is one that may leave. -/
theorem takes_of_pop {w rest : Worklist} {item : WorkItem} (popped : w.pop = some (item, rest)) :
    w.Takes item rest where
  items := ⟨[], rest.items, items_of_pop popped, rfl⟩
  queued k := by
    obtain ⟨v, -, queued, -, rfl⟩ := exists_release_of_pop popped
    rw [contains_queued_release, queued]

namespace Takes

variable {w rest : Worklist} {item : WorkItem}

theorem mem_iff (takes : w.Takes item rest) (other : WorkItem) :
    other ∈ w.items ↔ other = item ∨ other ∈ rest.items := by
  obtain ⟨before, after, here, there⟩ := takes.items
  simp only [here, there, List.mem_append, List.mem_cons]
  exact or_left_comm

theorem size (takes : w.Takes item rest) : w.size = rest.size + 1 := by
  obtain ⟨before, after, here, there⟩ := takes.items
  simp only [size_eq_length_items, here, there, List.length_append, List.length_cons]
  omega

/-- What waits afterwards waited before, in the same order. -/
theorem sublist (takes : w.Takes item rest) : rest.items.Sublist w.items := by
  obtain ⟨before, after, here, there⟩ := takes.items
  rw [here, there]
  exact (List.sublist_cons_self item after).append_left before

theorem coherent (takes : w.Takes item rest) (h : w.Coherent) : rest.Coherent := by
  intro k believed
  obtain ⟨before, other⟩ := (takes.queued k).mp believed
  exact ((takes.mem_iff _).mp (h k before)).resolve_left (Ne.symm other)

end Takes

/-- The second worklist is the first one with some locations put on it. -/
inductive Queues (w : Worklist) : Worklist → Prop
  | refl : Queues w w
  | push {v : Worklist} (k : Nat) : Queues w v → Queues w (v.push (.propagate k)).2

namespace Queues

variable {v w : Worklist}

theorem trans {x : Worklist} (first : w.Queues v) (second : v.Queues x) : w.Queues x := by
  induction second with
  | refl => exact first
  | push k _ ih => exact .push k ih

theorem coherent (h : w.Queues v) (coherent : w.Coherent) : v.Coherent := by
  induction h with
  | refl => exact coherent
  | push k _ ih => exact ih.push _

/-- Visits and bindings are not put on it. -/
theorem mem_of_mem (h : w.Queues v) {item : WorkItem} (other : item.key? = none)
    (waits : item ∈ v.items) : item ∈ w.items := by
  induction h with
  | refl => exact waits
  | push k _ ih =>
      rcases mem_items_of_push waits with before | rfl
      · exact ih before
      · cases other

end Queues

end CallFlow.Worklist
