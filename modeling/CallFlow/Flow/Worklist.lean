import CallFlow.Dictionary
import CallFlow.Flow.Constraint

/-! The worklist: one queue, first in, first out. A location waits at most once at a time; visits of
nodes and bindings of calls are not looked for in the queue, and whoever adds them adds each once.
-/

namespace CallFlow

/-- One unit of work. -/
inductive WorkItem where
  /-- A location gained objects. -/
  | propagate (key : Nat)
  | visit (node : Nat)
  /-- A call found a function to run. -/
  | target (binding : Binding)
deriving DecidableEq, Repr

def WorkItem.key? : WorkItem → Option Nat
  | propagate k => some k
  | visit _ | target _ => none

/-- A queue in two lists: the items next to leave, in order, and those that came last, the last
one first. -/
structure Worklist where
  front : List WorkItem := []
  back : List WorkItem := []
  queued : KeySet Nat := .empty
  /-- How many items were accepted so far. -/
  pushed : Nat := 0
deriving DecidableEq, Repr

namespace Worklist

def empty : Worklist := {}

instance : Inhabited Worklist := ⟨empty⟩

def items (w : Worklist) : List WorkItem := w.front ++ w.back.reverse

def size (w : Worklist) : Nat := w.front.length + w.back.length

def isEmpty (w : Worklist) : Bool := w.front.isEmpty && w.back.isEmpty

def enqueue (w : Worklist) (item : WorkItem) : Worklist :=
  { w with back := item :: w.back, pushed := w.pushed + 1 }

/-- Adds an item, unless it is a location that waits already; the flag says whether it was
added. -/
def push (w : Worklist) (item : WorkItem) : Bool × Worklist :=
  match item.key? with
  | some k =>
    if w.queued.contains k then (false, w)
    else (true, { w.enqueue item with queued := w.queued.insert k })
  | none => (true, w.enqueue item)

def release (w : Worklist) (item : WorkItem) : Worklist :=
  match item.key? with
  | some k => { w with queued := w.queued.erase k }
  | none => w

def pop (w : Worklist) : Option (WorkItem × Worklist) :=
  match w.front with
  | item :: front => some (item, { w with front }.release item)
  | [] =>
    match w.back.reverse with
    | item :: front => some (item, { w with front, back := [] }.release item)
    | [] => none

@[simp]
theorem items_empty : empty.items = [] := rfl

theorem size_eq_length_items (w : Worklist) : w.size = w.items.length := by
  simp [size, items]

theorem items_release (w : Worklist) (item : WorkItem) : (w.release item).items = w.items := by
  unfold release
  split <;> rfl

theorem pushed_release (w : Worklist) (item : WorkItem) : (w.release item).pushed = w.pushed := by
  unfold release
  split <;> rfl

/-- An item that is accepted goes to the end of the queue, and one that is refused leaves the queue
as it is. -/
theorem items_push (w : Worklist) (item : WorkItem) :
    (w.push item).2.items = if (w.push item).1 then w.items ++ [item] else w.items := by
  unfold push
  split
  · split <;> simp [items, enqueue]
  · simp [items, enqueue]

theorem pushed_push (w : Worklist) (item : WorkItem) :
    (w.push item).2.pushed = if (w.push item).1 then w.pushed + 1 else w.pushed := by
  unfold push
  split
  · split <;> simp [enqueue]
  · simp [enqueue]

theorem exists_release_of_pop {w rest : Worklist} {item : WorkItem}
    (popped : w.pop = some (item, rest)) :
    ∃ v : Worklist, w.items = item :: v.items ∧ v.queued = w.queued ∧ v.pushed = w.pushed ∧
      rest = v.release item := by
  unfold pop at popped
  split at popped
  · rename_i waiting front
    obtain ⟨rfl, rfl⟩ := Prod.mk.inj (Option.some.inj popped)
    exact ⟨{ w with front := waiting }, by simp [items, front], rfl, rfl, rfl⟩
  · rename_i front
    split at popped
    · rename_i waiting back
      obtain ⟨rfl, rfl⟩ := Prod.mk.inj (Option.some.inj popped)
      exact ⟨{ w with front := waiting, back := [] }, by simp [items, front, back], rfl, rfl, rfl⟩
    · exact nomatch popped

theorem items_of_pop {w rest : Worklist} {item : WorkItem} (popped : w.pop = some (item, rest)) :
    w.items = item :: rest.items := by
  obtain ⟨v, items, -, -, rfl⟩ := exists_release_of_pop popped
  rw [items_release, items]

theorem pushed_of_pop {w rest : Worklist} {item : WorkItem} (popped : w.pop = some (item, rest)) :
    rest.pushed = w.pushed := by
  obtain ⟨v, -, -, pushed, rfl⟩ := exists_release_of_pop popped
  rw [pushed_release, pushed]

theorem pop_eq_none_iff (w : Worklist) : w.pop = none ↔ w.items = [] := by
  unfold pop items
  split
  · rename_i front
    simp [front]
  · rename_i front
    split <;> rename_i back <;> simp [front, back]

theorem map_fst_pop (w : Worklist) : w.pop.map Prod.fst = w.items.head? := by
  cases popped : w.pop with
  | none => rw [(pop_eq_none_iff w).mp popped]; rfl
  | some next => rw [items_of_pop popped]; rfl

end Worklist

end CallFlow
