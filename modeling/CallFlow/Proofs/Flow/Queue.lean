import CallFlow.Proofs.Flow.Worklist

/-! Worklists as queues. The set of the locations that wait stays in step with the queue, and books
of what was accepted and of what left show that items leave in the order in which they were
accepted. -/

namespace CallFlow.Worklist

variable {w rest : Worklist} {item : WorkItem}

/-- The locations that are believed to wait are just those that do, and each of them waits once. -/
structure InStep (w : Worklist) : Prop where
  queued : ∀ k, w.queued.contains k = true ↔ .propagate k ∈ w.items
  once : ∀ k, w.items.count (.propagate k) ≤ 1

namespace InStep

theorem empty : Worklist.empty.InStep where
  queued k := by simp [Worklist.empty, items]
  once k := by simp

theorem coherent (inStep : w.InStep) : w.Coherent := fun k => (inStep.queued k).mp

/-- Just a location that waits is refused. -/
theorem refused_iff (inStep : w.InStep) (item : WorkItem) :
    (w.push item).1 = false ↔ item ∈ w.items ∧ ∃ k, item = .propagate k := by
  rw [refused_push_iff]
  constructor
  · rintro ⟨k, rfl, believed⟩
    exact ⟨(inStep.queued k).mp believed, k, rfl⟩
  · rintro ⟨waits, k, rfl⟩
    exact ⟨k, rfl, (inStep.queued k).mpr waits⟩

theorem push (inStep : w.InStep) (item : WorkItem) : (w.push item).2.InStep where
  queued k := by
    rw [contains_queued_push, inStep.queued, inStep.coherent.mem_items_push_iff, @eq_comm _ item]
  once k := by
    rw [items_push]
    split
    · rename_i accepted
      rw [List.count_append]
      by_cases same : item = .propagate k
      · -- it was accepted, so it did not wait before
        have absent : .propagate k ∉ w.items := by
          intro waits
          have refused := (inStep.refused_iff item).mpr ⟨same ▸ waits, k, same⟩
          exact absurd accepted (Bool.eq_false_iff.mp refused)
        rw [List.count_eq_zero_of_not_mem absent, Nat.zero_add]
        exact List.count_le_length
      · rw [List.count_singleton, if_neg (by simpa using same)]
        exact inStep.once k
    · exact inStep.once k

/-- A location that left does not wait any longer. -/
theorem notMem_of_takes (inStep : w.InStep) {k : Nat} (takes : w.Takes (.propagate k) rest) :
    .propagate k ∉ rest.items := by
  intro still
  obtain ⟨before, after, here, there⟩ := takes.items
  have once := inStep.once k
  have more : 0 < (before ++ after).count (.propagate k) := List.count_pos_iff.mpr (there ▸ still)
  rw [here, List.count_append, List.count_cons_self] at once
  rw [List.count_append] at more
  omega

theorem takes (inStep : w.InStep) (takes : w.Takes item rest) : rest.InStep where
  queued k := by
    rw [takes.queued, inStep.queued, takes.mem_iff]
    constructor
    · rintro ⟨same | waits, other⟩
      · exact absurd same.symm other
      · exact waits
    · refine fun waits => ⟨.inr waits, ?_⟩
      rintro rfl
      exact inStep.notMem_of_takes takes waits
  once k := Nat.le_trans (takes.sublist.count_le _) (inStep.once k)

/-- Whatever left may be put on again. -/
theorem accepted_of_takes (inStep : w.InStep) (takes : w.Takes item rest) :
    (rest.push item).1 = true := by
  rw [← Bool.not_eq_false, (inStep.takes takes).refused_iff]
  rintro ⟨waits, k, rfl⟩
  exact inStep.notMem_of_takes takes waits

end InStep

inductive Use where
  | push (item : WorkItem)
  | pop
deriving DecidableEq, Repr

/-- A worklist and its books: all items that it accepted and all that left it, in order. -/
structure Ledger where
  worklist : Worklist := .empty
  accepted : List WorkItem := []
  popped : List WorkItem := []
deriving DecidableEq, Repr

namespace Ledger

variable {l : Ledger}

/-- What is refused, and what does not leave because nothing waits, is not entered. -/
def enter (l : Ledger) : Use → Ledger
  | .push item =>
    { l with
      worklist := (l.worklist.push item).2
      accepted := if (l.worklist.push item).1 then l.accepted ++ [item] else l.accepted }
  | .pop =>
    match l.worklist.pop with
    | some (item, rest) => { l with worklist := rest, popped := l.popped ++ [item] }
    | none => l

def ofUses (uses : List Use) : Ledger := uses.foldl enter {}

/-- What left and what waits is, in order, what was accepted and counted. -/
structure Balanced (l : Ledger) : Prop where
  inStep : l.worklist.InStep
  order : l.popped ++ l.worklist.items = l.accepted
  total : l.worklist.pushed = l.accepted.length

theorem balanced_empty : Balanced {} := ⟨.empty, rfl, rfl⟩

theorem Balanced.push (balanced : l.Balanced) (item : WorkItem) :
    (l.enter (.push item)).Balanced where
  inStep := balanced.inStep.push item
  order := by
    simp only [enter, items_push]
    split
    · rw [← List.append_assoc, balanced.order]
    · exact balanced.order
  total := by
    simp only [enter, pushed_push, balanced.total]
    split <;> simp

theorem Balanced.pop (balanced : l.Balanced) : (l.enter .pop).Balanced := by
  unfold enter
  dsimp only
  split
  · rename_i item rest popped
    refine ⟨balanced.inStep.takes (takes_of_pop popped), ?_, ?_⟩
    · rw [List.append_assoc, List.singleton_append, ← items_of_pop popped, balanced.order]
    · exact (pushed_of_pop popped).trans balanced.total
  · exact balanced

theorem Balanced.foldl (balanced : l.Balanced) (uses : List Use) :
    (uses.foldl enter l).Balanced := by
  induction uses generalizing l with
  | nil => exact balanced
  | cons use uses ih =>
      cases use with
      | push item => exact ih (balanced.push item)
      | pop => exact ih balanced.pop

end Ledger

/-- However items are put on a worklist and taken off it, those that left and those that wait are
together the accepted ones, in the order in which they were accepted. The first one that waits
leaves next. The set of the locations that wait is right, and each of them waits once; only what is
one of them is refused, so that an item waits once it was put on, and an item that left may be put
on again. The counters count what was accepted and what waits. -/
theorem first_in_first_out (uses : List Use) :
    let l := Ledger.ofUses uses
    l.popped ++ l.worklist.items = l.accepted ∧
    l.worklist.pop.map Prod.fst = l.worklist.items.head? ∧
    (∀ k, l.worklist.queued.contains k = true ↔ .propagate k ∈ l.worklist.items) ∧
    (∀ k, l.worklist.items.count (.propagate k) ≤ 1) ∧
    (∀ item,
      ((l.worklist.push item).1 = false ↔ item ∈ l.worklist.items ∧ ∃ k, item = .propagate k) ∧
      item ∈ (l.worklist.push item).2.items) ∧
    (l.worklist.pop.all fun next => (next.2.push next.1).1) = true ∧
    l.worklist.pushed = l.accepted.length ∧
    l.worklist.size = l.worklist.items.length := by
  intro l
  have balanced : l.Balanced := Ledger.balanced_empty.foldl uses
  have inStep := balanced.inStep
  have again : (l.worklist.pop.all fun next => (next.2.push next.1).1) = true := by
    rw [Option.all_eq_true]
    exact fun next popped => inStep.accepted_of_takes (takes_of_pop popped)
  exact ⟨balanced.order, map_fst_pop _, inStep.queued, inStep.once,
    fun item => ⟨inStep.refused_iff item, inStep.coherent.mem_items_push item⟩, again,
    balanced.total, size_eq_length_items _⟩

/-- A location is refused while it waits and goes to the end of the queue when it comes again. -/
example :
    let l := Ledger.ofUses [.push (.propagate 1), .push (.propagate 1), .push (.visit 0), .pop,
      .push (.propagate 1)]
    l.accepted = [.propagate 1, .visit 0, .propagate 1] ∧ l.popped = [.propagate 1] ∧
      l.worklist.items = [.visit 0, .propagate 1] := by
  decide

end CallFlow.Worklist
