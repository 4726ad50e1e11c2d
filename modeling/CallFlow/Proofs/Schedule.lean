import Mathlib.Logic.Relation
import CallFlow.Proofs.Interruption

/-! The order of the work. Any order leads to the same answer, since every construction with nothing
left to do knows just what follows by the rules, under whichever numbers. -/

namespace CallFlow

open Relation

namespace Worklist

/-- The item at a position of the queue, and the rest of the work. -/
def takeAt (w : Worklist) (i : Nat) : Option (WorkItem × Worklist) :=
  w.items[i]?.map fun item =>
    (item, { w with front := w.items.eraseIdx i, back := [] }.release item)

theorem takes_of_takeAt {w rest : Worklist} {i : Nat} {item : WorkItem}
    (taken : w.takeAt i = some (item, rest)) : w.Takes item rest := by
  obtain ⟨x, here, same⟩ := Option.map_eq_some_iff.mp taken
  obtain ⟨rfl, rfl⟩ := Prod.mk.inj same
  obtain ⟨bound, rfl⟩ := List.getElem?_eq_some_iff.mp here
  refine ⟨⟨w.items.take i, w.items.drop (i + 1), ?_, ?_⟩, contains_queued_release _ _⟩
  · rw [List.getElem_cons_drop, List.take_append_drop]
  · rw [items_release, ← List.eraseIdx_eq_take_drop_succ]
    exact List.append_nil _

end Worklist

namespace Construction

variable {u : Setup} {c d : Construction}

/-- One step in any order: some item that waits is worked off. -/
def Step (u : Setup) (c d : Construction) : Prop :=
  c.ceilingHit = false ∧ ∃ item rest, c.solver.worklist.Takes item rest ∧
    d = (c.popped rest).process u item

/-- Goes on until there is no work, `fuel` steps at most, and works off next what stands at the
position of the queue that is picked. -/
def runBy (u : Setup) (pick : Worklist → Nat) (fuel : Nat) (c : Construction) : Construction :=
  match fuel with
  | 0 => c
  | fuel + 1 =>
    if c.ceilingHit then c
    else
      match c.solver.worklist.takeAt (pick c.solver.worklist) with
      | none => c
      | some (item, rest) => ((c.popped rest).process u item).runBy u pick fuel

theorem steps_runBy (pick : Worklist → Nat) (fuel : Nat) (c : Construction) :
    ReflTransGen (Step u) c (c.runBy u pick fuel) := by
  induction fuel generalizing c with
  | zero => exact .refl
  | succ fuel ih =>
      unfold runBy
      split
      · exact .refl
      · rename_i below
        split
        · exact .refl
        · rename_i item rest taken
          have step : Step u c ((c.popped rest).process u item) :=
            ⟨Bool.eq_false_iff.mpr below, item, rest, Worklist.takes_of_takeAt taken, rfl⟩
          exact .head step (ih _)

/-- First in, first out is one of the orders. -/
theorem steps_runWithin (monitor : Nat → Option CancelReason) (fuel : Nat) (c : Construction) :
    ReflTransGen (Step u) c (c.runWithin u monitor fuel).2 := by
  induction fuel generalizing c with
  | zero => exact .refl
  | succ fuel ih =>
      unfold Construction.runWithin
      rcases step : c.advance u (monitor c.iterations) with ⟨_ | ended, d⟩
      · obtain ⟨below, item, rest, pop, rfl⟩ := advance_eq_none step
        exact .head ⟨below, item, rest, Worklist.takes_of_pop pop, rfl⟩ (ih _)
      · obtain ⟨rfl, -⟩ := advance_eq_some step
        exact .refl

/-- What is reached in any order is reached. -/
theorem Reached.of_steps (reached : Reached u c) (steps : ReflTransGen (Step u) c d) :
    Reached u d := by
  induction steps with
  | refl => exact reached
  | tail _ step ih =>
      obtain ⟨below, item, rest, takes, rfl⟩ := step
      exact ih.process below takes

/-- Two constructions with nothing left to do answer the same. -/
theorem Reached.within (first : Reached u c) (second : Reached u d) (unlimited : u.maxNodes = none)
    (idle : c.solver.worklist.items = []) (still : d.solver.worklist.items = []) :
    (c.finish u .complete).Within (d.finish u .complete) :=
  (first.exact_finish (first.accounted.below unlimited) idle).within
    (second.exact_finish (second.accounted.below unlimited) still)
    (fun _ _ => first.named_finish .complete) fun _ => .rfl

end Construction

open Construction

variable {p : Program} {o : Options} {c d : Construction}

/-- Whenever the worklist is empty without a ceiling, whatever was worked off first, the nodes, the
edges and the facts are the same under what names them. -/
theorem within_of_steps (unlimited : o.maxNodes = none)
    (first : ReflTransGen (Step (.ofOptions p o)) (start (.ofOptions p o)) c)
    (second : ReflTransGen (Step (.ofOptions p o)) (start (.ofOptions p o)) d)
    (idle : c.solver.worklist.items = []) (still : d.solver.worklist.items = []) :
    (c.finish (.ofOptions p o) .complete).Within (d.finish (.ofOptions p o) .complete) ∧
      (d.finish (.ofOptions p o) .complete).Within (c.finish (.ofOptions p o) .complete) := by
  have one := (reached_start _).of_steps first
  have other := (reached_start _).of_steps second
  exact ⟨one.within other unlimited idle still, other.within one unlimited still idle⟩

def tourAsQueue : Construction :=
  (start (.ofOptions .tour .thorough)).runBy (.ofOptions .tour .thorough) (fun _ => 0) 100

def tourAsStack : Construction :=
  (start (.ofOptions .tour .thorough)).runBy (.ofOptions .tour .thorough) (fun w => w.size - 1) 100

theorem idle_tour :
    tourAsQueue.solver.worklist.items = [] ∧ tourAsStack.solver.worklist.items = [] ∧
    tourAsQueue.graph.methods.values ≠ tourAsStack.graph.methods.values := by
  decide +kernel

/-- As by a queue and as by a stack, the small program's nodes are numbered differently. -/
theorem within_of_steps_tour :
    let u := Setup.ofOptions .tour .thorough
    Options.thorough.maxNodes = none ∧ ReflTransGen (Step u) (start u) tourAsQueue ∧
      ReflTransGen (Step u) (start u) tourAsStack ∧ tourAsQueue.solver.worklist.items = [] ∧
      tourAsStack.solver.worklist.items = [] ∧
      tourAsQueue.graph.methods.values ≠ tourAsStack.graph.methods.values ∧
      (tourAsQueue.finish u .complete).Within (tourAsStack.finish u .complete) ∧
      (tourAsStack.finish u .complete).Within (tourAsQueue.finish u .complete) := by
  intro u
  obtain ⟨idle, still, apart⟩ := idle_tour
  have first : ReflTransGen (Step u) (start u) tourAsQueue := steps_runBy _ 100 (start u)
  have second : ReflTransGen (Step u) (start u) tourAsStack := steps_runBy _ 100 (start u)
  obtain ⟨forth, back⟩ := within_of_steps rfl first second idle still
  exact ⟨rfl, first, second, idle, still, apart, forth, back⟩

end CallFlow
