import CallFlow.Proofs.Flow.Growth

/-! What a solver is built by: numbering, counting, and adding facts, sets, edges and constraints to
locations that were handed out. Whatever these few steps keep is kept by everything. -/

namespace CallFlow.Solver

/-- The second solver is the first one after some steps. -/
inductive Builds (s : Solver) : Solver → Prop
  | refl : Builds s s
  | name {t} (n : String) : Builds s t → Builds s (t.name n).2
  | object {t} (o : AbstractObject) : Builds s t → Builds s (t.object o).2
  | location {t} (l : Location) : Builds s t → Builds s (t.location l).2
  | count {t : Solver} (n : Nat) : Builds s t →
      Builds s { t with counters := { t.counters with propagations := n } }
  | addFact {t} {k : Nat} (object : Nat) : k < t.cells.size → Builds s t →
      Builds s (t.addFact k object).2
  | unionInto {t} {facts : IdSet} {k : Nat} : facts.Ascending → k < t.cells.size → Builds s t →
      Builds s (t.unionInto facts k)
  | addEdge {t} {src dst : Nat} : src < t.cells.size → dst < t.cells.size → Builds s t →
      Builds s (t.addEdge src dst).2
  | addConstraint {t} {k : Nat} (c : Constraint) : k < t.cells.size → Builds s t →
      Builds s (t.addConstraint k c).2

variable {s t u : Solver}

namespace Builds

theorem trans (first : s.Builds t) (second : t.Builds u) : s.Builds u := by
  induction second with
  | refl => exact first
  | name n _ ih => exact .name n ih
  | object o _ ih => exact .object o ih
  | location l _ ih => exact .location l ih
  | count n _ ih => exact .count n ih
  | addFact object bound _ ih => exact .addFact object bound ih
  | unionInto ascending bound _ ih => exact .unionInto ascending bound ih
  | addEdge src dst _ ih => exact .addEdge src dst ih
  | addConstraint c bound _ ih => exact .addConstraint c bound ih

theorem queues (h : s.Builds t) : s.worklist.Queues t.worklist := by
  induction h with
  | refl => exact .refl
  | name n _ ih => exact ih
  | object o _ ih => exact ih
  | location l _ ih => exact ih
  | count n _ ih => exact ih
  | addFact object bound _ ih => exact ih.trans (queues_addFact ..)
  | unionInto ascending bound _ ih => exact ih.trans (queues_unionInto ..)
  | addEdge src dst _ ih => exact ih.trans (queues_addEdge ..)
  | addConstraint c bound _ ih => exact ih.trans (queues_addConstraint ..)

end Builds

theorem ascending_unionInto {facts : IdSet} {k : Nat} (bound : k < s.cells.size)
    (added : facts.Ascending) (all : ∀ j, (s.facts j).Ascending) (j : Nat) :
    ((s.unionInto facts k).facts j).Ascending := by
  rw [facts_unionInto facts bound]
  split
  · exact (all k).union added
  · exact all j

theorem ascending_addFact {k : Nat} (object : Nat) (bound : k < s.cells.size)
    (all : ∀ j, (s.facts j).Ascending) (j : Nat) :
    ((s.addFact k object).2.facts j).Ascending := by
  rw [facts_addFact object bound]
  split
  · exact (all k).insert object
  · exact all j

theorem ascending_addEdge {src dst : Nat} (srcBound : src < s.cells.size)
    (dstBound : dst < s.cells.size) (all : ∀ j, (s.facts j).Ascending) (j : Nat) :
    ((s.addEdge src dst).2.facts j).Ascending := by
  have linked : ∀ j, ((s.linkOnly src dst).facts j).Ascending :=
    fun j => facts_linkOnly dst srcBound j ▸ all j
  by_cases old : src = dst ∨ (s.cell src).successors.contains dst
  · rw [addEdge_of_old old]
    exact all j
  · rw [addEdge_of_new old]
    split
    · exact linked j
    · exact ascending_unionInto ((keeps_linkOnly s src dst).size ▸ dstBound) (linked src) linked j

/-- All sets stay ascending. -/
theorem Builds.ascending (h : s.Builds t) (all : ∀ k, (s.facts k).Ascending) :
    ∀ k, (t.facts k).Ascending := by
  induction h with
  | refl => exact all
  | name n _ ih => exact ih
  | object o _ ih => exact ih
  | location l _ ih =>
      intro k
      rw [facts_of_cell (cell_location _ l k)]
      exact ih k
  | count n _ ih => exact ih
  | addFact object bound _ ih => exact ascending_addFact object bound ih
  | unionInto added bound _ ih => exact ascending_unionInto bound added ih
  | addEdge src dst _ ih => exact ascending_addEdge src dst ih
  | addConstraint c bound _ ih =>
      intro k
      rw [facts_addConstraint c bound k]
      exact ih k

end CallFlow.Solver
