import CallFlow.Proofs.Flow.Builds

/-! Locations in range: whatever a solver is built by asks for locations that it has handed out, so
that the mark for others is not set. -/

namespace CallFlow.Solver

variable {s t : Solver} {k : Nat}

theorem require_eq (bound : k < s.cells.size) : s.require k = s := if_pos bound

theorem lt_of_facts {i : Nat} (member : i ∈ (s.facts k).toList) : k < s.cells.size := by
  apply Nat.lt_of_not_le
  intro beyond
  have none : s.facts k = .empty := by
    unfold facts cell
    rw [Array.getD_eq_getD_getElem?, Array.getElem?_eq_none beyond]
    rfl
  rw [none] at member
  cases member

theorem dangling_require (bound : k < s.cells.size) : (s.require k).dangling = s.dangling := by
  rw [require_eq bound]

theorem dangling_grow (facts : IdSet) (gained : Nat) (bound : k < s.cells.size) :
    (s.grow k facts gained).dangling = s.dangling :=
  dangling_require bound

theorem dangling_give {extended : Bool × IdSet} (bound : k < s.cells.size) :
    (s.give k extended).dangling = s.dangling := by
  unfold give
  split
  · exact dangling_grow _ _ bound
  · exact dangling_require bound

theorem dangling_addFact (object : Nat) (bound : k < s.cells.size) :
    (s.addFact k object).2.dangling = s.dangling := addFact_eq s k object ▸ dangling_give bound

theorem dangling_unionInto (facts : IdSet) (bound : k < s.cells.size) :
    (s.unionInto facts k).dangling = s.dangling := dangling_give bound

theorem dangling_addEdge {src dst : Nat} (srcBound : src < s.cells.size)
    (dstBound : dst < s.cells.size) : (s.addEdge src dst).2.dangling = s.dangling := by
  by_cases old : src = dst ∨ (s.cell src).successors.contains dst
  · rw [addEdge_of_old old]
  · have linked : (s.linkOnly src dst).dangling = s.dangling := dangling_require srcBound
    rw [addEdge_of_new old]
    split
    · exact linked
    · rw [dangling_unionInto _ ((keeps_linkOnly s src dst).size ▸ dstBound)]
      exact linked

theorem dangling_addConstraint (c : Constraint) (bound : k < s.cells.size) :
    (s.addConstraint k c).2.dangling = s.dangling := by
  unfold addConstraint
  dsimp only
  split
  · rfl
  · dsimp only
    split
    · exact dangling_require bound
    · exact dangling_require bound

/-- Nothing that a solver is built by asks for a location out of range. -/
theorem Builds.dangling (h : s.Builds t) : t.dangling = s.dangling := by
  induction h with
  | refl => rfl
  | name n _ ih => exact ih
  | object o _ ih => exact ih
  | location l _ ih => exact ih
  | count n _ ih => exact ih
  | addFact object bound _ ih => rw [dangling_addFact object bound, ih]
  | unionInto ascending bound _ ih => rw [dangling_unionInto _ bound, ih]
  | addEdge src dst _ ih => rw [dangling_addEdge src dst, ih]
  | addConstraint c bound _ ih => rw [dangling_addConstraint c bound, ih]

end CallFlow.Solver
