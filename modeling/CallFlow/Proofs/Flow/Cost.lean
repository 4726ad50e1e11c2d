import CallFlow.Proofs.Flow.Builds

/-! What the work of a solver is worth. A location is put on the worklist only if it gains an object
or a constraint, and the counters count just these. -/

namespace CallFlow

theorem sumOver_modify {α : Type} (f : α → Nat) (g : α → α) {xs : List α} {k : Nat}
    (bound : k < xs.length) :
    sumOver f (xs.modify k g) + f xs[k] = sumOver f xs + f (g xs[k]) := by
  induction xs generalizing k with
  | nil => cases bound
  | cons x xs ih =>
      cases k with
      | zero =>
          simp only [List.modify_zero_cons, sumOver_cons, List.getElem_cons_zero]
          omega
      | succ k =>
          have rest := ih (Nat.lt_of_succ_lt_succ bound)
          simp only [List.modify_succ_cons, sumOver_cons, List.getElem_cons_succ]
          omega

theorem Worklist.length_items_push_le (w : Worklist) (item : WorkItem) :
    (w.push item).2.items.length ≤ w.items.length + 1 := by
  rw [items_push]
  split <;> simp

namespace Solver

variable {s t u : Solver} {k : Nat}

/-- What all cells amount to, by what each does. -/
def total (s : Solver) (f : Cell → Nat) : Nat := sumOver f s.cells.toList

theorem total_updateCell (f : Cell → Nat) (g : Cell → Cell) (bound : k < s.cells.size) :
    (s.updateCell k g).total f + f (s.cell k) = s.total f + f (g (s.cell k)) := by
  have cells : (s.updateCell k g).cells.toList = s.cells.toList.modify k g := by
    unfold updateCell require
    rw [if_pos bound]
    exact Array.toList_modify
  have inside : k < s.cells.toList.length := by simpa using bound
  have here : s.cell k = s.cells.toList[k] := by simp [cell, Array.getD, bound]
  unfold total
  rw [cells, here]
  exact sumOver_modify f g inside

/-- The counters count the objects that locations hold and the constraints that are attached to
them. -/
structure Counted (s : Solver) : Prop where
  facts : s.counters.facts = s.total (·.facts.size)
  constraints : s.counters.constraints = s.total (·.constraints.size)

/-- How much was found that may put a location on the worklist. -/
def gains (s : Solver) : Nat := s.counters.facts + s.counters.constraints

theorem pending_push_le (s : Solver) (item : WorkItem) : (s.push item).pending ≤ s.pending + 1 := by
  have length := s.worklist.length_items_push_le item
  rwa [← Worklist.size_eq_length_items, ← Worklist.size_eq_length_items] at length

/-- What waits more is paid for, and the counters stay right. -/
structure Accounts (s t : Solver) : Prop where
  counted : s.Counted → t.Counted
  paid : t.pending + s.gains ≤ s.pending + t.gains

theorem Accounts.refl (s : Solver) : s.Accounts s := ⟨id, Nat.le_refl _⟩

theorem Accounts.trans (first : s.Accounts t) (second : t.Accounts u) : s.Accounts u where
  counted before := second.counted (first.counted before)
  paid := by
    have one := first.paid
    have two := second.paid
    omega

/-- Nothing that is counted changes. -/
theorem Accounts.of_same (facts : t.counters.facts = s.counters.facts)
    (constraints : t.counters.constraints = s.counters.constraints)
    (worklist : t.worklist = s.worklist) (held : t.total (·.facts.size) = s.total (·.facts.size))
    (imposed : t.total (·.constraints.size) = s.total (·.constraints.size)) : s.Accounts t where
  counted before :=
    ⟨facts.trans (before.facts.trans held.symm),
      constraints.trans (before.constraints.trans imposed.symm)⟩
  paid := by simp only [pending, gains, facts, constraints, worklist, Nat.le_refl]

theorem total_of_cells (same : t.cells = s.cells) (f : Cell → Nat) : t.total f = s.total f := by
  unfold total
  rw [same]

theorem accounts_require (s : Solver) (k : Nat) : s.Accounts (s.require k) := by
  have cells : (s.require k).cells = s.cells := by unfold require; split <;> rfl
  refine .of_same ?_ ?_ (worklist_require s k) (total_of_cells cells _) (total_of_cells cells _) <;>
    · unfold require
      split <;> rfl

theorem counters_updateCell (s : Solver) (k : Nat) (f : Cell → Cell) :
    (s.updateCell k f).counters = s.counters := by
  unfold updateCell require
  split <;> rfl

/-- A cell that nothing was added to amounts to nothing. -/
theorem total_location (s : Solver) (l : Location) {f : Cell → Nat} (none : f {} = 0) :
    (s.location l).2.total f = s.total f := by
  unfold total location
  dsimp only
  split <;> simp [none]

theorem accounts_location (s : Solver) (l : Location) : s.Accounts (s.location l).2 :=
  .of_same rfl rfl rfl (s.total_location l rfl) (s.total_location l rfl)

/-- A location that is given a larger set pays for its turn, if what is new is counted. -/
theorem accounts_grow {added : IdSet} {gained : Nat} (bound : k < s.cells.size)
    (counts : (s.facts k).size + gained = added.size) (some : 0 < gained) :
    s.Accounts (s.grow k added gained) := by
  have held : (s.grow k added gained).total (·.facts.size) + (s.facts k).size =
      s.total (·.facts.size) + added.size :=
    total_updateCell (·.facts.size) (fun c => { c with facts := added }) bound
  have imposed : (s.grow k added gained).total (·.constraints.size) +
      (s.cell k).constraints.size = s.total (·.constraints.size) + (s.cell k).constraints.size :=
    total_updateCell (·.constraints.size) (fun c => { c with facts := added }) bound
  have counters : (s.grow k added gained).counters =
      { s.counters with facts := s.counters.facts + gained } := by
    unfold grow
    simp only [push, counters_updateCell]
  -- the turn that is due is one item more at most, and the set has one member more at least
  have waiting : (s.grow k added gained).pending ≤ s.pending + 1 := by
    have length := s.worklist.length_items_push_le (.propagate k)
    rwa [← worklist_grow s k added gained, ← Worklist.size_eq_length_items,
      ← Worklist.size_eq_length_items] at length
  refine ⟨fun before => ⟨?_, ?_⟩, ?_⟩
  · rw [counters]
    have old := before.facts
    dsimp only
    omega
  · rw [counters]
    have old := before.constraints
    dsimp only
    omega
  · simp only [gains, counters]
    omega

theorem accounts_give {extended : Bool × IdSet} (bound : k < s.cells.size)
    (larger : extended.1 = true → (s.facts k).size < extended.2.size) :
    s.Accounts (s.give k extended) := by
  unfold give
  split
  · rename_i grown
    have less := larger grown
    exact accounts_grow bound (Nat.add_sub_cancel' (Nat.le_of_lt less)) (Nat.sub_pos_of_lt less)
  · exact accounts_require s k

theorem accounts_unionInto {added : IdSet} (bound : k < s.cells.size) (ascending : added.Ascending)
    (all : ∀ j, (s.facts j).Ascending) : s.Accounts (s.unionInto added k) :=
  accounts_give bound ((all k).size_union ascending)

theorem accounts_addFact {object : Nat} (bound : k < s.cells.size) :
    s.Accounts (s.addFact k object).2 := by
  rw [addFact_eq]
  refine accounts_give bound fun grown => ?_
  rw [IdSet.size_insert grown]
  exact Nat.lt_succ_self _

theorem accounts_linkOnly {src : Nat} (dst : Nat) (bound : src < s.cells.size) :
    s.Accounts (s.linkOnly src dst) := by
  have held : (s.linkOnly src dst).total (·.facts.size) + (s.facts src).size =
      s.total (·.facts.size) + (s.facts src).size :=
    total_updateCell (·.facts.size) (Cell.link dst) bound
  have imposed : (s.linkOnly src dst).total (·.constraints.size) + (s.cell src).constraints.size =
      s.total (·.constraints.size) + (s.cell src).constraints.size :=
    total_updateCell (·.constraints.size) (Cell.link dst) bound
  refine .of_same ?_ ?_ (worklist_linkOnly s src dst) (Nat.add_right_cancel held)
    (Nat.add_right_cancel imposed) <;>
    · unfold linkOnly
      simp only [counters_updateCell]

theorem accounts_addEdge {src dst : Nat} (srcBound : src < s.cells.size)
    (dstBound : dst < s.cells.size) (all : ∀ j, (s.facts j).Ascending) :
    s.Accounts (s.addEdge src dst).2 := by
  by_cases old : src = dst ∨ (s.cell src).successors.contains dst
  · rw [addEdge_of_old old]
    exact .refl s
  · rw [addEdge_of_new old]
    have linked : ∀ j, ((s.linkOnly src dst).facts j).Ascending :=
      fun j => facts_linkOnly dst srcBound j ▸ all j
    split
    · exact accounts_linkOnly dst srcBound
    · exact (accounts_linkOnly dst srcBound).trans
        (accounts_unionInto ((keeps_linkOnly s src dst).size ▸ dstBound) (linked src) linked)

/-- A constraint that is attached pays for the turn of its location. -/
theorem accounts_addConstraint (c : Constraint) (bound : k < s.cells.size) :
    s.Accounts (s.addConstraint k c).2 := by
  cases known : (s.cell k).constraints.contains c with
  | true =>
      rw [addConstraint_of_old known]
      exact .refl s
  | false =>
      have held : (s.imposeOnly k c).total (·.facts.size) + (s.facts k).size =
          s.total (·.facts.size) + (s.facts k).size :=
        total_updateCell (·.facts.size) (Cell.impose c) bound
      have imposed : (s.imposeOnly k c).total (·.constraints.size) + (s.cell k).constraints.size =
          s.total (·.constraints.size) + ((s.cell k).constraints.number c).2.size :=
        total_updateCell (·.constraints.size) (Cell.impose c) bound
      have size : ((s.cell k).constraints.number c).2.size = (s.cell k).constraints.size + 1 :=
        Numbering.size_number_of_new known
      have counters : (s.imposeOnly k c).counters =
          { s.counters with constraints := s.counters.constraints + 1 } := by
        unfold imposeOnly
        simp only [counters_updateCell]
      have counted : s.Counted → (s.imposeOnly k c).Counted := by
        refine fun before => ⟨?_, ?_⟩
        · rw [counters]
          have old := before.facts
          dsimp only
          omega
        · rw [counters]
          have old := before.constraints
          dsimp only
          omega
      have gains : (s.imposeOnly k c).gains = s.gains + 1 := by
        simp only [Solver.gains, counters]
        omega
      have waiting : (s.imposeOnly k c).pending = s.pending :=
        congrArg Worklist.size (worklist_imposeOnly s k c)
      rw [addConstraint_of_new known]
      split
      · exact ⟨counted, by omega⟩
      · refine ⟨fun before => ⟨(counted before).facts, (counted before).constraints⟩, ?_⟩
        have length := pending_push_le (s.imposeOnly k c) (.propagate k)
        have same : ((s.imposeOnly k c).push (.propagate k)).gains = (s.imposeOnly k c).gains := rfl
        omega

/-- Whatever is done to a solver pays for what it puts on the worklist. -/
theorem Builds.accounts (h : s.Builds t) (all : ∀ k, (s.facts k).Ascending) : s.Accounts t := by
  induction h with
  | refl => exact .refl s
  | name n _ ih => exact ih.trans (.of_same rfl rfl rfl rfl rfl)
  | object o _ ih => exact ih.trans (.of_same rfl rfl rfl rfl rfl)
  | location l _ ih => exact ih.trans (accounts_location _ l)
  | count n _ ih => exact ih.trans (.of_same rfl rfl rfl rfl rfl)
  | addFact object bound _ ih => exact ih.trans (accounts_addFact bound)
  | unionInto ascending bound builds ih =>
      exact ih.trans (accounts_unionInto bound ascending (builds.ascending all))
  | addEdge src dst builds ih =>
      exact ih.trans (accounts_addEdge src dst (builds.ascending all))
  | addConstraint c bound _ ih => exact ih.trans (accounts_addConstraint c bound)

end Solver

end CallFlow
