import CallFlow.Flow.Solver
import CallFlow.Proofs.Flow.Worklist
import CallFlow.Proofs.IdSet
import CallFlow.Proofs.Numbering

/-! How a solver grows. A location that gained an object waits; a new edge has passed on what there
was, or its source waits; a new constraint has nothing to look at yet, or its location waits. That
no update is lost follows from this alone. -/

namespace CallFlow

def Cell.link (dst : Nat) (c : Cell) : Cell :=
  { c with successors := (c.successors.number dst).2 }

def Cell.impose (d : Constraint) (c : Cell) : Cell :=
  { c with constraints := (c.constraints.number d).2 }

namespace Solver

def members (s : Solver) (k : Nat) : List Nat := (s.facts k).toList

/-- The locations that hold all that a location holds. -/
def successors (s : Solver) (k : Nat) : List Nat := (s.cell k).successors.values

def constraints (s : Solver) (k : Nat) : List Constraint := (s.cell k).constraints.values

/-- A location waits for its turn. -/
def Waits (s : Solver) (k : Nat) : Prop := WorkItem.propagate k ∈ s.worklist.items

/-- One solver is another one, grown. -/
structure Grows (s t : Solver) : Prop where
  reflection : t.reflection = s.reflection
  names : s.names.Extends t.names
  objects : s.objects.Extends t.objects
  locations : s.locations.Extends t.locations
  members : ∀ k i, i ∈ s.members k → i ∈ t.members k
  successors : ∀ a b, b ∈ s.successors a → b ∈ t.successors a
  constraints : ∀ k c, c ∈ s.constraints k → c ∈ t.constraints k
  items : ∀ item, item ∈ s.worklist.items → item ∈ t.worklist.items
  /-- A location that gained an object waits. -/
  gained : ∀ k i, i ∈ t.members k → i ∈ s.members k ∨ t.Waits k
  /-- A new edge has passed on what there was, or its source waits. -/
  linked : ∀ a b, b ∈ t.successors a →
    b ∈ s.successors a ∨ t.Waits a ∨ ∀ i, i ∈ t.members a → i ∈ t.members b
  /-- A new constraint has nothing to look at, or its location waits. -/
  imposed : ∀ k c, c ∈ t.constraints k → c ∈ s.constraints k ∨ t.Waits k ∨ t.members k = []
  /-- A location that did not wait before waits for a reason. -/
  busy : ∀ k, t.Waits k → s.Waits k ∨ t.members k ≠ []

theorem Grows.of_cells {s t : Solver} (reflection : t.reflection = s.reflection)
    (names : s.names.Extends t.names) (objects : s.objects.Extends t.objects)
    (locations : s.locations.Extends t.locations) (cells : ∀ k, t.cell k = s.cell k)
    (items : ∀ item, item ∈ s.worklist.items → item ∈ t.worklist.items)
    (busy : ∀ k, t.Waits k → s.Waits k) : s.Grows t where
  reflection := reflection
  names := names
  objects := objects
  locations := locations
  members k i here := by simpa only [Solver.members, facts, cells] using here
  successors a b here := by simpa only [Solver.successors, cells] using here
  constraints k c here := by simpa only [Solver.constraints, cells] using here
  items := items
  gained k i here := .inl (by simpa only [Solver.members, facts, cells] using here)
  linked a b here := .inl (by simpa only [Solver.successors, cells] using here)
  imposed k c here := .inl (by simpa only [Solver.constraints, cells] using here)
  busy k waits := .inl (busy k waits)

theorem Grows.refl (s : Solver) : s.Grows s :=
  .of_cells rfl (.refl _) (.refl _) (.refl _) (fun _ => rfl) (fun _ here => here)
    fun _ waits => waits

theorem Grows.waits {s t : Solver} (h : s.Grows t) {k : Nat} (waits : s.Waits k) : t.Waits k :=
  h.items _ waits

theorem Grows.members_ne_nil {s t : Solver} (h : s.Grows t) {k : Nat} (some : s.members k ≠ []) :
    t.members k ≠ [] := by
  obtain ⟨i, held⟩ := List.exists_mem_of_ne_nil _ some
  exact List.ne_nil_of_mem (h.members k i held)

/-- If every location that waits holds something, this stays so. -/
theorem Grows.occupied {s t : Solver} (h : s.Grows t)
    (occupied : ∀ k, s.Waits k → s.members k ≠ []) : ∀ k, t.Waits k → t.members k ≠ [] := by
  intro k waits
  rcases h.busy k waits with before | some
  · exact h.members_ne_nil (occupied k before)
  · exact some

theorem Grows.trans {s t u : Solver} (first : s.Grows t) (second : t.Grows u) : s.Grows u where
  reflection := second.reflection.trans first.reflection
  names := first.names.trans second.names
  objects := first.objects.trans second.objects
  locations := first.locations.trans second.locations
  members k i here := second.members k i (first.members k i here)
  successors a b here := second.successors a b (first.successors a b here)
  constraints k c here := second.constraints k c (first.constraints k c here)
  items item here := second.items item (first.items item here)
  gained k i here := by
    rcases second.gained k i here with before | waits
    · exact (first.gained k i before).imp_right second.waits
    · exact .inr waits
  linked a b here := by
    rcases second.linked a b here with before | settled
    · rcases first.linked a b before with old | waits | passed
      · exact .inl old
      · exact .inr (.inl (second.waits waits))
      · -- the edge had passed on all there was at `t`; what its source gained since makes it wait
        by_cases waits : u.Waits a
        · exact .inr (.inl waits)
        · refine .inr (.inr fun i held => second.members b i (passed i ?_))
          exact (second.gained a i held).resolve_right waits
    · exact .inr settled
  imposed k c here := by
    rcases second.imposed k c here with before | settled
    · rcases first.imposed k c before with old | waits | none
      · exact .inl old
      · exact .inr (.inl (second.waits waits))
      · by_cases waits : u.Waits k
        · exact .inr (.inl waits)
        · refine .inr (.inr (List.eq_nil_iff_forall_not_mem.mpr fun i held => ?_))
          have before := (second.gained k i held).resolve_right waits
          rw [none] at before
          cases before
    · exact .inr settled
  busy k waits := by
    rcases second.busy k waits with before | some
    · exact (first.busy k before).imp_right second.members_ne_nil
    · exact .inr some

theorem cell_updateCell_self {s : Solver} {k : Nat} (f : Cell → Cell) (bound : k < s.cells.size) :
    (s.updateCell k f).cell k = f (s.cell k) := by
  simp [updateCell, require, bound, cell, Array.getD_eq_getD_getElem?, Array.getElem_modify]

theorem cell_updateCell_of_ne {s : Solver} {j k : Nat} (f : Cell → Cell) (apart : j ≠ k) :
    (s.updateCell k f).cell j = s.cell j := by
  have same : (s.require k).cells = s.cells := by
    unfold require
    split <;> rfl
  simp [updateCell, same, cell, Array.getD_eq_getD_getElem?, Array.getElem?_modify, apart.symm]

theorem cell_require (s : Solver) (j k : Nat) : (s.require k).cell j = s.cell j := by
  unfold require
  split <;> rfl

theorem cell_location (s : Solver) (l : Location) (k : Nat) :
    (s.location l).2.cell k = s.cell k := by
  unfold location
  dsimp only
  split
  · simp only [cell, Array.getD_eq_getD_getElem?, Array.getElem?_push]
    split
    · rename_i last
      simp [last]
    · rfl
  · rfl

theorem facts_of_cell {s t : Solver} {k : Nat} (same : t.cell k = s.cell k) :
    t.facts k = s.facts k := congrArg Cell.facts same

theorem members_of_cell {s t : Solver} {k : Nat} (same : t.cell k = s.cell k) :
    t.members k = s.members k := by
  simp only [members, facts, same]

theorem successors_of_cell {s t : Solver} {k : Nat} (same : t.cell k = s.cell k) :
    t.successors k = s.successors k := by
  simp only [successors, same]

theorem constraints_of_cell {s t : Solver} {k : Nat} (same : t.cell k = s.cell k) :
    t.constraints k = s.constraints k := by
  simp only [constraints, same]

theorem worklist_require (s : Solver) (k : Nat) : (s.require k).worklist = s.worklist := by
  unfold require
  split <;> rfl

theorem Waits.of_worklist {s t : Solver} {k : Nat} (same : t.worklist = s.worklist)
    (waits : t.Waits k) : s.Waits k := by
  unfold Waits at waits ⊢
  rwa [← same]

theorem grows_require (s : Solver) (k : Nat) : s.Grows (s.require k) := by
  have worklist := worklist_require s k
  refine .of_cells ?_ ?_ ?_ ?_ (cell_require s · k) (fun item here => worklist ▸ here)
    fun j waits => waits.of_worklist worklist
  all_goals
    unfold require
    split
  all_goals first | rfl | exact .refl _

theorem facts_grow {s : Solver} {k : Nat} (facts : IdSet) (gained : Nat)
    (bound : k < s.cells.size) (j : Nat) :
    (s.grow k facts gained).facts j = if j = k then facts else s.facts j := by
  split
  · rename_i same
    subst same
    have here := cell_updateCell_self (fun c => { c with facts }) bound
    exact congrArg (fun c => c.facts) here
  · rename_i apart
    exact congrArg Cell.facts (cell_updateCell_of_ne _ apart)

theorem members_grow {s : Solver} {k : Nat} (facts : IdSet) (gained : Nat)
    (bound : k < s.cells.size) (j : Nat) :
    (s.grow k facts gained).members j = if j = k then facts.toList else s.members j := by
  unfold members
  rw [facts_grow facts gained bound]
  split <;> rfl

theorem successors_grow {s : Solver} {k : Nat} (facts : IdSet) (gained : Nat)
    (bound : k < s.cells.size) (j : Nat) :
    (s.grow k facts gained).successors j = s.successors j := by
  by_cases same : j = k
  · subst same
    have here := cell_updateCell_self (fun c => { c with facts }) bound
    exact congrArg (fun c => c.successors.values) here
  · exact successors_of_cell (cell_updateCell_of_ne (fun c => { c with facts }) same)

theorem constraints_grow {s : Solver} {k : Nat} (facts : IdSet) (gained : Nat)
    (bound : k < s.cells.size) (j : Nat) :
    (s.grow k facts gained).constraints j = s.constraints j := by
  by_cases same : j = k
  · subst same
    have here := cell_updateCell_self (fun c => { c with facts }) bound
    exact congrArg (fun c => c.constraints.values) here
  · exact constraints_of_cell (cell_updateCell_of_ne (fun c => { c with facts }) same)

/-- Nothing was numbered in between. -/
structure Keeps (s t : Solver) : Prop where
  reflection : t.reflection = s.reflection
  names : t.names = s.names
  objects : t.objects = s.objects
  locations : t.locations = s.locations
  size : t.cells.size = s.cells.size

theorem Keeps.refl (s : Solver) : s.Keeps s := ⟨rfl, rfl, rfl, rfl, rfl⟩

theorem Keeps.trans {s t u : Solver} (first : s.Keeps t) (second : t.Keeps u) : s.Keeps u where
  reflection := second.reflection.trans first.reflection
  names := second.names.trans first.names
  objects := second.objects.trans first.objects
  locations := second.locations.trans first.locations
  size := second.size.trans first.size

theorem keeps_require (s : Solver) (k : Nat) : s.Keeps (s.require k) := by
  unfold require
  split <;> exact ⟨rfl, rfl, rfl, rfl, rfl⟩

theorem keeps_updateCell (s : Solver) (k : Nat) (f : Cell → Cell) : s.Keeps (s.updateCell k f) := by
  refine (keeps_require s k).trans ⟨rfl, rfl, rfl, rfl, ?_⟩
  exact Array.size_modify

theorem worklist_updateCell (s : Solver) (k : Nat) (f : Cell → Cell) :
    (s.updateCell k f).worklist = s.worklist := by
  unfold updateCell require
  split <;> rfl

theorem keeps_grow (s : Solver) (k : Nat) (facts : IdSet) (gained : Nat) :
    s.Keeps (s.grow k facts gained) := by
  have same := keeps_updateCell s k fun c => { c with facts }
  exact ⟨same.reflection, same.names, same.objects, same.locations, same.size⟩

theorem worklist_grow (s : Solver) (k : Nat) (facts : IdSet) (gained : Nat) :
    (s.grow k facts gained).worklist = (s.worklist.push (.propagate k)).2 := by
  have same := worklist_updateCell s k fun c => { c with facts }
  exact congrArg (fun w : Worklist => (w.push (.propagate k)).2) same

/-- A location that is given a larger set waits. -/
theorem grows_grow {s : Solver} {k : Nat} {facts : IdSet} (gained : Nat)
    (coherent : s.worklist.Coherent) (bound : k < s.cells.size)
    (larger : ∀ i, i ∈ s.members k → i ∈ facts.toList) (some : facts.toList ≠ []) :
    s.Grows (s.grow k facts gained) := by
  have keeps := keeps_grow s k facts gained
  have waits : (s.grow k facts gained).Waits k := by
    unfold Waits
    rw [worklist_grow]
    exact coherent.mem_items_push _
  refine
    { reflection := keeps.reflection
      names := fun i v here => keeps.names ▸ here
      objects := fun i v here => keeps.objects ▸ here
      locations := fun i v here => keeps.locations ▸ here
      members := ?_
      successors := fun a b here => successors_grow facts gained bound a ▸ here
      constraints := fun j c here => constraints_grow facts gained bound j ▸ here
      items := ?_
      gained := ?_
      linked := fun a b here => .inl (successors_grow facts gained bound a ▸ here)
      imposed := fun j c here => .inl (constraints_grow facts gained bound j ▸ here)
      busy := ?_ }
  · intro j i here
    rw [members_grow facts gained bound]
    split
    · rename_i same
      exact larger i (same ▸ here)
    · exact here
  · intro item here
    rw [worklist_grow]
    exact Worklist.mem_items_push_of_mem _ here
  · intro j i here
    rw [members_grow facts gained bound] at here
    split at here
    · rename_i same
      exact .inr (same ▸ waits)
    · exact .inl here
  · intro j here
    unfold Waits at here
    rw [worklist_grow] at here
    rcases Worklist.mem_items_of_push here with before | same
    · exact .inl before
    · cases same
      rw [members_grow facts gained bound, if_pos rfl]
      exact .inr some

theorem queues_grow (s : Solver) (k : Nat) (facts : IdSet) (gained : Nat) :
    s.worklist.Queues (s.grow k facts gained).worklist := by
  rw [worklist_grow]
  exact .push k .refl

/-- A solver after members were added to the set of a location: it grows if the set did. Adding a
fact and adding a set differ in nothing but how they extend the set. -/
def give (s : Solver) (k : Nat) (extended : Bool × IdSet) : Solver :=
  if extended.1 then s.grow k extended.2 (extended.2.size - (s.facts k).size) else s.require k

/-- The one object that is new is the difference that the set makes. -/
theorem addFact_eq (s : Solver) (k object : Nat) :
    (s.addFact k object).2 = s.give k ((s.facts k).insert object) := by
  unfold addFact give
  dsimp only
  split
  · rename_i grown
    have size := IdSet.size_insert grown
    rw [size, Nat.add_sub_cancel_left]
  · rfl

section Give

variable {s : Solver} {k : Nat} {extended : Bool × IdSet}

theorem keeps_give (s : Solver) (k : Nat) (extended : Bool × IdSet) :
    s.Keeps (s.give k extended) := by
  unfold give
  split
  · exact keeps_grow ..
  · exact keeps_require ..

theorem queues_give (s : Solver) (k : Nat) (extended : Bool × IdSet) :
    s.worklist.Queues (s.give k extended).worklist := by
  unfold give
  split
  · exact queues_grow ..
  · rw [worklist_require]
    exact .refl

theorem successors_give (bound : k < s.cells.size) (j : Nat) :
    (s.give k extended).successors j = s.successors j := by
  unfold give
  split
  · exact successors_grow _ _ bound j
  · exact successors_of_cell (cell_require s j k)

theorem constraints_give (bound : k < s.cells.size) (j : Nat) :
    (s.give k extended).constraints j = s.constraints j := by
  unfold give
  split
  · exact constraints_grow _ _ bound j
  · exact constraints_of_cell (cell_require s j k)

theorem facts_give (bound : k < s.cells.size)
    (kept : extended.1 = false → extended.2 = s.facts k) (j : Nat) :
    (s.give k extended).facts j = if j = k then extended.2 else s.facts j := by
  unfold give
  split
  · exact facts_grow _ _ bound j
  · rename_i same
    rw [facts_of_cell (cell_require s j k), kept (Bool.eq_false_iff.mpr same)]
    split
    · rename_i here
      exact congrArg s.facts here
    · rfl

theorem grows_give (coherent : s.worklist.Coherent) (bound : k < s.cells.size)
    (larger : ∀ i, i ∈ s.members k → i ∈ extended.2.toList)
    (some : extended.1 = true → extended.2.toList ≠ []) : s.Grows (s.give k extended) := by
  unfold give
  split
  · rename_i grown
    exact grows_grow _ coherent bound larger (some grown)
  · exact grows_require s k

end Give

theorem keeps_unionInto (s : Solver) (facts : IdSet) (k : Nat) : s.Keeps (s.unionInto facts k) :=
  keeps_give ..

theorem queues_unionInto (s : Solver) (facts : IdSet) (k : Nat) :
    s.worklist.Queues (s.unionInto facts k).worklist := queues_give ..

theorem successors_unionInto {s : Solver} {k : Nat} (facts : IdSet) (bound : k < s.cells.size)
    (j : Nat) : (s.unionInto facts k).successors j = s.successors j := successors_give bound j

theorem constraints_unionInto {s : Solver} {k : Nat} (facts : IdSet) (bound : k < s.cells.size)
    (j : Nat) : (s.unionInto facts k).constraints j = s.constraints j := constraints_give bound j

theorem facts_unionInto {s : Solver} {k : Nat} (facts : IdSet) (bound : k < s.cells.size)
    (j : Nat) : (s.unionInto facts k).facts j =
      if j = k then ((s.facts k).union facts).2 else s.facts j :=
  facts_give bound IdSet.union_of_not_grown j

theorem mem_members_unionInto {s : Solver} {k : Nat} (facts : IdSet) (bound : k < s.cells.size)
    (i j : Nat) :
    i ∈ (s.unionInto facts k).members j ↔ i ∈ s.members j ∨ j = k ∧ i ∈ facts.toList := by
  unfold members
  rw [facts_unionInto facts bound]
  split
  · rename_i same
    subst same
    rw [IdSet.mem_union]
    simp
  · rename_i apart
    simp [apart]

theorem grows_unionInto {s : Solver} {k : Nat} (facts : IdSet) (coherent : s.worklist.Coherent)
    (bound : k < s.cells.size) : s.Grows (s.unionInto facts k) := by
  have union := IdSet.mem_union (s.facts k) facts
  refine grows_give coherent bound (fun i here => (union i).mpr (.inl here)) fun grown => ?_
  obtain ⟨i, here⟩ := List.exists_mem_of_ne_nil _ (IdSet.ne_nil_of_union grown)
  exact List.ne_nil_of_mem ((union i).mpr (.inr here))

theorem keeps_addFact (s : Solver) (k object : Nat) : s.Keeps (s.addFact k object).2 :=
  addFact_eq s k object ▸ keeps_give ..

theorem queues_addFact (s : Solver) (k object : Nat) :
    s.worklist.Queues (s.addFact k object).2.worklist := addFact_eq s k object ▸ queues_give ..

theorem successors_addFact {s : Solver} {k : Nat} (object : Nat) (bound : k < s.cells.size)
    (j : Nat) : (s.addFact k object).2.successors j = s.successors j :=
  addFact_eq s k object ▸ successors_give bound j

theorem constraints_addFact {s : Solver} {k : Nat} (object : Nat) (bound : k < s.cells.size)
    (j : Nat) : (s.addFact k object).2.constraints j = s.constraints j :=
  addFact_eq s k object ▸ constraints_give bound j

theorem facts_addFact {s : Solver} {k : Nat} (object : Nat) (bound : k < s.cells.size)
    (j : Nat) : (s.addFact k object).2.facts j =
      if j = k then ((s.facts k).insert object).2 else s.facts j :=
  addFact_eq s k object ▸ facts_give bound IdSet.insert_of_not_grown j

theorem mem_members_addFact {s : Solver} {k : Nat} (object : Nat) (bound : k < s.cells.size)
    (i j : Nat) :
    i ∈ (s.addFact k object).2.members j ↔ i ∈ s.members j ∨ j = k ∧ i = object := by
  unfold members
  rw [facts_addFact object bound]
  split
  · rename_i same
    subst same
    rw [IdSet.mem_insert]
    simp [or_comm]
  · rename_i apart
    simp [apart]

theorem grows_addFact {s : Solver} {k : Nat} (object : Nat) (coherent : s.worklist.Coherent)
    (bound : k < s.cells.size) : s.Grows (s.addFact k object).2 := by
  have insert := IdSet.mem_insert (s.facts k) object
  rw [addFact_eq]
  exact grows_give coherent bound (fun i here => (insert i).mpr (.inr here))
    fun _ => List.ne_nil_of_mem ((insert object).mpr (.inl rfl))

def linkOnly (s : Solver) (src dst : Nat) : Solver :=
  let s := s.updateCell src (Cell.link dst)
  { s with counters := { s.counters with edges := s.counters.edges + 1 } }

theorem addEdge_of_new {s : Solver} {src dst : Nat}
    (new : ¬ (src = dst ∨ (s.cell src).successors.contains dst)) :
    (s.addEdge src dst).2 =
      if ((s.linkOnly src dst).facts src).isEmpty then s.linkOnly src dst
      else (s.linkOnly src dst).unionInto ((s.linkOnly src dst).facts src) dst := by
  unfold addEdge
  rw [if_neg new]
  rfl

theorem addEdge_of_old {s : Solver} {src dst : Nat}
    (old : src = dst ∨ (s.cell src).successors.contains dst) : (s.addEdge src dst).2 = s := by
  unfold addEdge
  rw [if_pos old]

theorem keeps_linkOnly (s : Solver) (src dst : Nat) : s.Keeps (s.linkOnly src dst) := by
  have same := keeps_updateCell s src (Cell.link dst)
  exact ⟨same.reflection, same.names, same.objects, same.locations, same.size⟩

theorem worklist_linkOnly (s : Solver) (src dst : Nat) :
    (s.linkOnly src dst).worklist = s.worklist := worklist_updateCell s src (Cell.link dst)

theorem facts_linkOnly {s : Solver} {src : Nat} (dst : Nat) (bound : src < s.cells.size)
    (j : Nat) : (s.linkOnly src dst).facts j = s.facts j := by
  by_cases same : j = src
  · subst same
    have here := cell_updateCell_self (Cell.link dst) bound
    exact congrArg (fun c => c.facts) here
  · exact facts_of_cell (cell_updateCell_of_ne _ same)

theorem members_linkOnly {s : Solver} {src : Nat} (dst : Nat) (bound : src < s.cells.size)
    (j : Nat) : (s.linkOnly src dst).members j = s.members j :=
  congrArg IdSet.toList (facts_linkOnly dst bound j)

theorem mem_successors_linkOnly {s : Solver} {src : Nat} (dst : Nat) (bound : src < s.cells.size)
    (a b : Nat) :
    b ∈ (s.linkOnly src dst).successors a ↔ b ∈ s.successors a ∨ a = src ∧ b = dst := by
  by_cases same : a = src
  · subst same
    have here := cell_updateCell_self (Cell.link dst) bound
    have values : (s.linkOnly a dst).successors a =
        ((s.cell a).successors.number dst).2.values :=
      congrArg (fun c => c.successors.values) here
    rw [values, Numbering.mem_values_number]
    simp [successors]
  · have values : (s.linkOnly src dst).successors a = s.successors a :=
      successors_of_cell (cell_updateCell_of_ne (Cell.link dst) same)
    simp [values, same]

theorem constraints_linkOnly {s : Solver} {src : Nat} (dst : Nat) (bound : src < s.cells.size)
    (j : Nat) : (s.linkOnly src dst).constraints j = s.constraints j := by
  by_cases same : j = src
  · subst same
    have here := cell_updateCell_self (Cell.link dst) bound
    exact congrArg (fun c => c.constraints.values) here
  · exact constraints_of_cell (cell_updateCell_of_ne _ same)

theorem keeps_addEdge (s : Solver) (src dst : Nat) : s.Keeps (s.addEdge src dst).2 := by
  by_cases old : src = dst ∨ (s.cell src).successors.contains dst
  · rw [addEdge_of_old old]
    exact .refl s
  · rw [addEdge_of_new old]
    split
    · exact keeps_linkOnly ..
    · exact (keeps_linkOnly ..).trans (keeps_unionInto ..)

theorem queues_addEdge (s : Solver) (src dst : Nat) :
    s.worklist.Queues (s.addEdge src dst).2.worklist := by
  by_cases old : src = dst ∨ (s.cell src).successors.contains dst
  · rw [addEdge_of_old old]
    exact .refl
  · rw [addEdge_of_new old, ← worklist_linkOnly s src dst]
    split
    · exact .refl
    · exact queues_unionInto ..

theorem mem_successors_addEdge {s : Solver} {src dst : Nat} (srcBound : src < s.cells.size)
    (dstBound : dst < s.cells.size) (a b : Nat) :
    b ∈ (s.addEdge src dst).2.successors a ↔
      b ∈ s.successors a ∨ src ≠ dst ∧ a = src ∧ b = dst := by
  by_cases old : src = dst ∨ (s.cell src).successors.contains dst
  · rw [addEdge_of_old old]
    constructor
    · exact .inl
    · rintro (here | ⟨apart, rfl, rfl⟩)
      · exact here
      · exact (Numbering.contains_iff_mem _ _).mp (old.resolve_left apart)
  · have apart : src ≠ dst := fun same => old (.inl same)
    have bound : dst < (s.linkOnly src dst).cells.size := (keeps_linkOnly s src dst).size ▸ dstBound
    rw [addEdge_of_new old]
    split
    · simp [mem_successors_linkOnly dst srcBound, apart]
    · simp [successors_unionInto _ bound, mem_successors_linkOnly dst srcBound, apart]

theorem constraints_addEdge {s : Solver} {src dst : Nat} (srcBound : src < s.cells.size)
    (dstBound : dst < s.cells.size) (j : Nat) :
    (s.addEdge src dst).2.constraints j = s.constraints j := by
  by_cases old : src = dst ∨ (s.cell src).successors.contains dst
  · rw [addEdge_of_old old]
  · have bound : dst < (s.linkOnly src dst).cells.size := (keeps_linkOnly s src dst).size ▸ dstBound
    rw [addEdge_of_new old]
    split
    · exact constraints_linkOnly dst srcBound j
    · rw [constraints_unionInto _ bound, constraints_linkOnly dst srcBound]

/-- A new edge passes on all that its source holds. -/
theorem mem_members_addEdge_of_new {s : Solver} {src dst : Nat} (srcBound : src < s.cells.size)
    (dstBound : dst < s.cells.size) (new : ¬ (src = dst ∨ (s.cell src).successors.contains dst))
    (i j : Nat) :
    i ∈ (s.addEdge src dst).2.members j ↔ i ∈ s.members j ∨ j = dst ∧ i ∈ s.members src := by
  have bound : dst < (s.linkOnly src dst).cells.size := (keeps_linkOnly s src dst).size ▸ dstBound
  have source := members_linkOnly dst srcBound src
  unfold members at source
  rw [addEdge_of_new new]
  split
  · rename_i nothing
    have none : s.members src = [] := source.symm.trans ((IdSet.isEmpty_iff _).mp nothing)
    simp [members_linkOnly dst srcBound, none]
  · rw [mem_members_unionInto _ bound, members_linkOnly dst srcBound, source]
    rfl

theorem mem_members_of_addEdge {s : Solver} {src dst : Nat} (srcBound : src < s.cells.size)
    (dstBound : dst < s.cells.size) {i j : Nat} (held : i ∈ (s.addEdge src dst).2.members j) :
    i ∈ s.members j ∨ j = dst ∧ i ∈ s.members src := by
  by_cases old : src = dst ∨ (s.cell src).successors.contains dst
  · rw [addEdge_of_old old] at held
    exact .inl held
  · exact (mem_members_addEdge_of_new srcBound dstBound old i j).mp held

theorem grows_addEdge {s : Solver} {src dst : Nat} (coherent : s.worklist.Coherent)
    (srcBound : src < s.cells.size) (dstBound : dst < s.cells.size) :
    s.Grows (s.addEdge src dst).2 := by
  by_cases old : src = dst ∨ (s.cell src).successors.contains dst
  · rw [addEdge_of_old old]
    exact .refl s
  · have bound : dst < (s.linkOnly src dst).cells.size := (keeps_linkOnly s src dst).size ▸ dstBound
    have keeps := keeps_addEdge s src dst
    have held := mem_members_addEdge_of_new srcBound dstBound old
    have worklist := worklist_linkOnly s src dst
    -- passing on the facts is growth of its own; only the edge itself has to be added to it
    have passed : (s.linkOnly src dst).Grows (s.addEdge src dst).2 := by
      rw [addEdge_of_new old]
      split
      · exact .refl _
      · exact grows_unionInto _ (worklist ▸ coherent) bound
    refine
      { reflection := keeps.reflection
        names := fun i v here => keeps.names ▸ here
        objects := fun i v here => keeps.objects ▸ here
        locations := fun i v here => keeps.locations ▸ here
        members := fun k i here => (held i k).mpr (.inl here)
        successors := fun a b here =>
          (mem_successors_addEdge srcBound dstBound a b).mpr (.inl here)
        constraints := fun k c here => constraints_addEdge srcBound dstBound k ▸ here
        items := fun item here => passed.items item (worklist ▸ here)
        gained := fun k i here => ?_
        linked := fun a b here => ?_
        imposed := fun k c here => .inl (constraints_addEdge srcBound dstBound k ▸ here)
        busy := fun k waits => (passed.busy k waits).imp_left (·.of_worklist worklist) }
    · exact members_linkOnly dst srcBound k ▸ passed.gained k i here
    · rcases (mem_successors_addEdge srcBound dstBound a b).mp here with before | ⟨apart, rfl, rfl⟩
      · exact .inl before
      · refine .inr (.inr fun i here => (held i b).mpr (.inr ⟨rfl, ?_⟩))
        exact ((held i a).mp here).elim id (·.2)

def imposeOnly (s : Solver) (k : Nat) (c : Constraint) : Solver :=
  let s := s.updateCell k (Cell.impose c)
  { s with counters := { s.counters with constraints := s.counters.constraints + 1 } }

theorem addConstraint_of_new {s : Solver} {k : Nat} {c : Constraint}
    (new : (s.cell k).constraints.contains c = false) :
    (s.addConstraint k c).2 =
      if ((s.imposeOnly k c).facts k).isEmpty then s.imposeOnly k c
      else (s.imposeOnly k c).push (.propagate k) := by
  unfold addConstraint
  rw [if_neg (Bool.eq_false_iff.mp new)]
  rfl

theorem addConstraint_of_old {s : Solver} {k : Nat} {c : Constraint}
    (old : (s.cell k).constraints.contains c = true) : (s.addConstraint k c).2 = s := by
  unfold addConstraint
  rw [if_pos old]

theorem keeps_imposeOnly (s : Solver) (k : Nat) (c : Constraint) :
    s.Keeps (s.imposeOnly k c) := by
  have same := keeps_updateCell s k (Cell.impose c)
  exact ⟨same.reflection, same.names, same.objects, same.locations, same.size⟩

theorem worklist_imposeOnly (s : Solver) (k : Nat) (c : Constraint) :
    (s.imposeOnly k c).worklist = s.worklist := worklist_updateCell s k (Cell.impose c)

theorem facts_imposeOnly {s : Solver} {k : Nat} (c : Constraint) (bound : k < s.cells.size)
    (j : Nat) : (s.imposeOnly k c).facts j = s.facts j := by
  by_cases same : j = k
  · subst same
    have here := cell_updateCell_self (Cell.impose c) bound
    exact congrArg (fun c => c.facts) here
  · exact facts_of_cell (cell_updateCell_of_ne _ same)

theorem members_imposeOnly {s : Solver} {k : Nat} (c : Constraint) (bound : k < s.cells.size)
    (j : Nat) : (s.imposeOnly k c).members j = s.members j :=
  congrArg IdSet.toList (facts_imposeOnly c bound j)

theorem successors_imposeOnly {s : Solver} {k : Nat} (c : Constraint) (bound : k < s.cells.size)
    (j : Nat) : (s.imposeOnly k c).successors j = s.successors j := by
  by_cases same : j = k
  · subst same
    have here := cell_updateCell_self (Cell.impose c) bound
    exact congrArg (fun c => c.successors.values) here
  · exact successors_of_cell (cell_updateCell_of_ne _ same)

theorem mem_constraints_imposeOnly {s : Solver} {k : Nat} (c : Constraint)
    (bound : k < s.cells.size) (j : Nat) (d : Constraint) :
    d ∈ (s.imposeOnly k c).constraints j ↔ d ∈ s.constraints j ∨ j = k ∧ d = c := by
  by_cases same : j = k
  · subst same
    have here := cell_updateCell_self (Cell.impose c) bound
    have values : (s.imposeOnly j c).constraints j =
        ((s.cell j).constraints.number c).2.values :=
      congrArg (fun c => c.constraints.values) here
    rw [values, Numbering.mem_values_number]
    simp [constraints]
  · have values : (s.imposeOnly k c).constraints j = s.constraints j :=
      constraints_of_cell (cell_updateCell_of_ne (Cell.impose c) same)
    simp [values, same]

theorem keeps_push (s : Solver) (item : WorkItem) : s.Keeps (s.push item) :=
  ⟨rfl, rfl, rfl, rfl, rfl⟩

/-- Visits and bindings only join the queue. -/
theorem grows_push (s : Solver) {item : WorkItem} (other : item.key? = none) :
    s.Grows (s.push item) := by
  refine .of_cells rfl (.refl _) (.refl _) (.refl _) (fun _ => rfl)
    (fun _ here => Worklist.mem_items_push_of_mem item here) fun k waits => ?_
  refine (Worklist.mem_items_of_push waits).resolve_right ?_
  rintro rfl
  cases other

theorem keeps_addConstraint (s : Solver) (k : Nat) (c : Constraint) :
    s.Keeps (s.addConstraint k c).2 := by
  cases known : (s.cell k).constraints.contains c with
  | true =>
      rw [addConstraint_of_old known]
      exact .refl s
  | false =>
      rw [addConstraint_of_new known]
      split
      · exact keeps_imposeOnly ..
      · exact (keeps_imposeOnly ..).trans (keeps_push ..)

theorem queues_addConstraint (s : Solver) (k : Nat) (c : Constraint) :
    s.worklist.Queues (s.addConstraint k c).2.worklist := by
  cases known : (s.cell k).constraints.contains c with
  | true =>
      rw [addConstraint_of_old known]
      exact .refl
  | false =>
      rw [addConstraint_of_new known, ← worklist_imposeOnly s k c]
      split
      · exact .refl
      · exact .push k .refl

theorem facts_addConstraint {s : Solver} {k : Nat} (c : Constraint) (bound : k < s.cells.size)
    (j : Nat) : (s.addConstraint k c).2.facts j = s.facts j := by
  cases known : (s.cell k).constraints.contains c with
  | true => rw [addConstraint_of_old known]
  | false =>
      rw [addConstraint_of_new known]
      split <;> exact facts_imposeOnly c bound j

theorem members_addConstraint {s : Solver} {k : Nat} (c : Constraint) (bound : k < s.cells.size)
    (j : Nat) : (s.addConstraint k c).2.members j = s.members j :=
  congrArg IdSet.toList (facts_addConstraint c bound j)

theorem successors_addConstraint {s : Solver} {k : Nat} (c : Constraint)
    (bound : k < s.cells.size) (j : Nat) :
    (s.addConstraint k c).2.successors j = s.successors j := by
  cases known : (s.cell k).constraints.contains c with
  | true => rw [addConstraint_of_old known]
  | false =>
      rw [addConstraint_of_new known]
      split <;> exact successors_imposeOnly c bound j

theorem mem_constraints_addConstraint {s : Solver} {k : Nat} (c : Constraint)
    (bound : k < s.cells.size) (j : Nat) (d : Constraint) :
    d ∈ (s.addConstraint k c).2.constraints j ↔ d ∈ s.constraints j ∨ j = k ∧ d = c := by
  cases known : (s.cell k).constraints.contains c with
  | true =>
      rw [addConstraint_of_old known]
      constructor
      · exact .inl
      · rintro (here | ⟨rfl, rfl⟩)
        · exact here
        · exact (Numbering.contains_iff_mem _ _).mp known
  | false =>
      rw [addConstraint_of_new known]
      split <;> exact mem_constraints_imposeOnly c bound j d

theorem grows_addConstraint {s : Solver} {k : Nat} (c : Constraint)
    (coherent : s.worklist.Coherent) (bound : k < s.cells.size) :
    s.Grows (s.addConstraint k c).2 := by
  have keeps := keeps_addConstraint s k c
  have held := members_addConstraint c bound
  have linked := successors_addConstraint c bound
  have imposed := mem_constraints_addConstraint c bound
  have worklist := worklist_imposeOnly s k c
  refine
    { reflection := keeps.reflection
      names := fun i v here => keeps.names ▸ here
      objects := fun i v here => keeps.objects ▸ here
      locations := fun i v here => keeps.locations ▸ here
      members := fun j i here => held j ▸ here
      successors := fun a b here => linked a ▸ here
      constraints := fun j d here => (imposed j d).mpr (.inl here)
      items := fun item here => ?_
      gained := fun j i here => .inl (held j ▸ here)
      linked := fun a b here => .inl (linked a ▸ here)
      imposed := fun j d here => ?_
      busy := fun j waits => ?_ }
  · cases known : (s.cell k).constraints.contains c with
    | true => rwa [addConstraint_of_old known]
    | false =>
        rw [addConstraint_of_new known]
        split
        · exact worklist ▸ here
        · exact Worklist.mem_items_push_of_mem _ (worklist ▸ here)
  · cases known : (s.cell k).constraints.contains c with
    | true =>
        rw [addConstraint_of_old known] at here
        exact .inl here
    | false =>
        rcases (imposed j d).mp here with before | ⟨rfl, rfl⟩
        · exact .inl before
        · rw [addConstraint_of_new known]
          split
          · rename_i nothing
            exact .inr (.inr ((IdSet.isEmpty_iff _).mp nothing))
          · exact .inr (.inl (Worklist.Coherent.mem_items_push (worklist ▸ coherent) _))
  · rw [held]
    cases known : (s.cell k).constraints.contains c with
    | true =>
        rw [addConstraint_of_old known] at waits
        exact .inl waits
    | false =>
        unfold Waits at waits
        rw [addConstraint_of_new known] at waits
        split at waits
        · exact .inl (Waits.of_worklist worklist waits)
        · rename_i some
          rcases Worklist.mem_items_of_push waits with before | same
          · exact .inl (Waits.of_worklist worklist before)
          · cases same
            rw [← members_imposeOnly c bound]
            exact .inr fun none => some ((IdSet.isEmpty_iff _).mpr none)

end Solver

end CallFlow
