import Mathlib.Data.Finset.Card
import CallFlow.Proofs.Calling
import CallFlow.Proofs.Wakeups

/-! Counters and recounts. In each state on the way, the counters of a solver are what there is to
count: objects that locations hold, edges, and attached constraints. -/

namespace CallFlow

section Rows

variable {α : Type} {row : Nat → List α} {n : Nat}

/-- What stands in the first rows, each with the number of its row. -/
def rows (row : Nat → List α) (n : Nat) : List (Nat × α) :=
  (List.range n).flatMap fun k => (row k).map fun x => (k, x)

theorem mem_rows {k : Nat} {x : α} : (k, x) ∈ rows row n ↔ k < n ∧ x ∈ row k := by
  simp [rows]

theorem length_rows (row : Nat → List α) (n : Nat) :
    (rows row n).length = sumOver (fun k => (row k).length) (List.range n) := by
  unfold rows
  induction List.range n with
  | nil => rfl
  | cons k ks ih => simp [ih]

theorem nodup_rows (once : ∀ k, (row k).Nodup) : (rows row n).Nodup := by
  refine List.nodup_flatMap.mpr ⟨fun k _ => ?_, ?_⟩
  · exact (once k).map fun _ _ same => (Prod.mk.inj same).2
  · refine List.nodup_range.imp fun {i j} apart => ?_
    intro pair here there
    obtain ⟨x, -, rfl⟩ := List.mem_map.mp here
    obtain ⟨y, -, same⟩ := List.mem_map.mp there
    exact apart (Prod.mk.inj same).1.symm

/-- In rows without repetition there are as many different things as the rows are long. -/
theorem card_rows [DecidableEq α] (once : ∀ k, (row k).Nodup) :
    (rows row n).toFinset.card = sumOver (fun k => (row k).length) (List.range n) :=
  (List.toFinset_card_of_nodup (nodup_rows once)).trans (length_rows row n)

end Rows

/-- What may be done to a solver or with its worklist. Whoever takes an item off the worklist need
not do what it says. -/
inductive Action where
  | operation (op : Operation)
  | next
deriving DecidableEq

namespace Solver

variable {s t : Solver} {k : Nat}

def act (s : Solver) : Action → Solver
  | .operation op => s.perform op
  | .next => (s.next?.map Prod.snd).getD s

def actAll (s : Solver) : List Action → Solver
  | [] => s
  | c :: cs => (s.act c).actAll cs

def admits (s : Solver) : Action → Bool
  | .operation op => s.permits op
  | .next => true

/-- Whether all numbers of each action were handed out when its turn comes. -/
def admitsAll (s : Solver) : List Action → Bool
  | [] => true
  | c :: cs => s.admits c && (s.act c).admitsAll cs

/-- The edges, each as its source and its target. -/
def edgeList (s : Solver) : List (Nat × Nat) := rows s.successors s.locations.size

def constraintList (s : Solver) : List (Nat × Constraint) := rows s.constraints s.locations.size

/-- The counters are what there is to count. -/
structure Recounted (s : Solver) : Prop where
  facts : s.counters.facts = sumOver (fun k => (s.facts k).size) (List.range s.locations.size)
  edges : s.counters.edges = s.edgeList.toFinset.card
  /-- Every edge is listed, and none is kept twice or leads back to its source. -/
  mem_edges : ∀ a b, (a, b) ∈ s.edgeList ↔ b ∈ s.successors a
  nodup_edges : ∀ a, (s.successors a).Nodup
  noLoops : ∀ a, a ∉ s.successors a
  constraints : s.counters.constraints = s.constraintList.toFinset.card
  /-- Every constraint is listed, and none is kept twice. -/
  mem_constraints : ∀ k c, (k, c) ∈ s.constraintList ↔ c ∈ s.constraints k
  nodup_constraints : ∀ k, (s.constraints k).Nodup

theorem total_eq_sumOver (s : Solver) (f : Cell → Nat) :
    s.total f = sumOver (fun k => f (s.cell k)) (List.range s.cells.size) := by
  have cells : s.cells.toList = (List.range s.cells.size).map s.cell := by
    refine List.ext_getElem (by simp) fun k bound _ => ?_
    simp only [Array.length_toList] at bound
    simp [cell, Array.getD, bound]
  rw [total, cells, sumOver_map]

theorem total_successors (s : Solver) :
    s.total (·.successors.size) =
      sumOver (fun k => (s.successors k).length) (List.range s.cells.size) := by
  rw [total_eq_sumOver]
  simp only [successors, Numbering.size_eq_length_values]

theorem total_constraints (s : Solver) :
    s.total (·.constraints.size) =
      sumOver (fun k => (s.constraints k).length) (List.range s.cells.size) := by
  rw [total_eq_sumOver]
  simp only [constraints, Numbering.size_eq_length_values]

theorem nodup_successors (s : Solver) (k : Nat) : (s.successors k).Nodup :=
  (s.cell k).successors.nodup

theorem nodup_constraints (s : Solver) (k : Nat) : (s.constraints k).Nodup :=
  (s.cell k).constraints.nodup

/-- The edges are counted, and none of them leads back to its source. -/
structure EdgesCounted (s : Solver) : Prop where
  count : s.counters.edges = s.total (·.successors.size)
  noLoops : ∀ k, k ∉ s.successors k

theorem EdgesCounted.of_same (before : s.EdgesCounted)
    (edges : t.counters.edges = s.counters.edges) (size : t.cells.size = s.cells.size)
    (successors : ∀ k, t.successors k = s.successors k) : t.EdgesCounted where
  count := by
    have total := s.total_successors
    simp only [← successors, ← size, ← total_successors] at total
    rw [edges, before.count, total]
  noLoops k := successors k ▸ before.noLoops k

theorem edges_require (s : Solver) (k : Nat) : (s.require k).counters.edges = s.counters.edges := by
  unfold require
  split <;> rfl

theorem edges_grow (s : Solver) (k : Nat) (added : IdSet) (gained : Nat) :
    (s.grow k added gained).counters.edges = s.counters.edges := by
  simp only [grow, push, counters_updateCell]

theorem edges_give (s : Solver) (k : Nat) (extended : Bool × IdSet) :
    (s.give k extended).counters.edges = s.counters.edges := by
  unfold give
  split
  · exact edges_grow ..
  · exact edges_require ..

theorem edges_unionInto (s : Solver) (added : IdSet) (k : Nat) :
    (s.unionInto added k).counters.edges = s.counters.edges := edges_give ..

theorem edges_addFact (s : Solver) (k object : Nat) :
    (s.addFact k object).2.counters.edges = s.counters.edges :=
  addFact_eq s k object ▸ edges_give ..

theorem edges_addConstraint (s : Solver) (k : Nat) (c : Constraint) :
    (s.addConstraint k c).2.counters.edges = s.counters.edges := by
  cases known : (s.cell k).constraints.contains c with
  | true => rw [addConstraint_of_old known]
  | false =>
      rw [addConstraint_of_new known]
      split <;> simp only [imposeOnly, push, counters_updateCell]

theorem EdgesCounted.location (before : s.EdgesCounted) (l : Location) :
    (s.location l).2.EdgesCounted where
  count := before.count.trans (s.total_location l rfl).symm
  noLoops k := successors_of_cell (cell_location s l k) ▸ before.noLoops k

theorem EdgesCounted.linkOnly {src dst : Nat} (before : s.EdgesCounted) (bound : src < s.cells.size)
    (new : ¬ (src = dst ∨ (s.cell src).successors.contains dst)) :
    (s.linkOnly src dst).EdgesCounted where
  count := by
    have unknown : (s.cell src).successors.contains dst = false :=
      Bool.eq_false_iff.mpr fun known => new (.inr known)
    have total : (s.linkOnly src dst).total (·.successors.size) + (s.cell src).successors.size =
        s.total (·.successors.size) + ((s.cell src).successors.number dst).2.size :=
      total_updateCell (·.successors.size) (Cell.link dst) bound
    have size : ((s.cell src).successors.number dst).2.size = (s.cell src).successors.size + 1 :=
      Numbering.size_number_of_new unknown
    have edges : (s.linkOnly src dst).counters.edges = s.counters.edges + 1 := by
      simp only [Solver.linkOnly, counters_updateCell]
    have old := before.count
    omega
  noLoops k loop := by
    rcases (mem_successors_linkOnly dst bound k k).mp loop with old | ⟨rfl, same⟩
    · exact before.noLoops k old
    · exact new (.inl same)

theorem EdgesCounted.unionInto {added : IdSet} (before : s.EdgesCounted)
    (bound : k < s.cells.size) : (s.unionInto added k).EdgesCounted :=
  before.of_same (edges_unionInto ..) (keeps_unionInto ..).size (successors_unionInto added bound)

theorem EdgesCounted.addEdge {src dst : Nat} (before : s.EdgesCounted)
    (srcBound : src < s.cells.size) (dstBound : dst < s.cells.size) :
    (s.addEdge src dst).2.EdgesCounted := by
  by_cases old : src = dst ∨ (s.cell src).successors.contains dst
  · rw [addEdge_of_old old]
    exact before
  · rw [addEdge_of_new old]
    have linked := before.linkOnly srcBound old
    split
    · exact linked
    · exact linked.unionInto ((keeps_linkOnly s src dst).size ▸ dstBound)

theorem Builds.edgesCounted (builds : s.Builds t) (before : s.EdgesCounted) : t.EdgesCounted := by
  induction builds with
  | refl => exact before
  | name n _ ih => exact ih.of_same rfl rfl fun _ => rfl
  | object o _ ih => exact ih.of_same rfl rfl fun _ => rfl
  | location l _ ih => exact ih.location l
  | count n _ ih => exact ih.of_same rfl rfl fun _ => rfl
  | addFact object bound _ ih =>
      exact ih.of_same (edges_addFact ..) (keeps_addFact ..).size (successors_addFact object bound)
  | unionInto _ bound _ ih => exact ih.unionInto bound
  | addEdge src dst _ ih => exact ih.addEdge src dst
  | addConstraint c bound _ ih =>
      exact ih.of_same (edges_addConstraint ..) (keeps_addConstraint ..).size
        (successors_addConstraint c bound)

/-- What is true of a solver whatever is done to it. -/
structure Kept (s : Solver) : Prop where
  valid : s.Valid some
  handed : ∀ k, s.Waits k → k < s.cells.size
  counted : s.Counted
  edges : s.EdgesCounted

theorem Kept.recounted (kept : s.Kept) : s.Recounted where
  facts := by rw [kept.counted.facts, total_eq_sumOver, kept.valid.size]; rfl
  edges := by
    rw [kept.edges.count, total_successors, kept.valid.size]
    exact (card_rows s.nodup_successors).symm
  mem_edges a b := mem_rows.trans (and_iff_right_of_imp fun edge =>
    kept.valid.size ▸ (kept.valid.successors a b edge).1)
  nodup_edges := s.nodup_successors
  noLoops := kept.edges.noLoops
  constraints := by
    rw [kept.counted.constraints, total_constraints, kept.valid.size]
    exact (card_rows s.nodup_constraints).symm
  mem_constraints k c := mem_rows.trans (and_iff_right_of_imp fun imposed =>
    kept.valid.size ▸ (kept.valid.constraints k c imposed).1)
  nodup_constraints := s.nodup_constraints

theorem Kept.enacts {js : List (Finding Nat)} (kept : s.Kept) (enacted : Enacts some s t js) :
    t.Kept where
  valid := enacted.valid
  handed k waits := by
    -- a location that did not wait before holds something now
    rcases enacted.grows.busy k waits with before | held
    · obtain ⟨p, here⟩ := kept.valid.place (kept.handed k before)
      exact enacted.valid.lt_size ((enacted.grows.tables some).place? here)
    · exact enacted.valid.lt_size_of_members held
  counted := (enacted.builds.accounts kept.valid.ascending).counted kept.counted
  edges := enacted.builds.edgesCounted kept.edges

theorem Kept.withWork {w : Worklist} (kept : s.Kept) (coherent : w.Coherent)
    (handed : ∀ k, .propagate k ∈ w.items → k < s.cells.size) : (s.withWork w).Kept where
  valid := kept.valid.worklist coherent
  handed := handed
  counted := ⟨kept.counted.facts, kept.counted.constraints⟩
  edges := ⟨kept.edges.count, kept.edges.noLoops⟩

theorem Kept.takes {item : WorkItem} {rest : Worklist} (kept : s.Kept)
    (takes : s.worklist.Takes item rest) : (s.withWork rest).Kept :=
  kept.withWork (takes.coherent kept.valid.coherent) fun k waits =>
    kept.handed k ((takes.mem_iff _).mpr (.inr waits))

theorem Kept.propagate (kept : s.Kept) (bound : k < s.cells.size) : (s.propagate k).2.Kept := by
  obtain ⟨p, here⟩ := kept.valid.place bound
  obtain ⟨js, enacted, -⟩ := enacts_propagate kept.valid s.nodesDistinct here
  exact kept.enacts enacted

theorem Kept.push {item : WorkItem} (kept : s.Kept) (permitted : s.permits (.push item) = true) :
    (s.push item).Kept := by
  refine kept.withWork (kept.valid.coherent.push item) fun k waits => ?_
  rcases Worklist.mem_items_of_push waits with before | rfl
  · exact kept.handed k before
  · obtain ⟨p, here⟩ := kept.valid.place_of_handed permitted
    exact kept.valid.lt_size here

theorem Kept.work (kept : s.Kept) : (s.serve .work).2.Kept := by
  rcases s.serve_work_cases with ⟨-, same⟩ | ⟨item, rest, takes, -, same⟩ | ⟨k, rest, takes, same⟩
  · rw [same]
    exact kept
  · rw [same]
    exact kept.takes takes
  · rw [same]
    exact (kept.takes takes).propagate (kept.handed k ((takes.mem_iff _).mpr (.inl rfl)))

theorem Kept.perform {op : Operation} (kept : s.Kept) (permitted : s.permits op = true) :
    (s.perform op).Kept := by
  cases op with
  | push item => exact kept.push permitted
  | propagate k =>
      obtain ⟨p, here⟩ := kept.valid.place_of_handed permitted
      exact kept.propagate (kept.valid.lt_size here)
  | request q =>
      by_cases work : q = .work
      · subst work
        exact kept.work
      · exact kept.enacts (enacts_serve kept.valid permitted work).2

theorem Kept.next (kept : s.Kept) : (s.act .next).Kept := by
  unfold act
  cases taken : s.next? with
  | none => exact kept
  | some found =>
      obtain ⟨item, t⟩ := found
      obtain ⟨rest, popped, rfl⟩ := next?_eq_some taken
      exact kept.takes (Worklist.takes_of_pop popped)

theorem Kept.actAll {cs : List Action} (kept : s.Kept) (admitted : s.admitsAll cs = true) :
    (s.actAll cs).Kept := by
  induction cs generalizing s with
  | nil => exact kept
  | cons c cs ih =>
      obtain ⟨first, rest⟩ := Bool.and_eq_true_iff.mp admitted
      refine ih ?_ rest
      cases c with
      | operation op => exact kept.perform first
      | next => exact kept.next

theorem kept_new (r : Reflection) : (new r).Kept where
  valid := valid_new r some
  handed _ waits := nomatch waits
  counted := ⟨rfl, rfl⟩
  edges := ⟨rfl, fun k => by simp [successors_new]⟩

end Solver

/-- What a construction that is reached counted is what its answer holds, however it ended. -/
theorem Construction.Reached.counters_finish {u : Setup} {c : Construction}
    (reached : Construction.Reached u c) (ended : Completion) :
    (c.finish u ended).counters.facts = (c.finish u ended).solution.factCount := by
  have counted : c.solver.counters.facts = c.solver.total (·.facts.size) :=
    reached.accounted.counted.facts
  rw [Solution.factCount, finish, Solver.solution]
  simp only [Array.toList_map, sumOver_map]
  exact counted

/-- Whatever is done to a new solver, with numbers that it handed out, its counters are what a
recount gives; and so are those of an analysis, whether it is complete or was cut short. -/
theorem counters_recounted :
    (∀ (r : Reflection) (actions : List Action), (Solver.new r).admitsAll actions = true →
      ((Solver.new r).actAll actions).Recounted) ∧
    ∀ p o monitor a, analyze p o monitor = .ok a →
      a.counters.facts = a.solution.factCount ∧
      a.counters.locations = a.solution.locations.size ∧
      a.counters.objects = a.solution.objects.size := by
  refine ⟨fun r actions admitted => ((Solver.kept_new r).actAll admitted).recounted, ?_⟩
  intro p o monitor a run
  obtain ⟨-, -, c, reached, same, -⟩ := exists_reached_of_analyze run
  rw [same]
  exact ⟨reached.counters_finish _, rfl, rfl⟩

/-- What is done when a key is looked up, and a turn that is taken off the worklist and left out. -/
def Sample.abandoned : List Action := driven.map .operation ++ [.next]

/-- The counters are right although a turn was left out, and although the analysis of the small
program was stopped on its way. -/
theorem counters_recounted_samples :
    (Solver.new .full).admitsAll Sample.abandoned = true ∧
    (((Solver.new .full).actAll Sample.abandoned).Recounted ∧
      ((Solver.new .full).actAll Sample.abandoned).edgeList = [(5, 4), (6, 2), (7, 2)] ∧
      ((Solver.new .full).actAll Sample.abandoned).counters.edges = 3) ∧
    ∃ a, analyze .tour .thorough stopAfterTen = .ok a ∧
      a.completion = .cut (.canceled .requested) ∧ a.counters.facts = 17 ∧
      a.counters.facts = a.solution.factCount ∧
      a.counters.locations = a.solution.locations.size ∧
      a.counters.objects = a.solution.objects.size := by
  have admitted : (Solver.new .full).admitsAll Sample.abandoned = true := by decide +kernel
  have run := analyze_eq (p := .tour) (o := .thorough) (by rfl) (by rfl) stopAfterTen
  refine ⟨admitted, ⟨counters_recounted.1 .full _ admitted, ?_, ?_⟩, _, run, ?_, ?_,
    counters_recounted.2 _ _ _ _ run⟩
  all_goals decide +kernel

end CallFlow
