import CallFlow.Proofs.LeastSolution

/-! A solver under any operation: whoever has it may also put anything on its worklist and give a
turn to any location, and a constraint that looks at two locations is attached to one after the
other. -/

namespace CallFlow

/-- What may be done to a solver. -/
inductive Operation where
  | request (q : Request)
  | push (item : WorkItem)
  /-- A location has a turn, whether it waits or not. -/
  | propagate (k : Nat)
deriving DecidableEq

/-- A constraint looks at two locations, which are these. -/
def Constraint.LooksAt (k l : Nat) : Constraint → Prop
  | dynamicLoad object key _ | dynamicStore object key _ =>
      (k = object ∧ l = key) ∨ (k = key ∧ l = object)
  | load _ _ | store _ _ | invoke _ => False

/-- A constraint looks at the location alone that it is attached to. -/
def Constraint.isStatic : Constraint → Bool
  | load _ _ | store _ _ | invoke _ => true
  | dynamicLoad _ _ _ | dynamicStore _ _ _ => false

namespace Operation

/-- A constraint that looks at two locations is attached to both, if the operation attaches one. -/
def isWhole : Operation → Bool
  | request (.addConstraint _ c) => c.isStatic
  | request _ | push _ | propagate _ => true

/-- Constraints that look at two locations are attached to one right after the other. -/
inductive Coupled : List Operation → Prop
  | nil : Coupled []
  | whole {op ops} : op.isWhole = true → Coupled ops → Coupled (op :: ops)
  | both {k l c ops} : c.LooksAt k l → Coupled ops →
      Coupled (request (.addConstraint k c) :: request (.addConstraint l c) :: ops)

theorem Coupled.append {ops rest : List Operation} (whole : ops.all isWhole = true)
    (coupled : Coupled rest) : Coupled (ops ++ rest) := by
  induction ops with
  | nil => exact coupled
  | cons op ops ih =>
      obtain ⟨first, others⟩ := Bool.and_eq_true_iff.mp whole
      exact .whole first (ih others)

end Operation

namespace Solver

def perform (s : Solver) : Operation → Solver
  | .request q => (s.serve q).2
  | .push item => s.push item
  | .propagate k => (s.propagate k).2

def performAll (s : Solver) : List Operation → Solver
  | [] => s
  | op :: ops => (s.perform op).performAll ops

def permits (s : Solver) : Operation → Bool
  | .request q => s.allows q
  | .push item => item.key?.all fun k => (s.locations.value? k).isSome
  | .propagate k => (s.locations.value? k).isSome

def permitsAll (s : Solver) : List Operation → Bool
  | [] => true
  | op :: ops => s.permits op && (s.perform op).permitsAll ops

variable {s t : Solver} {js : List (Finding Nat)}

/-- A place waits that holds something. -/
def Active (s : Solver) (p : Place Nat) : Prop := s.Waiting some p ∧ ∃ o, s.Holds some p o

/-- What is true of a solver whatever is done to it. -/
structure Tracked (s : Solver) : Prop where
  valid : s.Valid some
  handed : ∀ k, s.Waits k → ∃ p, (s.tables some).place? k = some p
  current : s.UpToDate some s.Active

theorem Grows.active (grown : s.Grows t) {p : Place Nat} (active : s.Active p) : t.Active p := by
  obtain ⟨waits, o, held⟩ := active
  exact ⟨grown.waiting waits, o, held.mono grown⟩

theorem Tracked.enacts (tracked : s.Tracked) (enacted : Enacts some s t js) : t.Tracked where
  valid := enacted.valid
  handed k waits := by
    rcases enacted.grows.busy k waits with before | held
    · obtain ⟨p, here⟩ := tracked.handed k before
      exact ⟨p, (enacted.grows.tables some).place? here⟩
    · obtain ⟨p, here, -⟩ := enacted.valid.exists_holds held
      exact ⟨p, here⟩
  current := tracked.current.grow tracked.valid enacted.grows t.nodesDistinct
    (fun _ => enacted.grows.active) fun _ o waits held => ⟨waits, o, held⟩

theorem active_withWork {w : Worklist} {p : Place Nat} :
    (s.withWork w).Active p ↔
      (∃ k, (s.tables some).place? k = some p ∧ .propagate k ∈ w.items) ∧
        ∃ o, s.Holds some p o := by
  have holds : (s.withWork w).Holds some = s.Holds some := holds_worklist_eq s some w
  unfold Active
  rw [holds]
  exact .rfl

/-- Another worklist leaves a solver tracked if all locations that have something to pass on wait
there. -/
theorem Tracked.withWork (tracked : s.Tracked) {w : Worklist} (coherent : w.Coherent)
    (handed : ∀ k, .propagate k ∈ w.items → ∃ p, (s.tables some).place? k = some p)
    (kept : ∀ p, s.Active p → (s.withWork w).Active p) : (s.withWork w).Tracked where
  valid := tracked.valid.worklist coherent
  handed := handed
  current := (tracked.current.worklist w).mono kept

theorem Tracked.push (tracked : s.Tracked) {item : WorkItem}
    (permitted : s.permits (.push item) = true) : (s.push item).Tracked := by
  refine tracked.withWork (tracked.valid.coherent.push item) (fun k waits => ?_) fun p active => ?_
  · rcases Worklist.mem_items_of_push waits with before | rfl
    · exact tracked.handed k before
    · exact tracked.valid.place_of_handed permitted
  · obtain ⟨⟨k, here, waits⟩, held⟩ := active
    exact active_withWork.mpr ⟨⟨k, here, Worklist.mem_items_push_of_mem item waits⟩, held⟩

section Turn

variable {item : WorkItem} {k : Nat} {rest : Worklist}

/-- What is left of the queue holds all that has something to pass on, but for what was taken. -/
theorem active_of_takes (takes : s.worklist.Takes item rest) {p : Place Nat} (active : s.Active p) :
    (∃ k, item = .propagate k ∧ (s.tables some).place? k = some p) ∨
      (s.withWork rest).Active p := by
  obtain ⟨⟨k, here, waits⟩, held⟩ := active
  rcases (takes.mem_iff _).mp waits with same | waits
  · exact .inl ⟨k, same.symm, here⟩
  · exact .inr (active_withWork.mpr ⟨⟨k, here, waits⟩, held⟩)

/-- To take an item that has nothing to pass on leaves a solver tracked. -/
theorem Tracked.takes (tracked : s.Tracked) (takes : s.worklist.Takes item rest)
    (empty : ∀ k, item = .propagate k → s.members k = []) : (s.withWork rest).Tracked := by
  refine tracked.withWork (takes.coherent tracked.valid.coherent) (fun k waits => ?_) ?_
  · exact tracked.handed k ((takes.mem_iff _).mpr (.inr waits))
  · intro p active
    refine (active_of_takes takes active).resolve_left ?_
    rintro ⟨k, same, here⟩
    obtain ⟨-, o, held⟩ := active
    cases held with
    | holds there _ member =>
        obtain rfl := Tables.place?_inj s.nodesDistinct here there
        rw [empty k same] at member
        cases member

theorem Tracked.propagate (tracked : s.Tracked) {p : Place Nat}
    (here : (s.tables some).place? k = some p) : (s.propagate k).2.Tracked := by
  obtain ⟨js, enacted, -⟩ := enacts_propagate tracked.valid s.nodesDistinct here
  exact tracked.enacts enacted

theorem Tracked.turn (tracked : s.Tracked) (takes : s.worklist.Takes (.propagate k) rest) :
    (s.turn k rest).Tracked := by
  obtain ⟨p, here⟩ := tracked.handed k ((takes.mem_iff _).mpr (.inl rfl))
  by_cases empty : s.members k = []
  · refine Tracked.propagate (tracked.takes takes fun l same => ?_) (p := p) here
    cases same
    exact empty
  · have valid : (s.withWork rest).Valid some :=
      tracked.valid.worklist (takes.coherent tracked.valid.coherent)
    have distinct := (s.withWork rest).nodesDistinct
    obtain ⟨q, there, held⟩ := valid.exists_holds (s := s.withWork rest) empty
    obtain ⟨js, enacted, -⟩ := enacts_propagate valid distinct there
    have left : (s.withWork rest).UpToDate some fun r => r = q ∨ (s.withWork rest).Active r := by
      refine (tracked.current.worklist rest).mono fun r active => ?_
      refine (active_of_takes takes active).imp_left ?_
      rintro ⟨l, same, stands⟩
      cases same
      exact Option.some.inj (stands.symm.trans there)
    refine ⟨enacted.valid, fun l waits => ?_, ?_⟩
    · rcases enacted.grows.busy l waits with before | some
      · obtain ⟨r, stands⟩ := tracked.handed l ((takes.mem_iff _).mpr (.inr before))
        exact ⟨r, (enacted.grows.tables Option.some).place? stands⟩
      · obtain ⟨r, stands, -⟩ := enacted.valid.exists_holds some
        exact ⟨r, stands⟩
    · exact left.propagate valid distinct there held (fun r => enacted.grows.active)
        fun r o waits held => ⟨waits, o, held⟩

end Turn

/-- Whatever is done to a solver with numbers that were handed out, it stays tracked. -/
theorem Tracked.perform {op : Operation} (tracked : s.Tracked) (permitted : s.permits op = true) :
    (s.perform op).Tracked := by
  cases op with
  | push item => exact tracked.push permitted
  | propagate k =>
      obtain ⟨p, here⟩ := tracked.valid.place_of_handed permitted
      exact tracked.propagate here
  | request q =>
      by_cases work : q = .work
      · subst work
        change (s.serve .work).2.Tracked
        rcases s.serve_work_cases with ⟨-, same⟩ | ⟨item, rest, takes, other, same⟩ |
          ⟨k, rest, takes, same⟩
        · rw [same]
          exact tracked
        · rw [same]
          refine tracked.takes takes fun k is => ?_
          rw [is] at other
          cases other
        · rw [same]
          exact tracked.turn takes
      · exact tracked.enacts (enacts_serve tracked.valid permitted work).2

theorem twinned_withWork {w : Worklist} : (s.withWork w).Twinned some ↔ s.Twinned some := by
  have knows : (s.withWork w).Knows some = s.Knows some := knows_worklist_eq s some w
  unfold Twinned
  rw [knows]

theorem Twinned.turn {k : Nat} {rest : Worklist} (twinned : s.Twinned some)
    (tracked : s.Tracked) (takes : s.worklist.Takes (.propagate k) rest) :
    (s.turn k rest).Twinned some := by
  obtain ⟨p, here⟩ := tracked.handed k ((takes.mem_iff _).mpr (.inl rfl))
  have valid : (s.withWork rest).Valid some :=
    tracked.valid.worklist (takes.coherent tracked.valid.coherent)
  exact Twinned.propagate valid (s.withWork rest).nodesDistinct here (twinned_withWork.mpr twinned)

theorem operands_of_isStatic {t : Tables Nat} {c : Constraint} {d : Demand Nat} (p : Place Nat)
    (alone : c.isStatic = true) (meant : t.demand? c = some d) : d.operands p = [p] := by
  cases Tables.StandsFor.of_demand? meant with
  | load => rfl
  | store => rfl
  | invoke => rfl
  | dynamicLoad => cases alone
  | dynamicStore => cases alone

/-- An operation asks for demands that look at one place, unless it attaches a constraint that looks
at two locations. -/
theorem paired_findings {t : Tables Nat} {q : Request}
    (whole : (Operation.request q).isWhole = true) : Paired (q.findings t) := by
  refine .of_single fun p d member => ?_
  cases q with
  | addConstraint k c =>
      simp only [Request.findings, Request.numbered, Request.addition?, List.nil_append,
        Option.mem_toList, Option.bind_eq_some_iff, Option.map_eq_some_iff,
        Finding.attached.injEq] at member
      obtain ⟨p', -, d', meant, rfl, rfl⟩ := member
      exact operands_of_isStatic p' whole meant
  | addFact k i =>
      simp [Request.findings, Request.numbered, Request.addition?,
        Option.bind_eq_some_iff] at member
  | addEdge a b =>
      simp [Request.findings, Request.numbered, Request.addition?,
        Option.bind_eq_some_iff] at member
  | _ => simp [Request.findings, Request.numbered, Request.addition?] at member

/-- An operation on its own keeps each demand attached to all that it looks at. -/
theorem Twinned.perform {op : Operation} (twinned : s.Twinned some) (tracked : s.Tracked)
    (permitted : s.permits op = true) (whole : op.isWhole = true) :
    (s.perform op).Twinned some := by
  cases op with
  | push item => exact twinned_withWork.mpr twinned
  | propagate k =>
      obtain ⟨p, here⟩ := tracked.valid.place_of_handed permitted
      exact Twinned.propagate tracked.valid s.nodesDistinct here twinned
  | request q =>
      by_cases work : q = .work
      · subst work
        change (s.serve .work).2.Twinned some
        rcases s.serve_work_cases with ⟨-, same⟩ | ⟨item, rest, takes, other, same⟩ |
          ⟨k, rest, takes, same⟩
        · rw [same]
          exact twinned
        · rw [same]
          exact twinned_withWork.mpr twinned
        · rw [same]
          exact twinned.turn tracked takes
      · have enacted := (enacts_serve tracked.valid permitted work).2
        exact enacted.twinned twinned (paired_findings whole)

/-- A constraint that looks at two locations stands for a demand that looks at their places,
wherever it is attached. -/
theorem exists_operands_of_looksAt {t : Tables Nat} {k l : Nat} {c : Constraint} {p : Place Nat}
    {d : Demand Nat} (looks : c.LooksAt k l) (here : t.place? k = some p)
    (meant : t.demand? c = some d) :
    ∃ q, t.place? l = some q ∧ ∀ x r, r ∈ d.operands x ↔ r = p ∨ r = q := by
  have either : ∀ {object key : Nat} {a b : Place Nat}, t.place? object = some a →
      t.place? key = some b → (k = object ∧ l = key) ∨ (k = key ∧ l = object) →
      ∃ q, t.place? l = some q ∧ ∀ r, r ∈ [a, b] ↔ r = p ∨ r = q := by
    rintro object key a b base named (⟨rfl, rfl⟩ | ⟨rfl, rfl⟩)
    · obtain rfl := Option.some.inj (base.symm.trans here)
      exact ⟨b, named, by simp⟩
    · obtain rfl := Option.some.inj (named.symm.trans here)
      exact ⟨a, base, by simp [or_comm]⟩
  cases Tables.StandsFor.of_demand? meant with
  | load => exact looks.elim
  | store => exact looks.elim
  | invoke => exact looks.elim
  | dynamicLoad base named =>
      obtain ⟨q, there, both⟩ := either base named looks
      exact ⟨q, there, fun _ => both⟩
  | dynamicStore base named =>
      obtain ⟨q, there, both⟩ := either base named looks
      exact ⟨q, there, fun _ => both⟩

theorem Tracked.attaches {k : Nat} {c : Constraint} (tracked : s.Tracked)
    (permitted : s.permits (.request (.addConstraint k c)) = true) :
    ∃ p d, (s.tables some).place? k = some p ∧ (s.tables some).demand? c = some d ∧
      Enacts some s (s.addConstraint k c).2 [.attached p d] := by
  obtain ⟨handed, means⟩ := Bool.and_eq_true_iff.mp permitted
  obtain ⟨p, here⟩ := tracked.valid.place_of_handed handed
  obtain ⟨d, meant⟩ := Option.isSome_iff_exists.mp means
  exact ⟨p, d, here, meant, enacts_addConstraint tracked.valid here meant⟩

/-- Attaching a constraint to both locations that it looks at keeps each demand attached to all that
it looks at. -/
theorem Twinned.both {k l : Nat} {c : Constraint} (twinned : s.Twinned some)
    (tracked : s.Tracked) (looks : c.LooksAt k l)
    (first : s.permits (.request (.addConstraint k c)) = true) :
    ((s.perform (.request (.addConstraint k c))).perform
      (.request (.addConstraint l c))).Twinned some := by
  change ((s.addConstraint k c).2.addConstraint l c).2.Twinned some
  obtain ⟨p, d, here, meant, one⟩ := tracked.attaches first
  obtain ⟨q, there, operands⟩ := exists_operands_of_looksAt looks here meant
  have extended := one.grows.tables some
  have other := enacts_addConstraint one.valid (extended.place? there) (extended.demand? meant)
  refine (one.trans other).twinned twinned fun p' d' member r operand => ?_
  have same : d' = d := by
    simp only [List.cons_append, List.nil_append, List.mem_cons, List.not_mem_nil, or_false,
      Finding.attached.injEq] at member
    exact member.elim And.right And.right
  subst same
  rcases (operands p' r).mp operand with rfl | rfl
  · exact List.mem_append_left _ List.mem_cons_self
  · exact List.mem_append_right _ List.mem_cons_self

end Solver

end CallFlow
