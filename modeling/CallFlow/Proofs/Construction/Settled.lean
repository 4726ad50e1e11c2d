import CallFlow.Proofs.Construction.Steps

/-! What is still to be done in a construction. While no node is refused, a construction is settled
but for the items that wait, so that one that has come to its end knows all that follows by the
rules. -/

namespace CallFlow.Construction

variable {u : Setup} {c d : Construction} {js : List (Finding Role)}

/-- The items that wait. -/
def Queued (c : Construction) (item : WorkItem) : Prop := item ∈ c.solver.worklist.items

/-- The places whose turn is among the given items. -/
def Turns (c : Construction) (todo : WorkItem → Prop) (p : Place Role) : Prop :=
  ∃ k, (c.solver.tables c.roles).place? k = some p ∧ todo (.propagate k)

/-- Everything is done, but for what the given items are there for. -/
structure Settled (u : Setup) (c : Construction) (todo : WorkItem → Prop) : Prop where
  twinned : c.solver.Twinned c.roles
  flow : c.solver.Settled c.roles (c.Turns todo)
  called : ∀ p n pc a o, c.Knows (.attached p (.invoke n pc a)) → c.Knows (.holds p o) →
    c.Turns todo p ∨ ∀ j ∈ u.dispatchFindings n pc a o, c.Knows j
  visited : ∀ i n, c.roles i = some n → n.1.function?.isSome →
    todo (.visit i) ∨ ∀ j ∈ u.visitFindings n, c.Knows j
  bound : ∀ b x, c.bindings.contains b = true → c.solver.Means c.roles b x →
    todo (.target b) ∨ ∀ j ∈ u.bindFindings x, c.Knows j

theorem knows_attached_iff {p : Place Role} {a : Demand Role} :
    c.Knows (.attached p a) ↔ c.solver.Knows c.roles (.attached p a) := by
  constructor
  · intro known
    cases known with
    | solver known => exact known
  · exact .solver

theorem knows_holds_iff {p : Place Role} {o : AbstractObject} :
    c.Knows (.holds p o) ↔ c.solver.Holds c.roles p o := by
  constructor
  · intro known
    cases known with
    | solver known => exact known
  · exact .solver

theorem nodesDistinct (c : Construction) : (c.solver.tables c.roles).NodesDistinct :=
  fun _ _ _ here there => Numbering.value?_inj here there

theorem Valid.widened (valid : c.Valid u) (grown : c.Grows d) : c.solver.Valid d.roles :=
  valid.solver.widen grown.roles

theorem Turns.mono {before after : WorkItem → Prop} (grown : c.Grows d)
    (wider : ∀ item, before item → after item) {p : Place Role} (turn : c.Turns before p) :
    d.Turns after p := by
  obtain ⟨k, here, turn⟩ := turn
  refine ⟨k, ?_, wider _ turn⟩
  exact (grown.solver.tables d.roles).place?
    ((Solver.tables_extends grown.roles c.solver).place? here)

/-- What a place holds after growth it held before, or it waits. -/
theorem Grows.holds (grown : c.Grows d) (valid : c.Valid u) {p : Place Role} {o : AbstractObject}
    (held : d.Knows (.holds p o)) : c.Knows (.holds p o) ∨ d.Turns d.Queued p := by
  refine (grown.solver.holds (valid.widened grown) (knows_holds_iff.mp held)).imp ?_ id
  exact fun before => .solver ((valid.solver.knows_widen grown.roles _).mp before)

/-- A demand that is attached after growth was attached before, or its place waits or holds
nothing. -/
theorem Grows.attached (grown : c.Grows d) (valid : c.Valid u) {p : Place Role} {a : Demand Role}
    (known : d.Knows (.attached p a)) :
    c.Knows (.attached p a) ∨ d.Turns d.Queued p ∨ ∀ o, ¬ d.Knows (.holds p o) := by
  refine (grown.solver.attached (valid.widened grown) d.nodesDistinct
    (knows_attached_iff.mp known)).imp ?_ (Or.imp id ?_)
  · exact fun before => .solver ((valid.solver.knows_widen grown.roles _).mp before)
  · exact fun none o held => none o (knows_holds_iff.mp held)

/-- Whatever is added leaves a construction settled but for the items that wait. -/
theorem Settled.grow {before after : WorkItem → Prop} (settled : c.Settled u before)
    (valid : c.Valid u) (grown : c.Grows d) (twinned : d.solver.Twinned d.roles)
    (wider : ∀ item, before item → after item)
    (queued : ∀ item, d.Queued item → after item) : d.Settled u after where
  twinned := twinned
  flow := by
    refine (settled.flow.widen grown.roles valid.solver).grow (valid.widened grown) grown.solver
      d.nodesDistinct (fun p => Turns.mono grown wider) ?_
    rintro p ⟨k, here, waits⟩
    exact ⟨k, here, queued _ waits⟩
  called p n pc a o attached held := by
    have turns : d.Turns d.Queued p → d.Turns after p := fun ⟨k, here, waits⟩ =>
      ⟨k, here, queued _ waits⟩
    rcases grown.holds valid held with before | waits
    · rcases grown.attached valid attached with old | waits | none
      · refine (settled.called p n pc a o old before).imp (Turns.mono grown wider) ?_
        exact fun known j member => (known j member).mono valid grown
      · exact .inl (turns waits)
      · exact absurd held (none o)
    · exact .inl (turns waits)
  visited i n here function := by
    rcases grown.visits i n here function with old | waits
    · refine (settled.visited i n old function).imp (wider _) ?_
      exact fun known j member => (known j member).mono valid grown
    · exact .inl (queued _ waits)
  bound b x found means := by
    rcases grown.targets b found with old | waits
    · refine (settled.bound b x old (valid.means_of_grows grown old means)).imp (wider _) ?_
      exact fun known j member => (known j member).mono valid grown
    · exact .inl (queued _ waits)

theorem paired_instruction (h : HeapPolicy) (n : Role) (f : FunctionId) (pc : Nat)
    (i : Instruction) : Paired (i.findings h n f pc) := by
  cases i with
  | getDynamic dst object key =>
      intro p a member q operand
      simp only [Instruction.findings, List.mem_cons, reduceCtorEq, Finding.attached.injEq,
        List.not_mem_nil, or_false, false_or] at member ⊢
      obtain ⟨-, rfl⟩ | ⟨-, rfl⟩ := member
      all_goals simpa [Demand.operands] using operand
  | putDynamic object key value =>
      intro p a member q operand
      simp only [Instruction.findings, List.mem_cons, reduceCtorEq, Finding.attached.injEq,
        List.not_mem_nil, or_false, false_or] at member ⊢
      obtain ⟨-, rfl⟩ | ⟨-, rfl⟩ := member
      all_goals simpa [Demand.operands] using operand
  | ret value =>
      cases value <;> exact .of_single (by simp [Instruction.findings, Finding.linked])
  | constant dst value =>
      refine .of_single ?_
      simp only [Instruction.findings]
      cases h.constant? value <;> simp [Finding.stored]
  | _ =>
      refine .of_single ?_
      simp [Instruction.findings, Finding.stored, Finding.named, Finding.inherits, Finding.linked,
        Demand.operands]

theorem paired_visit (u : Setup) (n : Role) : Paired (u.visitFindings n) := by
  unfold Setup.visitFindings
  cases u.bodyOf? n with
  | none => exact .of_single (by simp)
  | some f => exact .flatMap fun x _ => paired_instruction u.heap n f.id x.2 x.1

theorem paired_dispatch (u : Setup) (n : Role) (pc : Nat) (a : Dispatch) (o : AbstractObject) :
    Paired (u.dispatchFindings n pc a o) := by
  refine .of_single fun p b member => ?_
  unfold Setup.dispatchFindings at member
  split at member
  · cases member
  · rename_i call _
    dsimp only at member
    split at member
    · cases member
    · simp [Finding.run] at member
    · simp [Finding.run] at member
    · cases receiver : call.receiver with
      | none => simp [receiver] at member
      | some v =>
          simp only [receiver, Option.elim_some, List.mem_cons, reduceCtorEq,
            Finding.attached.injEq, List.not_mem_nil, or_false, false_or] at member
          obtain ⟨-, rfl⟩ := member
          rfl

theorem paired_receiver (h : HeapPolicy) (e : Encounter) (f : FunctionId) (call : Invocation)
    (receiver : Place Role) : Paired (e.receiverFindings h f call receiver) := by
  have pass : ∀ v : Option VarId, Paired (v.elim [] (e.pass receiver)) := by
    intro v
    cases v <;> exact .of_single (by simp [Encounter.pass])
  unfold Encounter.receiverFindings
  split
  · refine .of_single ?_
    cases call.dst <;> simp [Encounter.constructFindings, Finding.linked, Finding.stored]
  · exact pass call.receiver
  · exact pass call.args.head?

theorem paired_arguments (e : Encounter) (call : Invocation) (params : List VarId) :
    Paired (e.argumentsFindings call params) := by
  have argument : ∀ xs : List (VarId × VarId), Paired (xs.flatMap e.argumentFindings) := fun xs =>
    .flatMap fun x _ => .of_single (by simp [Encounter.argumentFindings, Finding.linked])
  unfold Encounter.argumentsFindings
  split
  · exact argument _
  · exact argument _
  · cases call.args[1]? with
    | none => exact .of_single (by simp)
    | some array =>
        have elements : Paired (params.flatMap (e.elementsFindings array)) :=
          .flatMap fun x _ => .of_single (by simp [Encounter.elementsFindings, Demand.operands])
        exact .cons (by simp) elements

theorem paired_bind (u : Setup) (e : Encounter) : Paired (u.bindFindings e) := by
  unfold Setup.bindFindings
  split
  · rename_i f call callee _ _ _
    unfold Encounter.findings Encounter.resultFindings
    refine .append (.append (.cons (by simp) (paired_receiver _ _ _ _ _))
      (paired_arguments _ _ _)) ?_
    cases call.dst <;> exact .of_single (by simp [Finding.linked])
  · exact .of_single (by simp)

/-- Enacting paired demands keeps those of a construction paired. -/
theorem Enacts.twinned (enacted : Enacts u c d js) (valid : c.Valid u)
    (below : d.ceilingHit = false) (twinned : c.solver.Twinned c.roles) (paired : Paired js) :
    d.solver.Twinned d.roles := by
  have all : ∀ j, d.Knows j → ∀ p a, j = .attached p a →
      ∀ q ∈ a.operands p, d.Knows (.attached q a) := by
    refine enacted.sound _ (Solver.passing_of_attached _) ?_ ?_
    · rintro j known p a rfl q member
      have before := twinned p a (knows_attached_iff.mp known) q member
      exact (Knows.solver before).mono valid enacted.grows
    · rintro j member p a rfl q operand
      exact enacted.known below _ (paired p a member q operand)
  exact fun p a known q member => knows_attached_iff.mp (all _ (.solver known) p a rfl q member)

end CallFlow.Construction
