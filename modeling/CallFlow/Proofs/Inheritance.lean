import CallFlow.Proofs.Binding
import CallFlow.Proofs.Interruption

/-! What constructed objects inherit from: all that a read of the property `prototype` of the
constructor may see, but for what stands in the slot for unknown names. -/

namespace CallFlow

theorem Slot.ofName_prototype : ofName "prototype" = .named "prototype" := by decide

/-- A read of the property `prototype` sees the slot of this name, and that of unknown names if
these are modelled. -/
theorem Slot.mem_readSet_prototype {r : Reflection} {q : Slot}
    (seen : q ∈ (ofName "prototype").readSet r) :
    q = ofName "prototype" ∨ r = .full ∧ q = .unknownName := by
  rw [ofName_prototype] at seen ⊢
  cases r <;> simpa [readSet, Reflection.modelsUnknown] using seen

namespace Setup

variable {u : Setup} {n : Role} {f : FunctionBody} {pc : Nat} {call : Invocation}
  {x y : AbstractObject}

theorem follows_constructed (wf : u.program.WellFormed) (node : u.Follows (.node n))
    (body : u.bodyOf? n = some f) (here : u.callOf? n pc = some call)
    (construct : call.kind = .construct) (callee : u.Held n call.callee x) {g : FunctionId}
    (function : x.function? = some g)
    (held : u.Follows (.holds (.field x (.ofName "prototype")) y)) :
    u.Follows (.holds (.field (u.heap.allocation ⟨f.id, pc, .object⟩ n.2) .proto) y) := by
  have binding : u.Follows (.binding n pc (u.calleeOf n pc call.kind .direct g) x .direct) :=
    follows_binding_iff.mpr ⟨node, call, g, here, .direct callee, function, rfl⟩
  have entered : u.Follows (.node (u.calleeOf n pc call.kind .direct g)) :=
    follows_run node here ⟨.direct, x, .direct callee, .inl ⟨g, function, rfl⟩⟩ rfl
      List.mem_cons_self
  obtain ⟨code, runs⟩ := entered.exists_body wf rfl
  have linked : u.Follows (.flows (.field x (.ofName "prototype"))
      (.field (u.heap.allocation ⟨f.id, pc, .object⟩ n.2) .proto)) := by
    refine (Derivable.closed u.Rule).of_one (.bind ?_) binding
    refine mem_bindFindings.mpr ⟨f, call, code, body, here, runs, ?_⟩
    simp [Encounter.findings, Encounter.receiverFindings, Encounter.constructFindings,
      Finding.linked, construct]
  exact follows_flow linked held

end Setup

variable {p : Program} {o : Options} {a : Analysis} {monitor : Nat → Option CancelReason}

/-- In a complete answer, what a read of the property `prototype` of a constructor may see, the
prototype of the constructed object holds, unless it stands in the slot for unknown names. -/
theorem constructed_inherits (run : analyze p o monitor = .ok a)
    (complete : a.completion = .complete) {n : Node} {f : FunctionBody}
    (node : a.graph.node? n.id = some n) (body : n.body? p = some f) {pc : Nat} {call : Invocation}
    (here : f.callAt? pc = some call) (construct : call.kind = .construct) {x : AbstractObject}
    (callee : a.HeldBy n call.callee x) {g : FunctionId} (function : x.function? = some g)
    {q : Slot}
    (seen : q ∈ (Slot.ofName "prototype").readSet o.reflection) {y : AbstractObject}
    (held : a.Holds (.field x q) y) :
    a.Holds (.field (o.fresh n f pc) .proto) y ∨ o.reflection = .full ∧ q = .unknownName := by
  obtain ⟨valid, -⟩ := exists_reached_of_analyze run
  have exact := exact_of_analyze run complete
  obtain ⟨f', method⟩ := Node.function_of_body? body
  rcases Slot.mem_readSet_prototype seen with rfl | missed
  · refine .inl ((exact.holds _ y).mpr ?_)
    rw [exact.heldBy_eq] at callee
    exact Setup.follows_constructed (Program.wellFormed_of_validate valid)
      (exact.follows_function node method) body ((Setup.callOf?_of_body? o body).trans here)
      construct callee function ((exact.holds _ y).mp held)
  · exact .inr missed

/-- A script that puts an object into a function under whatever a text may name, and constructs
another object by the function. -/
def Program.heir : Program where
  functions :=
    [{ id := 0
       name := "Lheir.js"
       thisVar := 0
       instructions :=
        [.closure 1 1, .constant 2 (.string "p"), .newObject 3, .putDynamic 1 2 3,
          .invoke { dst := some 4, callee := 1, kind := .construct },
          .getProperty 5 4 "__proto__"] },
     { id := 1, name := "Lheir.js/F", thisVar := 0 }]
  entryPoints := [0]

namespace Heir

def answer : Analysis := (Setup.ofOptions .heir { reflection := .full }).run fun _ => none

def script : Node := ⟨1, .function 0, .everywhere⟩

/-- What the script allocates at a place. -/
def made (pc : Nat) (kind : AllocationKind) : AbstractObject :=
  .allocation ⟨0, pc, kind⟩ .everywhere

def constructor : AbstractObject := made 0 (.function 1)

theorem analyze_heir : analyze .heir { reflection := .full } (fun _ => none) = .ok answer :=
  analyze_eq (by rfl) (by rfl) _

/-- The answer where it is looked at below, so that it is worked out once. -/
theorem inspected :
    (answer.completion = .complete ∧ answer.graph.node? script.id = some script) ∧
    (answer.tables.placeOf? (.var 1 1) = some (.var script.role 1) ∧
      constructor ∈ answer.solution.objectsAt (.var 1 1)) ∧
    (answer.tables.placeOf? (.field 4 (.named 2)) = some (.field constructor (.named "prototype")) ∧
      made 0 (.prototype 1) ∈ answer.solution.objectsAt (.field 4 (.named 2))) ∧
    (answer.tables.placeOf? (.field 4 .unknownName) = some (.field constructor .unknownName) ∧
      made 2 .object ∈ answer.solution.objectsAt (.field 4 .unknownName)) ∧
    answer.tables.placeOf? (.field 8 .proto) = some (.field (made 4 .object) .proto) ∧
    answer.solution.objectsAt (.field 8 .proto) = [made 0 (.prototype 1)] := by
  decide +kernel

theorem answered : answer.completion = .complete ∧
    answer.graph.node? script.id = some script := inspected.1

theorem heldBy_callee : answer.HeldBy script 1 constructor := by
  obtain ⟨place, member⟩ := inspected.2.1
  exact (Analysis.holds_iff_of_placeOf? place).mpr member

/-- The prototype that comes with the constructor stands under its name. -/
theorem holds_prototype :
    answer.Holds (.field constructor (.named "prototype")) (made 0 (.prototype 1)) := by
  obtain ⟨place, member⟩ := inspected.2.2.1
  exact (Analysis.holds_iff_of_placeOf? place).mpr member

/-- The object that the script puts into the constructor stands under an unknown name. -/
theorem holds_unknown : answer.Holds (.field constructor .unknownName) (made 2 .object) := by
  obtain ⟨place, member⟩ := inspected.2.2.2.1
  exact (Analysis.holds_iff_of_placeOf? place).mpr member

/-- The constructed object inherits from the prototype that comes with the constructor, and from
nothing else. -/
theorem holds_constructed (x : AbstractObject) :
    answer.Holds (.field (made 4 .object) .proto) x ↔ x = made 0 (.prototype 1) := by
  obtain ⟨place, only⟩ := inspected.2.2.2.2
  rw [Analysis.holds_iff_of_placeOf? place, only, List.mem_singleton]

end Heir

/-- The constructed object inherits from what the name `prototype` means. -/
theorem constructed_inherits_heir :
    analyze .heir { reflection := .full } (fun _ => none) = .ok Heir.answer ∧
    Heir.answer.completion = .complete ∧
    Heir.answer.HeldBy Heir.script 1 Heir.constructor ∧
    Heir.answer.Holds (.field Heir.constructor (.named "prototype")) (Heir.made 0 (.prototype 1)) ∧
    Heir.answer.Holds (.field (Heir.made 4 .object) .proto) (Heir.made 0 (.prototype 1)) := by
  have here : Program.heir.functions[0].callAt? 4 =
      some { dst := some 4, callee := 1, kind := .construct } := rfl
  have seen : Slot.named "prototype" ∈ (Slot.ofName "prototype").readSet .full := by decide
  have inherited := constructed_inherits Heir.analyze_heir Heir.answered.1 Heir.answered.2 rfl here
    rfl Heir.heldBy_callee rfl seen Heir.holds_prototype
  exact ⟨Heir.analyze_heir, Heir.answered.1, Heir.heldBy_callee, Heir.holds_prototype,
    inherited.resolve_right (by simp)⟩

/-- What is stored in a constructor under an unknown name is lost to the objects that it
constructs. -/
theorem constructed_misses_unknown : ¬ ∀ (p : Program) (o : Options)
    (monitor : Nat → Option CancelReason) (a : Analysis), analyze p o monitor = .ok a →
    a.completion = .complete → ∀ (n : Node) (f : FunctionBody), a.graph.node? n.id = some n →
    n.body? p = some f → ∀ (pc : Nat) (call : Invocation), f.callAt? pc = some call →
    call.kind = .construct → ∀ (x : AbstractObject) (g : FunctionId), a.HeldBy n call.callee x →
    x.function? = some g → ∀ q ∈ (Slot.ofName "prototype").readSet o.reflection,
    ∀ y, a.Holds (.field x q) y → a.Holds (.field (o.fresh n f pc) .proto) y := by
  intro inherits
  have lost := inherits _ _ _ _ Heir.analyze_heir Heir.answered.1 Heir.script _ Heir.answered.2
    rfl 4 _ rfl rfl Heir.constructor 1 Heir.heldBy_callee rfl .unknownName (by decide) _
    Heir.holds_unknown
  cases (Heir.holds_constructed _).mp lost

end CallFlow
