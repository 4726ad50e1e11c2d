import CallFlow.Proofs.Construction.Inversion
import CallFlow.Proofs.Program

/-! Functions that are run. In an accepted program every function object that an analysis finds is
of a function of the program, so that each node for a function has code to run. -/

namespace CallFlow

def AllocationKind.function? : AllocationKind → Option FunctionId
  | .function g => some g
  | .object | .array | .prototype _ => none

theorem function?_allocation (h : HeapPolicy) (f : FunctionId) (pc : Nat) (k : AllocationKind)
    (c : Context) : (h.allocation ⟨f, pc, k⟩ c).function? = k.function? := by
  unfold HeapPolicy.allocation
  split <;> cases k <;> rfl

theorem function?_constant {h : HeapPolicy} {value : Literal} {o : AbstractObject}
    (known : h.constant? value = some o) : o.function? = none := by
  unfold HeapPolicy.constant? at known
  split at known
  · cases value <;> cases known <;> rfl
  · obtain ⟨k, -, rfl⟩ := Option.map_eq_some_iff.mp known
    rfl

/-- Function objects among what findings bring are of functions that a program has. -/
def Program.Owns (p : Program) : Finding Role → Prop
  | .holds _ o => ∀ g, o.function? = some g → ∃ f, p.function? g = some f
  | _ => True

theorem Program.WellFormed.owns_instruction {p : Program} (wf : p.WellFormed) {g : FunctionId}
    {f : FunctionBody} (here : p.function? g = some f) {i : Instruction}
    (member : i ∈ f.instructions) (h : HeapPolicy) (n : Role) (pc : Nat) :
    Each p.Owns (i.findings h n f.id pc) := by
  cases i with
  | closure dst callee =>
      have exist := wf.names g f here _ member callee rfl
      have builtins : ∀ b, (AbstractObject.builtin b).function? = none := fun _ => rfl
      simpa [Instruction.findings, Finding.named, Finding.inherits, Program.Owns,
        function?_allocation, AllocationKind.function?, builtins] using exist
  | constant dst value =>
      have none : ∀ o, h.constant? value = some o → o.function? = none := fun o known =>
        function?_constant known
      simp +contextual [Instruction.findings, Program.Owns, none]
  | ret value => cases value <;> simp [Instruction.findings, Program.Owns]
  | _ =>
      have builtins : ∀ b, (AbstractObject.builtin b).function? = none := fun _ => rfl
      simp [Instruction.findings, Finding.inherits, Program.Owns, function?_allocation,
        AllocationKind.function?, builtins]

namespace Setup

variable {u : Setup} {j : Finding Role}

theorem owns_bind (p : Program) (e : Encounter) : Each p.Owns (u.bindFindings e) := by
  intro j member
  obtain ⟨f, call, callee, -, -, -, member⟩ := mem_bindFindings.mp member
  refine Encounter.each_findings ?_ ?_ ?_ ?_ ?_ ?_ ?_ j member <;>
    simp [Encounter.constructFindings, Encounter.pass, Encounter.argumentFindings,
      Encounter.elementsFindings, Encounter.resultFindings, Program.Owns, function?_allocation,
      AllocationKind.function?]

theorem owns_flow {p : Program} {r : Reflection} {ps : List (Finding Role)} (rule : FlowRule r ps j)
    (premises : ∀ q ∈ ps, p.Owns q) : p.Owns j := by
  refine rule.of_parts (P := p.Owns) (fun _ => trivial) (fun _ _ => trivial) (fun _ _ _ => trivial)
    (fun _ _ _ => trivial) fun q _ x held => ?_
  have owned : p.Owns (.holds q x) := premises _ held
  exact owned

theorem owns_builtins (p : Program) : Each p.Owns Finding.builtins := by
  have builtins : ∀ b, (AbstractObject.builtin b).function? = none := fun _ => rfl
  simp [Finding.builtins, Finding.method, Finding.named, Program.Owns, builtins]

/-- A function object that is found is of a function that the program has. -/
theorem Follows.owns (wf : u.program.WellFormed) (follows : u.Follows j) : u.program.Owns j := by
  refine Derivable.least follows ?_
  intro ps j rule premises
  cases rule with
  | root => trivial
  | builtins member => exact owns_builtins _ j member
  | entry here member =>
      have each : ∀ e, Each u.program.Owns (Finding.entry e) := by
        simp [Finding.entry, Program.Owns]
      exact each _ j member
  | flow rule => exact owns_flow rule premises
  | visit member =>
      obtain ⟨f, body, pc, i, stands, member⟩ := mem_visitFindings.mp member
      obtain ⟨g, -, here⟩ := Option.bind_eq_some_iff.mp body
      exact wf.owns_instruction here (List.mem_of_getElem? stands) _ _ _ j member
  | dispatch member =>
      have each : ∀ n pc d o, Each u.program.Owns (u.dispatchFindings n pc d o) := by
        intro n pc d o
        refine each_dispatch ?_ ?_ ?_ ?_ ?_ ?_ <;> simp [Program.Owns]
      exact each _ _ _ _ j member
  | bind member => exact owns_bind _ _ j member

theorem Follows.exists_body (wf : u.program.WellFormed) {n : Role} (follows : u.Follows (.node n))
    {g : FunctionId} (runs : n.1 = .function g) : ∃ f, u.program.function? g = some f := by
  rcases follows_node_iff.mp follows with rfl | ⟨m, site, edge⟩
  · cases runs
  · rcases follows_edge_iff.mp edge with ⟨-, -, e, here, rfl⟩ | ⟨-, call, -, -, d, o, finds, target⟩
    · cases runs
      exact wf.entries _ (List.mem_of_getElem? here)
    · rcases target with ⟨g', function, rfl⟩ | ⟨b, -, -, -, rfl⟩
      · cases runs
        cases finds with
        | direct held => exact Follows.owns wf held g function
        | receiver _ _ _ _ held => exact Follows.owns wf held g function
      · cases runs

end Setup

end CallFlow
