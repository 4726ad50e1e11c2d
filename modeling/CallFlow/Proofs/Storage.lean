import CallFlow.Proofs.Acceptance
import CallFlow.Proofs.Lookups

/-! Where values are stored: never in a variable that its function does not define, nor in a field
of a primitive value. -/

namespace CallFlow

open Construction

/-- All locations are of something that is there: a variable that the function of a node defines,
the result of a node that runs a function, a field of an object that is not primitive, or a variable
that a function of the program shares. All that they hold are objects. -/
structure Program.Stores (p : Program) (g : CallGraph) (s : Solution) : Prop where
  vars : ∀ k id v, s.locations.value? k = some (.var id v) → ∃ h context f a,
    g.node? id = some ⟨id, .function h, context⟩ ∧ p.function? h = some f ∧ f.DefinesAt v a
  results : ∀ k id, s.locations.value? k = some (.result id) → ∃ h context,
    g.node? id = some ⟨id, .function h, context⟩
  fields : ∀ k i q, s.locations.value? k = some (.field i q) →
    ∃ x, s.objects.value? i = some x ∧ x.isPrimitive = false
  lexicals : ∀ k h n, s.locations.value? k = some (.lexical h n) → ∃ f, p.function? h = some f
  members : ∀ set ∈ s.sets, ∀ i ∈ set.toList, ∃ x, s.objects.value? i = some x

namespace Setup

variable {u : Setup} {n : Role} {f : FunctionBody} {v : VarId} {pc : Nat} {j : Finding Role}

/-- A place is one of the code or of an object. -/
def Houses (u : Setup) : Place Role → Prop
  | .var n v => ∃ f, u.bodyOf? n = some f ∧ v ∈ f.defined
  | .result n => ∃ f, u.bodyOf? n = some f
  | .field x _ => x.isPrimitive = false
  | .global _ => True
  | .lexical h _ => ∃ f, u.program.function? h = some f

@[simp]
theorem houses_field {x : AbstractObject} {q : Slot} :
    u.Houses (.field x q) ↔ x.isPrimitive = false := .rfl

@[simp]
theorem houses_global {name : String} : u.Houses (.global name) := trivial

/-- A finding about places is about those that there are; and what is bound is no primitive value,
since a construction reads a field of what it is bound to. -/
def Locates (u : Setup) : Finding Role → Prop
  | .place q => u.Houses q
  | .binding _ _ _ x _ => x.isPrimitive = false
  | _ => True

theorem houses_defined (body : u.bodyOf? n = some f) (defined : v ∈ f.defined) :
    u.Houses (.var n v) := ⟨f, body, defined⟩

theorem locates_instruction (wf : u.program.WellFormed) (body : u.bodyOf? n = some f)
    {i : Instruction} (stands : f.instructions[pc]? = some i) :
    Each u.Locates (i.findings u.heap n f.id pc) := by
  have member := List.mem_of_getElem? stands
  have writes := fun v defines => houses_defined (v := v) body (defined_of_defines stands defines)
  have reads := fun v used => houses_defined (v := v) body (defined_of_uses wf body member used)
  have result : u.Houses (.result n) := ⟨f, body⟩
  -- shared variables belong to functions that the program has
  have shared : ∀ h name, i.names? = some h → u.Houses (.lexical h name) := by
    intro h name names
    obtain ⟨g, -, here⟩ := bodyOf?_eq_some_iff.mp body
    exact wf.names g f here i member h names
  cases i with
  | newObject dst =>
      simp [Instruction.findings, Finding.inherits, Locates, writes dst rfl]
  | newArray dst =>
      simp [Instruction.findings, Finding.inherits, Locates, writes dst rfl]
  | closure dst g =>
      simp [Instruction.findings, Finding.named, Finding.inherits, Locates, writes dst rfl]
  | constant dst value => simp [Instruction.findings, Locates, writes dst rfl]
  | copy dst src =>
      simp [Instruction.findings, Locates, writes dst rfl, reads src List.mem_cons_self]
  | phi dst sources =>
      have all : ∀ src ∈ sources, u.Houses (.var n src) := reads
      simpa [Instruction.findings, Locates, writes dst rfl] using all
  | getProperty dst object name =>
      simp [Instruction.findings, Locates, writes dst rfl, reads object List.mem_cons_self]
  | putProperty object name value =>
      have value' := reads value (List.mem_cons_of_mem _ List.mem_cons_self)
      simp [Instruction.findings, Locates, reads object List.mem_cons_self, value']
  | getDynamic dst object key =>
      have key' := reads key (List.mem_cons_of_mem _ List.mem_cons_self)
      simp [Instruction.findings, Locates, writes dst rfl, reads object List.mem_cons_self, key']
  | putDynamic object key value =>
      have key' := reads key (List.mem_cons_of_mem _ List.mem_cons_self)
      have value' :=
        reads value (List.mem_cons_of_mem _ (List.mem_cons_of_mem _ List.mem_cons_self))
      simp [Instruction.findings, Locates, reads object List.mem_cons_self, key', value']
  | globalRead dst name => simp [Instruction.findings, Locates, writes dst rfl]
  | globalWrite name value =>
      simp [Instruction.findings, Locates, reads value List.mem_cons_self]
  | lexicalRead dst name definer =>
      simp [Instruction.findings, Locates, writes dst rfl, shared definer name rfl]
  | lexicalWrite name definer value =>
      simp [Instruction.findings, Locates, reads value List.mem_cons_self, shared definer name rfl]
  | invoke call => simp [Instruction.findings, Locates, reads call.callee List.mem_cons_self]
  | ret value =>
      cases value with
      | none => simp [Instruction.findings]
      | some value =>
          simp [Instruction.findings, Locates, result, reads value List.mem_cons_self]

/-- Function objects alone are bound, and functions are looked for in variables of the call. -/
theorem locates_dispatch (wf : u.program.WellFormed) {d : Dispatch} {x : AbstractObject} :
    Each u.Locates (u.dispatchFindings n pc d x) := by
  unfold dispatchFindings
  split
  · exact each_nil
  · rename_i call here
    obtain ⟨f, body, receiver, -⟩ := defined_of_call wf here
    dsimp only
    split
    · exact each_nil
    · rename_i g means
      have function := AbstractObject.classify_eq_function_iff.mp means
      have object : x.isPrimitive = false := by
        cases x <;> first | rfl | cases function
      simp [Locates, object]
    · simp [Locates]
    · simp only [each_elim, each_cons, each_nil, Locates, and_true]
      exact fun v known => houses_defined body (receiver v known)

/-- Connecting a call stores what variables of the caller hold in variables of the callee, and what
the callee returns in one of the caller. -/
theorem locates_encounter (wf : u.program.WellFormed) {e : Encounter} {g : FunctionBody}
    {call : Invocation} (here : u.callOf? e.caller e.pc = some call)
    (entered : u.bodyOf? e.callee = some g) (bound : e.function.isPrimitive = false)
    (h : FunctionId) : Each u.Locates (e.findings u.heap h call g) := by
  obtain ⟨f, body, receiver, args, dst⟩ := defined_of_call wf here
  have caller := fun v defined => houses_defined (v := v) body defined
  have callee := fun v defined => houses_defined (v := v) entered defined
  have thisVar := callee _ (List.mem_map.mpr ⟨_, role_of_receiver, rfl⟩)
  have params := fun v param => callee v (List.mem_map.mpr ⟨_, role_of_param param, rfl⟩)
  have result : u.Houses (.result e.callee) := ⟨g, entered⟩
  refine Encounter.each_findings thisVar (fun _ _ => ?_) (fun v given => ?_)
    (fun a arg p param => ?_) (fun a arg => caller a (args a arg)) (fun a arg p param => ?_) ?_
  · -- the prototype is looked up in what the call is bound to, which has to be an object for that
    simp only [Encounter.constructFindings, each_append, each_cons, each_nil, each_linked,
      each_elim, each_stored, each_mentions, Locates, houses_field, bound, isPrimitive_allocation,
      implies_true, and_true, true_and]
    exact fun v known => caller v (dst v known)
  · simp only [Encounter.pass, each_cons, each_nil, Locates, and_true]
    exact caller v (given.elim (receiver v) (args v))
  · simp [Encounter.argumentFindings, Locates, caller a (args a arg), params p param]
  · simp [Encounter.elementsFindings, Locates, params p param]
  · simp only [Encounter.resultFindings, each_elim, each_linked, Locates, result, and_true,
      true_and]
    exact fun v known => caller v (dst v known)

theorem locates_flow {r : Reflection} {ps : List (Finding Role)} (rule : FlowRule r ps j) :
    u.Locates j :=
  rule.of_parts (P := u.Locates) (fun _ => trivial) (fun _ _ => trivial) (fun _ _ _ => trivial)
    (fun _ _ object => object) fun _ _ _ _ => trivial

/-- Whatever follows, its places are of the code or of objects. -/
theorem Follows.locates (wf : u.program.WellFormed) (follows : u.Follows j) : u.Locates j := by
  refine Derivable.least follows ?_
  intro ps j rule premises
  cases rule with
  | root => trivial
  | builtins member =>
      have each : Each u.Locates Finding.builtins := by
        simp [Finding.builtins, Finding.method, Finding.named, Locates, AbstractObject.isPrimitive]
      exact each j member
  | @entry e _ here member =>
      have each : Each u.Locates (Finding.entry e) := by simp [Finding.entry, Locates]
      exact each j member
  | flow rule => exact locates_flow rule
  | visit member =>
      obtain ⟨f, body, pc, i, stands, member⟩ := mem_visitFindings.mp member
      exact locates_instruction wf body stands j member
  | dispatch member => exact locates_dispatch wf j member
  | bind member =>
      obtain ⟨f, call, g, -, here, entered, member⟩ := mem_bindFindings.mp member
      exact locates_encounter wf here entered (premises _ List.mem_cons_self) f.id j member

end Setup

namespace Construction

variable {u : Setup} {c : Construction}

theorem Reached.houses (wf : u.program.WellFormed) (reached : Reached u c) {k : Nat} {l : Location}
    (here : c.solver.locations.value? k = some l) :
    ∃ q, (c.solver.tables c.roles).placeOf? l = some q ∧ u.Houses q := by
  obtain ⟨q, place⟩ := reached.valid.solver.locations k l here
  have known : c.Knows (.place q) :=
    .solver (.place (Option.bind_eq_some_iff.mpr ⟨l, here, place⟩))
  exact ⟨q, place, (reached.sound _ known).locates wf⟩

theorem Reached.stores (wf : u.program.WellFormed) (reached : Reached u c) :
    u.program.Stores c.graph c.solver.solution where
  vars k id v here := by
    obtain ⟨q, place, houses⟩ := reached.houses wf here
    obtain ⟨n, node, rfl⟩ := Option.map_eq_some_iff.mp place
    obtain ⟨f, body, defined⟩ := houses
    obtain ⟨h, known, code⟩ := node?_of_body node body
    obtain ⟨a, defines⟩ := FunctionBody.mem_defined_iff.mp defined
    exact ⟨h, n.2, f, a, known, code, defines⟩
  results k id here := by
    obtain ⟨q, place, houses⟩ := reached.houses wf here
    obtain ⟨n, node, rfl⟩ := Option.map_eq_some_iff.mp place
    obtain ⟨f, body⟩ := houses
    obtain ⟨h, known, -⟩ := node?_of_body node body
    exact ⟨h, n.2, known⟩
  fields k i p here := by
    obtain ⟨q, place, houses⟩ := reached.houses wf here
    obtain ⟨x, object, place⟩ := Option.bind_eq_some_iff.mp place
    obtain ⟨s, -, rfl⟩ := Option.map_eq_some_iff.mp place
    exact ⟨x, object, houses⟩
  lexicals k h n here := by
    obtain ⟨q, place, houses⟩ := reached.houses wf here
    obtain ⟨name, -, rfl⟩ := Option.map_eq_some_iff.mp place
    exact houses
  members set held i member := by
    obtain ⟨cell, stands, rfl⟩ := Array.mem_map.mp held
    obtain ⟨k, bound, same⟩ := Array.mem_iff_getElem.mp stands
    have here : i ∈ c.solver.members k := by
      unfold Solver.members Solver.facts Solver.cell
      rw [Array.getD_eq_getD_getElem?, Array.getElem?_eq_getElem bound, same]
      exact member
    have known := (reached.valid.solver.members k i here).2
    exact (Numbering.value?_isSome_iff _ i).mpr known

end Construction

theorem Program.Stores.finish {p : Program} {u : Setup} {c : Construction} (valid : c.Valid u)
    (stores : p.Stores c.graph c.solver.solution) (ended : Completion) :
    p.Stores (c.finish u ended).graph (c.finish u ended).solution := by
  -- Sealing a graph takes no node away.
  have kept : ∀ id n, c.graph.node? id = some n → (c.finish u ended).graph.node? id = some n :=
    fun id n here => CallGraph.node?_eq_some_iff.mpr
      ⟨methods_finish c u ended valid _ _ (CallGraph.node?_eq_some_iff.mp here).1,
        (CallGraph.node?_eq_some_iff.mp here).2⟩
  refine ⟨fun k id v here => ?_, fun k id here => ?_, stores.fields, stores.lexicals,
    stores.members⟩
  · obtain ⟨h, context, f, a, node, rest⟩ := stores.vars k id v here
    exact ⟨h, context, f, a, kept _ _ node, rest⟩
  · obtain ⟨h, context, node⟩ := stores.results k id here
    exact ⟨h, context, kept _ _ node⟩

variable {p : Program} {o : Options}

/-- At every point of every run of an accepted program, and in every answer, all locations are of
something that is there and hold objects. -/
theorem storage_meaningful (program : p.validate = .ok ()) (options : o.validate = .ok ())
    (monitor : Nat → Option CancelReason) :
    let u := Setup.ofOptions p o
    (∀ fuel, let c := ((start u).runWithin u monitor fuel).2
      p.Stores c.graph c.solver.solution) ∧
    ∃ a, analyze p o monitor = .ok a ∧ p.Stores a.graph a.solution := by
  intro u
  have wf : u.program.WellFormed := Program.wellFormed_of_validate program
  have reached := fun fuel => ((reached_start u).runWithin monitor fuel).1
  have stores := fun fuel => (reached fuel).stores wf
  refine ⟨stores, _, analyze_eq program options monitor, ?_⟩
  exact (stores (p.stepBound + 1)).finish (reached (p.stepBound + 1)).valid _

/-- After twenty steps the small program's construction was bound, so the function's parameter, its
result and the elements of the array are there; the literal that is used as a key has no fields. -/
theorem storage_meaningful_tour :
    let u := Setup.ofOptions .tour .thorough
    let c := ((start u).runWithin u (fun _ => none) 20).2
    Program.tour.validate = .ok () ∧ Options.thorough.validate = .ok () ∧
    Program.tour.Stores c.graph c.solver.solution ∧
    c.solver.locations.value? 26 = some (.var 2 1) ∧
    c.solver.locations.value? 28 = some (.result 2) ∧
    c.solver.locations.value? 23 = some (.field 7 .element) ∧
    c.solver.objects.value? 8 = some (.constant (.string "0")) ∧
    ∃ a, analyze .tour .thorough (fun _ => none) = .ok a ∧
      Program.tour.Stores a.graph a.solution := by
  have program : Program.tour.validate = .ok () := by rfl
  have options : Options.thorough.validate = .ok () := by rfl
  obtain ⟨stores, answer⟩ := storage_meaningful program options fun _ => none
  exact ⟨program, options, stores 20, by decide +kernel, by decide +kernel, by decide +kernel,
    by decide +kernel, answer⟩

end CallFlow
