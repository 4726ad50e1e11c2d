import CallFlow.Proofs.Precision

/-! What more code adds: whatever is found out about a program is found out about one that extends
it. Only calls that run nothing may come to run something, so the node for the unknown may go. -/

namespace CallFlow

/-- The second function has the variables of the first one, and goes on where that one ends. -/
structure FunctionBody.ExtendedBy (f f' : FunctionBody) : Prop where
  thisVar : f'.thisVar = f.thisVar
  params : f'.params = f.params
  instructions : f.instructions <+: f'.instructions

/-- The second program goes on where the functions and the lists of the first one end. -/
structure Program.ExtendedBy (p p' : Program) : Prop where
  functions : ∀ (k : Nat) (f : FunctionBody), p.functions[k]? = some f →
    ∃ f', p'.functions[k]? = some f' ∧ f.ExtendedBy f'
  entryPoints : p.entryPoints <+: p'.entryPoints

theorem getElem?_of_prefix {α : Type} {xs ys : List α} (extended : xs <+: ys) {k : Nat} {x : α}
    (here : xs[k]? = some x) : ys[k]? = some x := by
  obtain ⟨bound, rfl⟩ := List.getElem?_eq_some_iff.mp here
  exact List.prefix_iff_getElem?.mp extended k bound

theorem FunctionBody.ExtendedBy.callAt? {f f' : FunctionBody} (extended : f.ExtendedBy f')
    {pc : Nat} {call : Invocation} (here : f.callAt? pc = some call) :
    f'.callAt? pc = some call := by
  obtain ⟨i, stands, calls⟩ := Option.bind_eq_some_iff.mp here
  apply Option.bind_eq_some_iff.mpr
  exact ⟨i, getElem?_of_prefix extended.instructions stands, calls⟩

namespace Setup

def withProgram (u : Setup) (p : Program) : Setup := { u with program := p }

/-- The second program extends that of the setup, and functions are numbered by their places. -/
structure Grows (u : Setup) (p : Program) : Prop where
  extended : u.program.ExtendedBy p
  numbered : ∀ g f, u.program.function? g = some f → f.id = g
  renumbered : ∀ g f, p.function? g = some f → f.id = g

variable {u : Setup} {p : Program} {n : Role} {f : FunctionBody}

theorem Grows.exists_body (grows : u.Grows p) (runs : u.bodyOf? n = some f) :
    ∃ f', (u.withProgram p).bodyOf? n = some f' ∧ f'.id = f.id ∧ f.ExtendedBy f' := by
  obtain ⟨g, function, here⟩ := Option.bind_eq_some_iff.mp runs
  obtain ⟨f', there, extended⟩ := grows.extended.functions g.toNat f here
  refine ⟨f', ?_, ?_, extended⟩
  · exact Option.bind_eq_some_iff.mpr ⟨g, function, there⟩
  · rw [grows.numbered g f here, grows.renumbered g f' there]

theorem Grows.callOf? (grows : u.Grows p) {pc : Nat} {call : Invocation}
    (here : u.callOf? n pc = some call) : (u.withProgram p).callOf? n pc = some call := by
  obtain ⟨f, runs, calls⟩ := Option.bind_eq_some_iff.mp here
  obtain ⟨f', runs', -, extended⟩ := grows.exists_body runs
  exact Option.bind_eq_some_iff.mpr ⟨f', runs', extended.callAt? calls⟩

theorem Grows.visitFindings (grows : u.Grows p) (n : Role) :
    u.visitFindings n ⊆ (u.withProgram p).visitFindings n := by
  intro j member
  obtain ⟨f, runs, pc, i, stands, found⟩ := mem_visitFindings.mp member
  obtain ⟨f', runs', same, extended⟩ := grows.exists_body runs
  apply mem_visitFindings.mpr
  refine ⟨f', runs', pc, i, getElem?_of_prefix extended.instructions stands, ?_⟩
  rw [same]
  exact found

theorem Grows.dispatchFindings (grows : u.Grows p) (n : Role) (pc : Nat) (d : Dispatch)
    (o : AbstractObject) :
    u.dispatchFindings n pc d o ⊆ (u.withProgram p).dispatchFindings n pc d o := by
  intro j member
  cases here : u.callOf? n pc with
  | none => simp [Setup.dispatchFindings, here] at member
  | some call =>
      unfold Setup.dispatchFindings at member ⊢
      rw [grows.callOf? here]
      rw [here] at member
      exact member

theorem Grows.bindFindings (grows : u.Grows p) (e : Encounter) :
    u.bindFindings e ⊆ (u.withProgram p).bindFindings e := by
  intro j member
  obtain ⟨f, call, callee, runs, calls, run, found⟩ := mem_bindFindings.mp member
  obtain ⟨f', runs', same, -⟩ := grows.exists_body runs
  obtain ⟨callee', run', -, extended⟩ := grows.exists_body run
  apply mem_bindFindings.mpr
  refine ⟨f', call, callee', runs', grows.callOf? calls, run', ?_⟩
  -- of the callee only the variables for the receiver and the arguments matter
  simp only [Encounter.findings, same, extended.thisVar, extended.params]
  exact found

theorem Grows.rule (grows : u.Grows p) {ps : List (Finding Role)} {j : Finding Role}
    (rule : u.Rule ps j) : (u.withProgram p).Rule ps j := by
  cases rule with
  | root => exact .root
  | builtins member => exact .builtins member
  | entry here member =>
      refine .entry ?_ member
      apply List.mem_zipIdx_iff_getElem?.mpr
      exact getElem?_of_prefix grows.extended.entryPoints (List.mem_zipIdx_iff_getElem?.mp here)
  | flow rule => exact .flow rule
  | visit member => exact .visit (grows.visitFindings _ member)
  | dispatch member => exact .dispatch (grows.dispatchFindings _ _ _ _ member)
  | bind member => exact .bind (grows.bindFindings _ member)

/-- What follows from some code follows from more. -/
theorem Grows.follows (grows : u.Grows p) {j : Finding Role} (follows : u.Follows j) :
    (u.withProgram p).Follows j := by
  apply follows.least
  intro ps j rule premises
  exact .apply (grows.rule rule) premises

end Setup

/-- Adding code never loses a call: nodes, edges and facts of the smaller program are those of the
larger one too, but for the node for the unknown and the edges to it. -/
theorem extension_monotone {p p' : Program} {o : Options} (program : p.validate = .ok ())
    (larger : p'.validate = .ok ()) (extended : p.ExtendedBy p') (options : o.validate = .ok ())
    (unlimited : o.maxNodes = none) :
    ∃ a b, analyze p o (fun _ => none) = .ok a ∧ a.completion = .complete ∧
      analyze p' o (fun _ => none) = .ok b ∧ b.completion = .complete ∧
      a.WithinFor (· ≠ .unknown) b := by
  obtain ⟨a, run, complete⟩ := exists_complete program options unlimited
  obtain ⟨b, more, ended⟩ := exists_complete larger options unlimited
  have grows : (Setup.ofOptions p o).Grows p' :=
    ⟨extended, (Program.wellFormed_of_validate program).ids,
      (Program.wellFormed_of_validate larger).ids⟩
  refine ⟨a, b, run, complete, more, ended, ?_⟩
  exact (exact_of_analyze run complete).withinFor_of_follows (exact_of_analyze more ended)
    (fun l x member => named_of_analyze run member) fun j follows => grows.follows follows

/-- A script that calls what nothing defines. -/
def Program.stub : Program where
  functions :=
    [{ id := 0
       name := "Lstub.js"
       thisVar := 0
       instructions := [.globalRead 1 "f", .invoke { callee := 1 }] }]
  entryPoints := [0]

/-- The script goes on to define what it calls. -/
def Program.grown : Program where
  functions :=
    [{ id := 0
       name := "Lgrown.js"
       thisVar := 0
       instructions :=
        [.globalRead 1 "f", .invoke { callee := 1 }, .closure 2 1, .globalWrite "f" 2] },
     { id := 1
       name := "Lgrown.js/f"
       thisVar := 0
       instructions := [.ret none] }]
  entryPoints := [0, 1]

theorem Program.extendedBy_grown : Program.stub.ExtendedBy .grown where
  functions k f here := by
    cases k with
    | zero =>
        cases here
        exact ⟨_, rfl, rfl, rfl, ⟨_, rfl⟩⟩
    | succ k => cases here
  entryPoints := ⟨_, rfl⟩

/-- The call of the short script runs the unknown, that of the long one does not. -/
theorem extension_monotone_grown : Program.stub.validate = .ok () ∧
    Program.grown.validate = .ok () ∧ Program.stub.ExtendedBy .grown ∧
    Options.thorough.validate = .ok () ∧ Options.thorough.maxNodes = none ∧
    ∃ a b, analyze .stub .thorough (fun _ => none) = .ok a ∧
      analyze .grown .thorough (fun _ => none) = .ok b ∧ a.graph.unknown = some 2 ∧
      b.graph.unknown = none ∧ a.WithinFor (· ≠ .unknown) b := by
  have program : Program.stub.validate = .ok () := by rfl
  have larger : Program.grown.validate = .ok () := by rfl
  have options : Options.thorough.validate = .ok () := by rfl
  obtain ⟨a, b, run, -, more, -, within⟩ :=
    extension_monotone program larger Program.extendedBy_grown options rfl
  refine ⟨program, larger, Program.extendedBy_grown, options, rfl, a, b, run, more, ?_, ?_, within⟩
  · obtain ⟨-, -, rfl⟩ := analyze_eq_ok_iff.mp run
    decide +kernel
  · obtain ⟨-, -, rfl⟩ := analyze_eq_ok_iff.mp more
    decide +kernel

end CallFlow
