import CallFlow.Proofs.Construction.Lookups
import CallFlow.Proofs.Interruption

/-! No lookup ever fails: the construction in which lookups may fail always has an answer, and it is
the answer of the construction itself. -/

namespace CallFlow

/-- The locations that a constraint is about, besides the one that it is attached to. -/
def Constraint.reaches : Constraint → List Nat
  | .load _ dst => [dst]
  | .store _ src => [src]
  | .dynamicLoad object key dst => [object, key, dst]
  | .dynamicStore object key src => [object, key, src]
  | .invoke _ => []

theorem Setup.Follows.exists_call {u : Setup} {p : Place Role} {n : Role} {pc : Nat} {d : Dispatch}
    (follows : u.Follows (.attached p (.invoke n pc d))) : ∃ code, u.callOf? n pc = some code := by
  obtain ⟨code, here, -⟩ := u.grounded_follows.waiting follows
  exact ⟨code, here⟩

theorem Tables.exists_place {ν : Type} {t : Tables ν} {a : Constraint} {e : Demand ν}
    (meant : t.demand? a = some e) {l : Nat} (member : l ∈ a.reaches) :
    ∃ p, t.place? l = some p := by
  cases StandsFor.of_demand? meant with
  | load slot place | store slot place =>
      obtain rfl := List.mem_singleton.mp member
      exact ⟨_, place⟩
  | dynamicLoad base named place | dynamicStore base named place =>
      simp only [Constraint.reaches, List.mem_cons, List.not_mem_nil, or_false] at member
      rcases member with rfl | rfl | rfl
      · exact ⟨_, base⟩
      · exact ⟨_, named⟩
      · exact ⟨_, place⟩
  | invoke => cases member

namespace Construction

variable {u : Setup} {c d : Construction} {item : WorkItem} {rest : Worklist}

/-- A node with a body is one for a function of the program. -/
theorem node?_of_body {i : Nat} {n : Role} {f : FunctionBody} (here : c.roles i = some n)
    (body : u.bodyOf? n = some f) :
    ∃ g, c.graph.node? i = some ⟨i, .function g, n.2⟩ ∧ u.program.function? g = some f := by
  obtain ⟨g, runs, code⟩ := Setup.bodyOf?_eq_some_iff.mp body
  refine ⟨g, CallGraph.node?_eq_some_iff.mpr ⟨?_, rfl⟩, code⟩
  rw [← runs]
  exact here

section Reached

variable (wf : u.program.WellFormed) (reached : Reached u c)

include wf reached

theorem Reached.exists_body {i : Nat} {n : Role} (here : c.roles i = some n)
    (function : n.1.function?.isSome) : ∃ f, u.bodyOf? n = some f := by
  obtain ⟨m, ctx⟩ := n
  cases m with
  | function g =>
      obtain ⟨f, code⟩ := (reached.sound _ (.node here)).exists_body wf rfl
      exact ⟨f, code⟩
  | fakeRoot => cases function
  | builtin b => cases function
  | unknown => cases function

omit wf in
theorem Reached.calls {k : Nat} {call : PendingCall}
    (imposed : .invoke call ∈ c.solver.constraints k) : c.Calls u call := by
  obtain ⟨bound, a, meant⟩ := reached.valid.solver.constraints k _ imposed
  obtain ⟨n, caller, -⟩ := Option.map_eq_some_iff.mp meant
  obtain ⟨p, here⟩ := reached.valid.solver.place bound
  have attached := reached.sound _
    (.solver (.attached here (Tables.demand?_invoke call.pc call.dispatch caller) imposed))
  obtain ⟨code, found⟩ := attached.exists_call
  exact ⟨n, code, caller, found⟩

/-- A binding is of a call that exists with a node that runs the function that it was found by. -/
theorem Reached.exists_encounter {b : Binding} (found : c.bindings.contains b = true) :
    ∃ x f call g callee, c.solver.Means c.roles b x ∧ u.bodyOf? x.caller = some f ∧
      u.callOf? x.caller x.pc = some call ∧ x.function.function? = some g ∧
      x.callee.1 = .function g ∧ u.bodyOf? x.callee = some callee := by
  obtain ⟨x, means⟩ := reached.valid.bindings b found
  have binding := reached.sound _ (.binding found means)
  obtain ⟨-, call, g, here, -, function, role⟩ := Setup.follows_binding_iff.mp binding
  obtain ⟨f, caller, -⟩ := Option.bind_eq_some_iff.mp here
  have runs : x.callee.1 = .function g := by
    rw [role]
    rfl
  obtain ⟨callee, code⟩ := reached.exists_body wf means.callee (by simp [runs, Method.function?])
  exact ⟨x, f, call, g, callee, means, caller, here, function, runs, code⟩

end Reached

/-- Nothing dangles, nodes that wait to be visited run functions, and locations that wait hold
something. -/
structure Tidy (c : Construction) : Prop where
  whole : c.solver.dangling = false
  visits : ∀ i, .visit i ∈ c.solver.worklist.items →
    ∃ n, c.roles i = some n ∧ n.1.function?.isSome
  busy : ∀ k, c.solver.Waits k → c.solver.members k ≠ []

theorem Tidy.lead (tidy : c.Tidy) (leads : Leads u c d) : d.Tidy where
  whole := leads.dangling.trans tidy.whole
  visits i waits := by
    rcases leads.visits i waits with before | new
    · obtain ⟨n, here, function⟩ := tidy.visits i before
      exact ⟨n, leads.grows.roles _ _ here, function⟩
    · exact new
  busy := leads.grows.solver.occupied tidy.busy

theorem Tidy.popped (tidy : c.Tidy) (takes : c.solver.worklist.Takes item rest) :
    (c.popped rest).Tidy where
  whole := tidy.whole
  visits i waits := tidy.visits i ((takes.mem_iff _).mpr (.inr waits))
  busy k waits := tidy.busy k ((takes.mem_iff _).mpr (.inr waits))

theorem tidy_blank (u : Setup) : (blank u).Tidy where
  whole := rfl
  visits i waits := by
    have none : (blank u).solver.worklist.items = [] := rfl
    rw [none] at waits
    cases waits
  busy k waits := by
    have none : (blank u).solver.worklist.items = [] := rfl
    unfold Solver.Waits at waits
    rw [none] at waits
    cases waits

theorem Tidy.whole?_eq (tidy : c.Tidy) : c.whole? = some c := by
  unfold Construction.whole?
  rw [tidy.whole]
  rfl

theorem Tidy.lt_size (tidy : c.Tidy) (valid : c.Valid u) {k : Nat} (waits : c.solver.Waits k) :
    k < c.solver.cells.size := valid.solver.lt_size_of_members (tidy.busy k waits)

theorem start?_eq (u : Setup) : start? u = some (start u) ∧ (start u).Tidy := by
  have seeded : Leads u (blank u) (seeded u) :=
    .of_solver (valid_blank u) (Solver.enacts_seed (valid_blank u).solver)
  obtain ⟨answer, entered⟩ := Leads.foldlM u.program.entryPoints.zipIdx seeded.valid
    fun d leads e _ => addEntryPoint?_eq leads.valid e
  have tidy : (start u).Tidy := (tidy_blank u).lead (seeded.trans entered)
  refine ⟨?_, tidy⟩
  unfold start?
  rw [answer]
  exact tidy.whole?_eq

/-- Whatever item is worked off, nothing that it looks up is missing. -/
theorem process?_eq (wf : u.program.WellFormed) (reached : Reached u c) (tidy : c.Tidy)
    (takes : c.solver.worklist.Takes item rest) :
    (c.popped rest).process? u item = some ((c.popped rest).process u item) ∧
      ((c.popped rest).process u item).Tidy := by
  have valid := reached.valid.popped takes
  have waits : item ∈ c.solver.worklist.items := (takes.mem_iff item).mpr (.inl rfl)
  have done : ∀ {answer : Option Construction} {d : Construction},
      answer = some d ∧ Leads u (c.popped rest) d → answer.bind whole? = some d ∧ d.Tidy := by
    rintro answer d ⟨rfl, leads⟩
    have after := (tidy.popped takes).lead leads
    exact ⟨after.whole?_eq, after⟩
  cases item with
  | propagate k =>
      apply done
      apply propagate?_eq valid (tidy.lt_size reached.valid waits)
      intro call imposed
      exact reached.calls imposed
  | visit i =>
      obtain ⟨n, here, function⟩ := tidy.visits i waits
      obtain ⟨f, body⟩ := reached.exists_body wf here function
      exact done (visit?_eq valid here body)
  | target b =>
      obtain ⟨x, f, call, g, callee, means, caller, here, -, -, runs⟩ :=
        reached.exists_encounter wf (reached.valid.queued b waits)
      exact done (bind?_eq valid (means_popped.mpr means) caller here runs)

theorem advance?_eq (wf : u.program.WellFormed) (reached : Reached u c) (tidy : c.Tidy)
    (answer : Option CancelReason) : c.advance? u answer = some (c.advance u answer) ∧
      (c.advance u answer).2.Tidy := by
  unfold advance? advance
  split
  · exact ⟨rfl, tidy⟩
  · cases next : c.solver.next? with
    | none => exact ⟨rfl, tidy⟩
    | some found =>
        obtain ⟨item, solver⟩ := found
        obtain ⟨rest, pop, rfl⟩ := Solver.next?_eq_some next
        cases answer with
        | some why => exact ⟨rfl, tidy⟩
        | none =>
            obtain ⟨processed, after⟩ := process?_eq wf reached tidy (Worklist.takes_of_pop pop)
            refine ⟨?_, after⟩
            unfold popped at processed
            dsimp only
            rw [processed]
            rfl

theorem runWithin?_eq (wf : u.program.WellFormed) (monitor : Nat → Option CancelReason) (fuel : Nat)
    (reached : Reached u c) (tidy : c.Tidy) :
    c.runWithin? u monitor fuel = some (c.runWithin u monitor fuel) ∧
      (c.runWithin u monitor fuel).2.Tidy := by
  induction fuel generalizing c with
  | zero => exact ⟨rfl, tidy⟩
  | succ fuel ih =>
      obtain ⟨answer, after⟩ := advance?_eq wf reached tidy (monitor c.iterations)
      unfold runWithin? runWithin
      rw [answer]
      rcases step : c.advance u (monitor c.iterations) with ⟨_ | ended, d⟩
      · rw [step] at after
        obtain ⟨below, item, rest, pop, same⟩ := advance_eq_none step
        have next : Reached u d := by
          rw [same]
          exact reached.process below (Worklist.takes_of_pop pop)
        exact ih next after
      · rw [step] at after
        exact ⟨rfl, after⟩

/-- What an item looks up exists. -/
def Resolves (u : Setup) (c : Construction) : WorkItem → Prop
  | .propagate k => k < c.solver.cells.size
  | .visit i => ∃ n f, c.graph.node? i = some n ∧ c.body? u i = some f
  | .target b => ∃ caller f call callee body o g, c.graph.node? b.caller = some caller ∧
      c.body? u b.caller = some f ∧ c.call? u b.caller b.pc = some call ∧
      c.graph.node? b.callee = some callee ∧ c.body? u b.callee = some body ∧
      c.solver.objects.value? b.function = some o ∧ o.function? = some g ∧
      callee.method = .function g

/-- All numbers in a construction are in range, and what waits exists. -/
structure InRange (u : Setup) (c : Construction) : Prop where
  cells : c.solver.cells.size = c.solver.locations.size
  calls : c.graph.calls.size = c.graph.nodeCount
  whole : c.solver.dangling = false
  members : ∀ k i, i ∈ c.solver.members k → k < c.solver.cells.size ∧ i < c.solver.objects.size
  successors : ∀ a b, b ∈ c.solver.successors a → a < c.solver.cells.size ∧
    b < c.solver.cells.size
  constraints : ∀ k a, a ∈ c.solver.constraints k → k < c.solver.cells.size ∧
    ∀ l ∈ a.reaches, l < c.solver.cells.size
  pending : ∀ k call, .invoke call ∈ c.solver.constraints k →
    ∃ code, c.call? u call.caller call.pc = some code
  queued : ∀ item ∈ c.solver.worklist.items, c.Resolves u item

theorem Valid.reaches (valid : c.Valid u) {k : Nat} {a : Constraint}
    (imposed : a ∈ c.solver.constraints k) : ∀ l ∈ a.reaches, l < c.solver.cells.size := by
  obtain ⟨-, e, meant⟩ := valid.solver.constraints k a imposed
  intro l member
  obtain ⟨p, place⟩ := Tables.exists_place meant member
  exact valid.solver.lt_size place

theorem Reached.resolves_target (wf : u.program.WellFormed) (reached : Reached u c) {b : Binding}
    (found : c.bindings.contains b = true) : c.Resolves u (.target b) := by
  obtain ⟨x, f, call, g, callee, means, caller, here, function, runs, code⟩ :=
    reached.exists_encounter wf found
  refine ⟨_, f, call, _, callee, x.function, g, node?_of_roles means.caller,
    (body?_eq means.caller).trans caller, ?_, node?_of_roles means.callee,
    (body?_eq means.callee).trans code, means.function, function, runs⟩
  rw [call?_eq means.caller, means.pc]
  exact here

theorem Reached.resolves (wf : u.program.WellFormed) (reached : Reached u c) (tidy : c.Tidy)
    (waits : item ∈ c.solver.worklist.items) : c.Resolves u item := by
  cases item with
  | propagate k => exact tidy.lt_size reached.valid waits
  | visit i =>
      obtain ⟨n, here, function⟩ := tidy.visits i waits
      obtain ⟨f, body⟩ := reached.exists_body wf here function
      exact ⟨_, f, node?_of_roles here, (body?_eq here).trans body⟩
  | target b => exact reached.resolves_target wf (reached.valid.queued b waits)

theorem Reached.inRange (wf : u.program.WellFormed) (reached : Reached u c) (tidy : c.Tidy) :
    c.InRange u where
  cells := reached.valid.solver.size
  calls := reached.valid.graph.size
  whole := tidy.whole
  members := reached.valid.solver.members
  successors := reached.valid.solver.successors
  constraints k a imposed :=
    ⟨(reached.valid.solver.constraints k a imposed).1, reached.valid.reaches imposed⟩
  pending k call imposed := by
    obtain ⟨n, code, caller, found⟩ := reached.calls imposed
    exact ⟨code, (call?_eq caller call.pc).trans found⟩
  queued _ waits := reached.resolves wf tidy waits

end Construction

/-- The answer of a setup, if no lookup fails. -/
def Setup.run? (u : Setup) (monitor : Nat → Option CancelReason) : Option Analysis :=
  (Construction.start? u).bind fun c =>
    (c.runWithin? u monitor (u.program.stepBound + 1)).map fun ended => ended.2.finish u ended.1

variable {p : Program} {o : Options}

/-- No lookup ever fails: an accepted program is analysed to the end of each run without one, and
in each state that is reached all numbers are in range and all that waits exists. -/
theorem lookups_never_fail (program : p.validate = .ok ()) (options : o.validate = .ok ())
    (monitor : Nat → Option CancelReason) :
    (∃ a, analyze p o monitor = .ok a ∧ (Setup.ofOptions p o).run? monitor = some a) ∧
      ∀ fuel, let u := Setup.ofOptions p o
        let reached := (Construction.start u).runWithin u monitor fuel
        ((Construction.start? u).bind fun c => c.runWithin? u monitor fuel) = some reached ∧
          reached.2.InRange u := by
  have wf : (Setup.ofOptions p o).program.WellFormed := Program.wellFormed_of_validate program
  have reached := Construction.reached_start (.ofOptions p o)
  obtain ⟨started, tidy⟩ := Construction.start?_eq (.ofOptions p o)
  constructor
  · refine ⟨_, analyze_eq program options monitor, ?_⟩
    unfold Setup.run? Setup.run
    rw [started, Option.bind_some, (Construction.runWithin?_eq wf monitor _ reached tidy).1]
    rfl
  · intro fuel
    obtain ⟨answer, after⟩ := Construction.runWithin?_eq wf monitor fuel reached tidy
    constructor
    · rw [started]
      exact answer
    · exact (reached.runWithin monitor fuel).1.inRange wf after

/-- A node is refused at the ceiling, and still no lookup fails. -/
theorem lookups_never_fail_tour : Program.tour.validate = .ok () ∧
    { Options.thorough with maxNodes := some 2 }.validate = .ok () ∧
    ∃ a, analyze .tour { Options.thorough with maxNodes := some 2 } (fun _ => none) = .ok a ∧
      (Setup.ofOptions .tour { Options.thorough with maxNodes := some 2 }).run? (fun _ => none) =
        some a ∧
      a.completion = .cut (.nodeBudget 2) := by
  have program : Program.tour.validate = .ok () := by rfl
  have options : { Options.thorough with maxNodes := some 2 }.validate = .ok () := by rfl
  obtain ⟨⟨a, run, answer⟩, -⟩ := lookups_never_fail program options fun _ => none
  refine ⟨program, options, a, run, answer, ?_⟩
  obtain ⟨-, -, rfl⟩ := analyze_eq_ok_iff.mp run
  decide +kernel

-- An entry point that does not exist is looked up in vain.
example : ((Setup.ofOptions { entryPoints := [7] } .thorough).run? fun _ => none).isNone := by
  decide +kernel

end CallFlow
