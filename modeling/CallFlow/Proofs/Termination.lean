import CallFlow.Proofs.Interruption

/-! How long an analysis takes. One without a ceiling that nobody stops comes to the point where
nothing is left to do, and none ever runs out of steps: each was put on the worklist for something
new. -/

namespace CallFlow

open Construction

def Setup.last (u : Setup) (monitor : Nat → Option CancelReason) : Construction :=
  ((start u).runWithin u monitor (u.program.stepBound + 1)).2

def Analysis.functionNodes (a : Analysis) : List Node :=
  a.graph.nodes.filter fun n => n.method.function?.isSome

variable {p : Program} {o : Options} {u : Setup} {monitor : Nat → Option CancelReason}

theorem CallGraph.nodes_map_role (g : CallGraph) : g.nodes.map Node.role = g.methods.values := by
  simp only [nodes, Numbering.entries, List.map_map]
  exact List.zipIdx_map_fst 0 g.methods.values

/-- Every node of a construction that runs a function is among those of what it answers. -/
theorem functionNodes_le_finish {c : Construction} (valid : c.Valid u) (ended : Completion) :
    c.functionNodes ≤ (c.finish u ended).functionNodes.length := by
  let runs : Role → Bool := fun n => n.1.function?.isSome
  have grown := methods_finish c u ended valid
  have own : c.functionNodes = (c.graph.methods.values.filter runs).length :=
    List.countP_eq_length_filter
  have answered : (c.finish u ended).functionNodes.length =
      ((c.finish u ended).graph.methods.values.filter runs).length := by
    rw [← CallGraph.nodes_map_role, List.filter_map, List.length_map]
    rfl
  rw [own, answered]
  refine length_le_of_stand (R := Eq) (c.graph.methods.nodup.filter _) (fun n member => ?_)
    fun _ _ _ here there => here.trans there.symm
  obtain ⟨known, function⟩ := List.mem_filter.mp member
  obtain ⟨i, here⟩ := (Numbering.mem_values_iff _ n).mp known
  have there := (Numbering.mem_values_iff _ n).mpr ⟨i, grown i n here⟩
  exact ⟨n, List.mem_filter.mpr ⟨there, function⟩, rfl⟩

/-- What an analysis did is paid for by what it found. -/
theorem iterations_run_le (u : Setup) (monitor : Nat → Option CancelReason) :
    ∃ bs : List Binding, (u.last monitor).Lists bs ∧
      (u.run monitor).counters.iterations ≤
        (u.run monitor).counters.facts + (u.run monitor).counters.constraints +
          (u.run monitor).functionNodes.length + bs.length := by
  have reached := ((reached_start u).runWithin monitor (u.program.stepBound + 1)).1
  obtain ⟨bs, lists, paid⟩ := reached.accounted.paid
  have nodes := functionNodes_le_finish reached.valid
    ((start u).runWithin u monitor (u.program.stepBound + 1)).1
  refine ⟨bs, lists, ?_⟩
  unfold spent Solver.gains at paid
  have answered : (u.run monitor).counters.iterations ≤ (u.last monitor).iterations := Nat.le_refl _
  simp only [Setup.run, finish, Setup.last] at nodes answered ⊢
  omega

/-- Nothing is left to do when a run is complete. -/
theorem idle_of_run_complete (complete : (u.run monitor).completion = .complete) :
    (u.last monitor).solver.worklist.items = [] :=
  (((reached_start u).runWithin monitor (u.program.stepBound + 1)).2 complete).2

/-- No analysis runs out of steps: it has nothing left to do, a node was refused at its ceiling, or
the monitor stops it after the steps that it counts. -/
theorem never_stepLimit {a : Analysis} (run : analyze p o monitor = .ok a) :
    Ends (.ofOptions p o) monitor (a.completion, (Setup.ofOptions p o).last monitor) ∧
      a.completion ≠ .cut .stepLimit := by
  obtain ⟨program, -, rfl⟩ := analyze_eq_ok_iff.mp run
  have ends := (reached_start (.ofOptions p o)).ends (Program.wellFormed_of_validate program)
    monitor ((Setup.ofOptions p o).program.stepBound + 1) (by rw [iterations_start]; omega)
  exact ⟨ends, ends.ne_stepLimit⟩

/-- An analysis without a ceiling that nobody stops has nothing left to do after just as many steps
as it counts; and no analysis counts more of them than it found facts and constraints, has nodes of
functions and made bindings. -/
theorem terminates (program : p.validate = .ok ()) (options : o.validate = .ok ()) :
    (o.maxNodes = none → ∃ c : Construction, c.solver.worklist.items = [] ∧
      (∀ fuel, c.iterations < fuel →
        (start (.ofOptions p o)).runWithin (.ofOptions p o) (fun _ => none) fuel = (.complete, c)) ∧
      analyze p o (fun _ => none) = .ok (c.finish (.ofOptions p o) .complete)) ∧
    ∀ monitor a, analyze p o monitor = .ok a →
      a = ((Setup.ofOptions p o).last monitor).finish (.ofOptions p o) a.completion ∧
      ∃ bs : List Binding, ((Setup.ofOptions p o).last monitor).Lists bs ∧
        a.counters.iterations ≤
          a.counters.facts + a.counters.constraints + a.functionNodes.length + bs.length := by
  refine ⟨fun unlimited => ?_, fun monitor a run => ?_⟩
  · have complete := complete_of_unlimited program unlimited
    have idle := idle_of_run_complete complete
    have ended : (start (.ofOptions p o)).runWithin (.ofOptions p o) (fun _ => none)
        ((Setup.ofOptions p o).program.stepBound + 1) =
          (.complete, (Setup.ofOptions p o).last fun _ => none) :=
      Prod.ext complete rfl
    refine ⟨_, idle, fun fuel enough => ?_, ?_⟩
    · refine (runWithin_of_complete ended).2 fuel ?_
      rwa [iterations_start, Nat.zero_add]
    · rw [analyze_eq program options, Setup.run, ended]
  · obtain ⟨-, -, rfl⟩ := analyze_eq_ok_iff.mp run
    exact ⟨rfl, iterations_run_le _ monitor⟩

/-- The small program takes 54 steps. -/
theorem terminates_tour : Program.tour.validate = .ok () ∧ Options.thorough.validate = .ok () ∧
    Options.thorough.maxNodes = none ∧
    (∃ c : Construction, c.solver.worklist.items = [] ∧ c.iterations = 54 ∧
      (start (.ofOptions .tour .thorough)).runWithin (.ofOptions .tour .thorough)
        (fun _ => none) 55 = (.complete, c)) ∧
    ∃ a, analyze .tour .thorough (fun _ => none) = .ok a ∧ a.counters.iterations = 54 ∧
      ∃ bs : List Binding, ((Setup.ofOptions .tour .thorough).last fun _ => none).Lists bs ∧
        54 ≤ a.counters.facts + a.counters.constraints + a.functionNodes.length + bs.length := by
  have program : Program.tour.validate = .ok () := by rfl
  have options : Options.thorough.validate = .ok () := by rfl
  have run := analyze_eq program options fun _ => none
  have counted :
      ((Setup.ofOptions .tour .thorough).run fun _ => none).counters.iterations = 54 := by
    decide +kernel
  obtain ⟨ends, paid⟩ := terminates program options
  obtain ⟨c, idle, ended, same⟩ := ends rfl
  have steps : c.iterations = 54 := by
    rw [run, Except.ok.injEq] at same
    rw [← counted, same]
    rfl
  obtain ⟨-, bs, lists, enough⟩ := paid _ _ run
  rw [counted] at enough
  exact ⟨program, options, rfl, ⟨c, idle, steps, ended 55 (by omega)⟩, _, run, counted, bs, lists,
    enough⟩

end CallFlow
