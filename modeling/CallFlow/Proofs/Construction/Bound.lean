import CallFlow.Proofs.Construction.Run
import CallFlow.Proofs.Construction.Scope

/-! How much an analysis can find: all that can be mentioned is bounded by small powers of the
weight of a program, and a construction numbers each thing once. -/

namespace CallFlow

theorem FunctionBody.length_defined_le (f : FunctionBody) :
    f.defined.length ≤ 1 + f.params.length + f.instructions.length := by
  have made := List.length_filterMap_le
    (fun x : Instruction × Nat => x.1.defines?.map fun v => (v, DefinitionRole.instruction x.2))
    f.instructions.zipIdx
  rw [List.length_zipIdx] at made
  simp only [defined, definitions, List.length_map, List.cons_append, List.length_cons,
    List.length_append]
  omega

namespace Setup

variable (u : Setup)

/-- What all sizes are measured by. -/
def weight : Nat := u.program.weight

theorem large_weight : 16 ≤ u.weight := Nat.le_add_left _ _

theorem length_ids : u.ids.length ≤ u.weight := by
  simp only [ids, List.length_map, weight, Program.weight, Program.size]
  omega

theorem length_code : u.code.length + 16 ≤ u.weight := by
  have all : u.code.length ≤ _ := length_flatMap_le (g := fun f : FunctionBody =>
    f.params.length + sumOver (fun i => 1 + i.uses.length) f.instructions) fun f _ => by
      have own := length_le_sum (fun i : Instruction => i.uses.length) f.instructions
      omega
  simp only [weight, Program.weight]
  omega

theorem length_vars : u.vars.length ≤ u.weight := by
  have all : u.vars.length ≤ _ := length_flatMap_le (g := fun f : FunctionBody =>
    1 + (f.params.length + sumOver (fun i => 1 + i.uses.length) f.instructions)) fun f _ => by
      have own := length_le_sum (fun i : Instruction => i.uses.length) f.instructions
      have defined := f.length_defined_le
      omega
  rw [sumOver_one_add] at all
  simp only [weight, Program.weight, Program.size]
  omega

theorem length_spelled : u.spelled.length ≤ u.weight := by
  have code := u.length_code
  have named := List.length_filterMap_le Instruction.spelled? u.code
  simp only [spelled, List.length_append, List.length_cons, List.length_nil]
  omega

theorem length_pcs : u.pcs.length = u.weight := List.length_range

theorem length_contexts : u.contexts.length ≤ u.weight ^ 3 := by
  refine le_pow_succ u.large_weight ?_
  have calls : u.ids.length * u.pcs.length ≤ u.weight ^ 2 :=
    mul_le_pow (m := 1) (n := 1) (by simpa using u.length_ids) (by simp [length_pcs])
  have unit : 1 ≤ u.weight ^ 2 := Nat.pow_pos (Nat.lt_of_lt_of_le (by decide) u.large_weight)
  simp only [contexts, List.length_cons, List.length_map, length_pairs]
  omega

theorem length_methods : u.methods.length ≤ u.weight ^ 2 := by
  refine le_pow_succ u.large_weight ?_
  have ids := u.length_ids
  have large := u.large_weight
  simp only [methods, List.length_cons, List.length_append, List.length_map, Builtin.all,
    List.length_nil, Nat.pow_one]
  omega

theorem length_roles : u.roles.length ≤ u.weight ^ 5 := by
  rw [roles, length_pairs]
  exact mul_le_pow u.length_methods u.length_contexts

theorem length_kinds : u.kinds.length ≤ u.weight ^ 2 := by
  refine le_pow_succ u.large_weight ?_
  have ids := u.length_ids
  have large := u.large_weight
  simp only [kinds, List.length_cons, List.length_append, List.length_map, List.length_nil,
    Nat.pow_one]
  omega

theorem length_objects : u.objects.length ≤ u.weight ^ 8 := by
  refine le_pow_succ u.large_weight ?_
  have sites : u.ids.length * u.pcs.length ≤ u.weight ^ 2 :=
    mul_le_pow (m := 1) (n := 1) (by simpa using u.length_ids) (by simp [length_pcs])
  have allocations : u.ids.length * u.pcs.length * (u.kinds.length * u.contexts.length) ≤
      u.weight ^ 7 := mul_le_pow sites (mul_le_pow u.length_kinds u.length_contexts)
  have literals := List.length_filterMap_le (Instruction.literal? u.heap) u.code
  have code := u.length_code
  have one : u.weight ^ 1 ≤ u.weight ^ 7 := pow_le_pow u.large_weight (by omega)
  simp only [objects, List.length_append, List.length_map, length_pairs, Builtin.all,
    List.length_cons, List.length_nil]
  rw [Nat.pow_one] at one
  omega

theorem length_slots : u.slots.length ≤ u.weight ^ 2 := by
  refine le_pow_succ u.large_weight ?_
  have spelled := u.length_spelled
  have large := u.large_weight
  simp only [slots, List.length_cons, List.length_append, List.length_map, List.length_nil,
    Nat.pow_one]
  omega

theorem length_places : u.places.length ≤ u.weight ^ 11 := by
  refine le_pow_succ u.large_weight ?_
  have vars : u.vars.length ≤ u.weight ^ 1 := by simpa using u.length_vars
  have spelled : u.spelled.length ≤ u.weight ^ 1 := by simpa using u.length_spelled
  have ids : u.ids.length ≤ u.weight ^ 1 := by simpa using u.length_ids
  have locals : u.roles.length * u.vars.length ≤ u.weight ^ 6 :=
    mul_le_pow u.length_roles vars
  have fields : u.objects.length * u.slots.length ≤ u.weight ^ 10 :=
    mul_le_pow u.length_objects u.length_slots
  have lexicals : u.ids.length * u.spelled.length ≤ u.weight ^ 2 := mul_le_pow ids spelled
  have results := u.length_roles
  have least := fun k (less : k ≤ 10) => pow_le_pow u.large_weight less
  have one := least 1 (by omega)
  have two := least 2 (by omega)
  have five := least 5 (by omega)
  have six := least 6 (by omega)
  simp only [places, List.length_append, List.length_map, length_pairs]
  omega

theorem length_operands : u.operands.length ≤ u.weight ^ 8 := by
  have vars : u.vars.length ≤ u.weight ^ 1 := by simpa using u.length_vars
  simp only [operands, length_pairs]
  exact mul_le_pow (mul_le_pow u.length_roles vars) (mul_le_pow vars vars)

theorem length_demands : u.demands.length ≤ u.weight ^ 14 := by
  refine le_pow_succ u.large_weight ?_
  have pcs : u.pcs.length ≤ u.weight ^ 1 := by simp [length_pcs]
  have loads : u.slots.length * u.places.length ≤ u.weight ^ 13 :=
    mul_le_pow u.length_slots u.length_places
  have calls : u.roles.length * u.pcs.length ≤ u.weight ^ 6 := mul_le_pow u.length_roles pcs
  have operands := u.length_operands
  have least := fun k (less : k ≤ 13) => pow_le_pow u.large_weight less
  have six := least 6 (by omega)
  have eight := least 8 (by omega)
  simp only [demands, List.length_append, List.length_map, length_pairs, List.length_cons,
    List.length_nil]
  omega

theorem length_encounters : u.encounters.length ≤ u.weight ^ 21 := by
  have pcs : u.pcs.length ≤ u.weight ^ 1 := by simp [length_pcs]
  have kinds : [Dispatch.direct, .call, .apply].length ≤ u.weight ^ 1 := by
    have large := u.large_weight
    simp only [List.length_cons, List.length_nil, Nat.pow_one]
    omega
  simp only [encounters, List.length_map, length_pairs]
  have calls := mul_le_pow u.length_roles pcs
  have callees := mul_le_pow u.length_roles u.length_objects
  exact Nat.le_trans (mul_le_pow calls (mul_le_pow callees kinds))
    (pow_le_pow u.large_weight (by omega))

end Setup

namespace Construction

variable {u : Setup} {c : Construction}

section Sizes

variable (reached : Reached u c) (wf : u.program.WellFormed)

include reached wf

theorem Reached.mentions {j : Finding Role} (known : c.Knows j) : u.Mentions j :=
  (reached.sound j known).mentions wf

/-- What the solver of a construction knows is in scope. -/
theorem Reached.admitted {j : Finding Role} (known : c.solver.Knows c.roles j) :
    u.scope.Admits j := by
  have mentioned := reached.mentions wf (.solver known)
  cases known <;> exact mentioned

theorem Reached.functionNodes_le : c.functionNodes ≤ u.weight ^ 5 := by
  refine Nat.le_trans (Nat.le_trans List.countP_le_length ?_) u.length_roles
  refine length_le_of_stand (R := Eq) c.graph.methods.nodup (fun n member => ?_)
    fun _ _ _ here there => here.trans there.symm
  obtain ⟨i, here⟩ := (Numbering.mem_values_iff _ n).mp member
  exact ⟨n, reached.mentions wf (.node here), rfl⟩

theorem Reached.length_bindings {bs : List Binding} (lists : c.Lists bs) :
    bs.length ≤ u.weight ^ 21 := by
  refine Nat.le_trans ?_ u.length_encounters
  refine length_le_of_stand (R := fun b e => c.solver.Means c.roles b e) lists.nodup
    (fun b member => ?_) fun a b e here there => ?_
  · have found := (lists.mem b).mp member
    obtain ⟨e, means⟩ := reached.valid.bindings b found
    obtain ⟨caller, place, callee, function⟩ := reached.mentions wf (.binding found means)
    exact ⟨e, Setup.encounter_mem caller place callee function, means⟩
  · have caller := c.nodesDistinct _ _ _ here.caller there.caller
    have callee := c.nodesDistinct _ _ _ here.callee there.callee
    have function := Numbering.value?_inj here.function there.function
    have place := here.pc.trans there.pc.symm
    have dispatch := here.dispatch.trans there.dispatch.symm
    cases a
    cases b
    simp_all

/-- No construction that is reached does as much as the bound allows. -/
theorem Reached.spent_le : c.spent ≤ u.program.stepBound := by
  obtain ⟨bs, lists, paid⟩ := reached.accounted.paid
  have counted := reached.accounted.counted
  have valid := reached.valid.solver
  have admitted := fun j => reached.admitted (j := j) wf
  have facts : c.solver.counters.facts ≤ u.weight ^ 19 :=
    Nat.le_trans (Solver.Counted.facts_le valid c.nodesDistinct admitted counted)
      (mul_le_pow (m := 11) (n := 8) u.length_places u.length_objects)
  have constraints : c.solver.counters.constraints ≤ u.weight ^ 25 :=
    Nat.le_trans (Solver.Counted.constraints_le valid c.nodesDistinct admitted counted)
      (mul_le_pow (m := 11) (n := 14) u.length_places u.length_demands)
  have nodes := reached.functionNodes_le wf
  have bindings := reached.length_bindings wf lists
  have least := fun k (less : k ≤ 25) => pow_le_pow u.large_weight less
  have five := least 5 (by omega)
  have nineteen := least 19 (by omega)
  have twentyOne := least 21 (by omega)
  have all : c.spent ≤ u.weight ^ 26 := by
    refine le_pow_succ u.large_weight ?_
    unfold Solver.gains at paid
    omega
  exact Nat.le_trans all (pow_le_pow u.large_weight (by omega))

end Sizes

end Construction

end CallFlow
