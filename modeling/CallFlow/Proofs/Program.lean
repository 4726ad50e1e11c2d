import CallFlow.Program.WellFormed

/-! What accepted programs are like: entry points and named functions exist, functions carry the
numbers of their places, and a function defines each of its variables once and all that it uses. -/

namespace CallFlow

/-- What an analysis relies on. -/
structure Program.WellFormed (p : Program) : Prop where
  entries : ∀ e ∈ p.entryPoints, ∃ f, p.function? e = some f
  ids : ∀ g f, p.function? g = some f → f.id = g
  distinct : ∀ g f, p.function? g = some f → f.defined.Nodup
  names : ∀ g f, p.function? g = some f → ∀ i ∈ f.instructions, ∀ h, i.names? = some h →
    ∃ b, p.function? h = some b
  uses : ∀ g f, p.function? g = some f → ∀ i ∈ f.instructions, ∀ v ∈ i.uses, v ∈ f.defined

theorem distinct_of_firstRepeated? {seen : KeySet VarId} {ds : List (VarId × DefinitionRole)}
    (none : firstRepeated? seen ds = none) :
    (ds.map (·.1)).Nodup ∧ ∀ d ∈ ds, seen.contains d.1 = false := by
  induction ds generalizing seen with
  | nil => simp
  | cons d ds ih =>
      unfold firstRepeated? at none
      split at none
      · cases none
      · rename_i fresh
        obtain ⟨distinct, unseen⟩ := ih none
        have apart : ∀ e ∈ ds, seen.contains e.1 = false ∧ e.1 ≠ d.1 := fun e member => by
          simpa [KeySet.contains_insert] using unseen e member
        refine ⟨?_, fun e member => ?_⟩
        · rw [List.map_cons, List.nodup_cons]
          refine ⟨fun here => ?_, distinct⟩
          obtain ⟨e, member, same⟩ := List.mem_map.mp here
          exact (apart e member).2 same
        · rcases List.mem_cons.mp member with rfl | later
          · exact Bool.eq_false_iff.mpr fresh
          · exact (apart e later).1

namespace Program

variable {p : Program}

theorem function?_of_lt {g : FunctionId} (bound : g.toNat < p.size) : ∃ f, p.function? g = some f :=
  ⟨_, List.getElem?_eq_getElem bound⟩

theorem id_of_checkPlaces {index : Nat} {names : KeySet String} {fs : List FunctionBody}
    (ok : checkPlaces index names fs = .ok ()) (k : Nat) (f : FunctionBody)
    (here : fs[k]? = some f) : f.id.toNat = index + k := by
  induction fs generalizing index names k with
  | nil => simp at here
  | cons g fs ih =>
      unfold checkPlaces at ok
      split at ok
      · cases ok
      · rename_i place
        split at ok
        · cases ok
        · cases k with
          | zero =>
              cases here
              simpa using place
          | succ k =>
              have later := ih ok k (by simpa using here)
              omega

theorem lt_of_checkEntries {es : List FunctionId} (ok : p.checkEntries es = .ok ()) :
    ∀ e ∈ es, e.toNat < p.size := by
  induction es with
  | nil => simp
  | cons e es ih =>
      unfold checkEntries at ok
      split at ok
      · rename_i bound
        intro e' member
        rcases List.mem_cons.mp member with rfl | later
        · exact bound
        · exact ih ok e' later
      · cases ok

theorem checkFunction_of_checkFunctions {fs : List FunctionBody}
    (ok : p.checkFunctions fs = .ok ()) : ∀ f ∈ fs, p.checkFunction f = .ok () := by
  induction fs with
  | nil => simp
  | cons f fs ih =>
      unfold checkFunctions at ok
      split at ok
      · cases ok
      · rename_i first
        intro g member
        rcases List.mem_cons.mp member with rfl | later
        · exact first
        · exact ih ok g later

theorem of_checkInstruction {f : FunctionBody} {defined : KeySet VarId} {pc : Nat} {i : Instruction}
    (ok : p.checkInstruction f defined pc i = .ok ()) :
    (∀ g, i.names? = some g → g.toNat < p.size) ∧ ∀ v ∈ i.uses, defined.contains v = true := by
  unfold checkInstruction at ok
  split at ok
  · cases ok
  · rename_i named
    split at ok
    · cases ok
    · rename_i used
      refine ⟨fun g here => ?_, fun v member => ?_⟩
      · simpa [here] using named
      · simpa using List.find?_eq_none.mp used v member

theorem of_checkInstructions {f : FunctionBody} {defined : KeySet VarId} {pc : Nat}
    {is : List Instruction} (ok : p.checkInstructions f defined pc is = .ok ()) :
    ∀ i ∈ is, (∀ g, i.names? = some g → g.toNat < p.size) ∧
      ∀ v ∈ i.uses, defined.contains v = true := by
  induction is generalizing pc with
  | nil => simp
  | cons i is ih =>
      unfold checkInstructions at ok
      split at ok
      · cases ok
      · rename_i first
        intro j member
        rcases List.mem_cons.mp member with rfl | later
        · exact of_checkInstruction first
        · exact ih ok j later

theorem of_checkFunction {f : FunctionBody} (ok : p.checkFunction f = .ok ()) :
    f.defined.Nodup ∧ ∀ i ∈ f.instructions, (∀ g, i.names? = some g → g.toNat < p.size) ∧
      ∀ v ∈ i.uses, v ∈ f.defined := by
  unfold checkFunction at ok
  split at ok
  · cases ok
  · rename_i none
    refine ⟨(distinct_of_firstRepeated? none).1, fun i member => ?_⟩
    obtain ⟨named, used⟩ := of_checkInstructions ok i member
    exact ⟨named, fun v use => by simpa [KeySet.contains_ofList] using used v use⟩

theorem wellFormed_of_validate (ok : p.validate = .ok ()) : p.WellFormed := by
  unfold validate at ok
  split at ok
  · cases ok
  · split at ok
    · cases ok
    · rename_i places
      split at ok
      · cases ok
      · rename_i entries
        have checked : ∀ g f, p.function? g = some f → p.checkFunction f = .ok () :=
          fun g f here => checkFunction_of_checkFunctions ok f (List.mem_of_getElem? here)
        refine ⟨fun e member => ?_, fun g f here => ?_, fun g f here => ?_,
          fun g f here i member h named => ?_, fun g f here i member => ?_⟩
        · exact function?_of_lt (lt_of_checkEntries entries e member)
        · have place := id_of_checkPlaces places g.toNat f here
          exact UInt32.toNat_inj.mp (place.trans (Nat.zero_add _))
        · exact (of_checkFunction (checked g f here)).1
        · exact function?_of_lt (((of_checkFunction (checked g f here)).2 i member).1 h named)
        · exact ((of_checkFunction (checked g f here)).2 i member).2

end Program

namespace FunctionBody

variable {f : FunctionBody} {v : VarId}

theorem mem_definitions_iff {r : DefinitionRole} : (v, r) ∈ f.definitions ↔
    v = f.thisVar ∧ r = .receiver ∨ v ∈ f.params ∧ r = .parameter ∨
      ∃ pc i, f.instructions[pc]? = some i ∧ i.defines? = some v ∧ r = .instruction pc := by
  unfold definitions
  simp only [List.cons_append, List.mem_cons, List.mem_append, List.mem_map, List.mem_filterMap,
    Prod.mk.injEq, Prod.exists, Option.map_eq_some_iff, List.mem_zipIdx_iff_getElem?]
  grind

/-- A variable is defined in one way only. -/
theorem role_unique (distinct : f.defined.Nodup) {r s : DefinitionRole}
    (here : (v, r) ∈ f.definitions) (there : (v, s) ∈ f.definitions) : r = s := by
  have key : ∀ ds : List (VarId × DefinitionRole), (ds.map (·.1)).Nodup → (v, r) ∈ ds →
      (v, s) ∈ ds → r = s := by
    intro ds
    induction ds with
    | nil => simp
    | cons d ds ih =>
        intro nodup here there
        obtain ⟨fresh, rest⟩ := List.nodup_cons.mp nodup
        rcases List.mem_cons.mp here with rfl | left
        · rcases List.mem_cons.mp there with same | right
          · exact (Prod.mk.inj same).2.symm
          · exact absurd (List.mem_map_of_mem right) fresh
        · rcases List.mem_cons.mp there with rfl | right
          · exact absurd (List.mem_map_of_mem left) fresh
          · exact ih rest left right
  exact key _ distinct here there

theorem params_nodup (distinct : f.defined.Nodup) : f.params.Nodup := by
  unfold defined definitions at distinct
  simp only [List.cons_append, List.map_cons, List.map_append, List.map_map, List.nodup_cons]
    at distinct
  have first := (List.nodup_append.mp distinct.2).1
  simpa [Function.comp_def] using first

end FunctionBody

end CallFlow
