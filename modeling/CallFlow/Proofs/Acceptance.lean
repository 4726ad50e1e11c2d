import Mathlib.Data.List.Nodup
import CallFlow.Proofs.Program

/-! Acceptance decides well-formedness, which is said without the checks and without the tables they
read: by forms of instructions, and by the places at which definitions stand. A program that is
refused has the very defect it is refused for. -/

namespace CallFlow

/-- The instruction assigns the variable. -/
inductive Instruction.Assigns (v : VarId) : Instruction → Prop where
  | newObject : Assigns v (.newObject v)
  | newArray : Assigns v (.newArray v)
  | closure (function : FunctionId) : Assigns v (.closure v function)
  | constant (value : Literal) : Assigns v (.constant v value)
  | copy (src : VarId) : Assigns v (.copy v src)
  | phi (sources : List VarId) : Assigns v (.phi v sources)
  | getProperty (object : VarId) (property : String) : Assigns v (.getProperty v object property)
  | getDynamic (object key : VarId) : Assigns v (.getDynamic v object key)
  | globalRead (name : String) : Assigns v (.globalRead v name)
  | lexicalRead (name : String) (definer : FunctionId) : Assigns v (.lexicalRead v name definer)
  | invoke {call : Invocation} (result : call.dst = some v) : Assigns v (.invoke call)

/-- The variable is an operand of the instruction. -/
inductive Instruction.Reads (v : VarId) : Instruction → Prop where
  | copy (dst : VarId) : Reads v (.copy dst v)
  | phi (dst : VarId) {sources : List VarId} (merged : v ∈ sources) : Reads v (.phi dst sources)
  | getProperty (dst : VarId) (property : String) : Reads v (.getProperty dst v property)
  | putPropertyObject (property : String) (value : VarId) : Reads v (.putProperty v property value)
  | putPropertyValue (object : VarId) (property : String) :
      Reads v (.putProperty object property v)
  | getDynamicObject (dst key : VarId) : Reads v (.getDynamic dst v key)
  | getDynamicKey (dst object : VarId) : Reads v (.getDynamic dst object v)
  | putDynamicObject (key value : VarId) : Reads v (.putDynamic v key value)
  | putDynamicKey (object value : VarId) : Reads v (.putDynamic object v value)
  | putDynamicValue (object key : VarId) : Reads v (.putDynamic object key v)
  | globalWrite (name : String) : Reads v (.globalWrite name v)
  | lexicalWrite (name : String) (definer : FunctionId) : Reads v (.lexicalWrite name definer v)
  | callee {call : Invocation} (called : call.callee = v) : Reads v (.invoke call)
  | receiver {call : Invocation} (given : call.receiver = some v) : Reads v (.invoke call)
  | argument {call : Invocation} (passed : v ∈ call.args) : Reads v (.invoke call)
  | ret : Reads v (.ret (some v))

/-- The instruction names the function. -/
inductive Instruction.Refers (g : FunctionId) : Instruction → Prop where
  | closure (dst : VarId) : Refers g (.closure dst g)
  | lexicalRead (dst : VarId) (name : String) : Refers g (.lexicalRead dst name g)
  | lexicalWrite (name : String) (value : VarId) : Refers g (.lexicalWrite name g value)

namespace Instruction

variable {i : Instruction} {v : VarId} {g : FunctionId}

theorem assigns_iff : i.Assigns v ↔ i.defines? = some v := by
  constructor
  · intro assigns
    cases assigns with
    | invoke result => exact result
    | _ => rfl
  · intro defines
    cases i with
    | invoke call => exact .invoke defines
    | putProperty | putDynamic | globalWrite | lexicalWrite | ret => cases defines
    | _ =>
        cases defines
        constructor

theorem reads_iff : i.Reads v ↔ v ∈ i.uses := by
  constructor
  · intro reads
    cases reads with
    | phi dst merged => exact merged
    | receiver given => simp [uses, given]
    | callee called => simp [uses, called]
    | argument passed => simp [uses, passed]
    | _ => simp [uses]
  · intro used
    cases i with
    | newObject | newArray | closure | constant | globalRead | lexicalRead => cases used
    | copy dst src =>
        obtain rfl := List.mem_singleton.mp used
        exact .copy dst
    | phi dst sources => exact .phi dst used
    | getProperty dst object property =>
        obtain rfl := List.mem_singleton.mp used
        exact .getProperty dst property
    | putProperty object property value =>
        simp only [uses, List.mem_cons, List.not_mem_nil, or_false] at used
        rcases used with rfl | rfl
        · exact .putPropertyObject property value
        · exact .putPropertyValue object property
    | getDynamic dst object key =>
        simp only [uses, List.mem_cons, List.not_mem_nil, or_false] at used
        rcases used with rfl | rfl
        · exact .getDynamicObject dst key
        · exact .getDynamicKey dst object
    | putDynamic object key value =>
        simp only [uses, List.mem_cons, List.not_mem_nil, or_false] at used
        rcases used with rfl | rfl | rfl
        · exact .putDynamicObject key value
        · exact .putDynamicKey object value
        · exact .putDynamicValue object key
    | globalWrite name value =>
        obtain rfl := List.mem_singleton.mp used
        exact .globalWrite name
    | lexicalWrite name definer value =>
        obtain rfl := List.mem_singleton.mp used
        exact .lexicalWrite name definer
    | invoke call =>
        simp only [uses, List.cons_append, List.mem_cons, List.mem_append, Option.mem_toList]
          at used
        rcases used with called | given | passed
        · exact .callee called.symm
        · exact .receiver given
        · exact .argument passed
    | ret value =>
        obtain rfl := Option.mem_toList.mp used
        exact .ret

theorem refers_iff : i.Refers g ↔ i.names? = some g := by
  constructor
  · intro refers
    cases refers <;> rfl
  · intro names
    cases i <;> cases names <;> constructor

end Instruction

/-- A place of a function at which a variable is defined. -/
inductive DefinitionPlace where
  | receiver
  | parameter (index : Nat)
  | instruction (pc : Nat)

/-- The part that a definition at the place plays. -/
def DefinitionPlace.role : DefinitionPlace → DefinitionRole
  | .receiver => .receiver
  | .parameter _ => .parameter
  | .instruction pc => .instruction pc

/-- The function defines the variable at the place. -/
inductive FunctionBody.DefinesAt (f : FunctionBody) : VarId → DefinitionPlace → Prop where
  | receiver : DefinesAt f f.thisVar .receiver
  | parameter {k : Nat} {v : VarId} (here : f.params[k]? = some v) : DefinesAt f v (.parameter k)
  | instruction {pc : Nat} {i : Instruction} {v : VarId} (here : f.instructions[pc]? = some i)
      (assigns : i.Assigns v) : DefinesAt f v (.instruction pc)

namespace FunctionBody

/-- The variables that a function defines, with the places of their definitions. -/
def places (f : FunctionBody) : List (VarId × DefinitionPlace) :=
  (f.thisVar, .receiver) :: f.params.zipIdx.map (fun (v, k) => (v, .parameter k))
    ++ f.instructions.zipIdx.filterMap fun (i, pc) =>
      i.defines?.map fun v => (v, .instruction pc)

variable {f : FunctionBody} {v : VarId} {a : DefinitionPlace}

theorem definitions_eq : f.definitions = f.places.map fun (v, a) => (v, a.role) := by
  have parameters : f.params.map (fun v => (v, DefinitionRole.parameter)) =
      (f.params.zipIdx.map Prod.fst).map fun v => (v, DefinitionRole.parameter) := by
    rw [List.zipIdx_map_fst]
  simp only [definitions, places, parameters, List.map_append, List.map_cons, List.map_map,
    List.map_filterMap]
  congr 1
  refine List.filterMap_congr ?_
  intro (i, pc) _
  simp [Function.comp_def, DefinitionPlace.role]

theorem defined_eq (f : FunctionBody) :
    f.defined = f.thisVar :: (f.params ++ f.instructions.filterMap Instruction.defines?) := by
  have results : f.instructions.filterMap Instruction.defines? =
      (f.instructions.zipIdx.map Prod.fst).filterMap Instruction.defines? := by
    rw [List.zipIdx_map_fst]
  simp only [defined, definitions, results, List.map_append, List.map_cons, List.map_map,
    List.map_filterMap, List.filterMap_map, List.cons_append]
  congr 2
  · simp [Function.comp_def]
  · refine List.filterMap_congr fun (i, pc) _ => ?_
    simp [Function.comp_def]

theorem mem_places_iff : (v, a) ∈ f.places ↔ f.DefinesAt v a := by
  simp only [places, List.cons_append, List.mem_cons, List.mem_append, List.mem_map,
    List.mem_filterMap, Prod.mk.injEq, Prod.exists, Option.map_eq_some_iff,
    List.mem_zipIdx_iff_getElem?]
  constructor
  · rintro (⟨rfl, rfl⟩ | ⟨w, k, here, rfl, rfl⟩ | ⟨i, pc, here, w, defines, rfl, rfl⟩)
    · exact .receiver
    · exact .parameter here
    · exact .instruction here (Instruction.assigns_iff.mpr defines)
  · intro defines
    cases defines with
    | receiver => exact .inl ⟨rfl, rfl⟩
    | parameter here => exact .inr (.inl ⟨_, _, here, rfl, rfl⟩)
    | instruction here assigns =>
        exact .inr (.inr ⟨_, _, here, _, Instruction.assigns_iff.mp assigns, rfl, rfl⟩)

theorem mem_defined_iff : v ∈ f.defined ↔ ∃ a, f.DefinesAt v a := by
  simp [defined, definitions_eq, ← mem_places_iff]

theorem places_nodup : f.places.Nodup := by
  have numbered : ∀ {α : Type} (xs : List α), xs.zipIdx.Pairwise fun x y => x.2 ≠ y.2 := by
    intro α xs
    apply List.pairwise_map.mp
    rw [List.zipIdx_map_snd]
    exact List.nodup_range'
  have parameters : (f.params.zipIdx.map fun (v, k) =>
      (v, DefinitionPlace.parameter k)).Nodup := by
    refine List.pairwise_map.mpr ((numbered f.params).imp ?_)
    intro x y apart same
    exact apart (DefinitionPlace.parameter.inj (Prod.mk.inj same).2)
  have results : (f.instructions.zipIdx.filterMap fun (i, pc) =>
      i.defines?.map fun v => (v, DefinitionPlace.instruction pc)).Nodup := by
    refine List.pairwise_filterMap.mpr ((numbered f.instructions).imp ?_)
    intro x y apart d first e second same
    obtain ⟨v, -, rfl⟩ := Option.map_eq_some_iff.mp first
    obtain ⟨w, -, rfl⟩ := Option.map_eq_some_iff.mp second
    exact apart (DefinitionPlace.instruction.inj (Prod.mk.inj same).2)
  simp only [places, List.cons_append, List.nodup_cons, List.nodup_append]
  refine ⟨?_, parameters, results, ?_⟩
  · simp
  · intro d first e second same
    obtain ⟨x, -, rfl⟩ := List.mem_map.mp first
    obtain ⟨y, -, there⟩ := List.mem_filterMap.mp second
    obtain ⟨w, -, rfl⟩ := Option.map_eq_some_iff.mp there
    cases (Prod.mk.inj same).2

def DefinesOnce (f : FunctionBody) : Prop :=
  ∀ v a b, f.DefinesAt v a → f.DefinesAt v b → a = b

theorem nodup_defined_iff : f.defined.Nodup ↔ f.DefinesOnce := by
  have names : f.defined = f.places.map (·.1) := by
    simp [defined, definitions_eq, Function.comp_def]
  rw [names, List.nodup_map_iff_inj_on places_nodup]
  constructor
  · intro injective v a b first second
    exact (Prod.mk.inj (injective (v, a) (mem_places_iff.mpr first) (v, b)
      (mem_places_iff.mpr second) rfl)).2
  · intro once (v, a) first (w, b) second same
    obtain rfl : v = w := same
    rw [once v a b (mem_places_iff.mp first) (mem_places_iff.mp second)]

end FunctionBody

/-- A function whose variables are defined once and before all else defined, and that names
functions of the program. -/
structure FunctionBody.Consistent (p : Program) (f : FunctionBody) : Prop where
  once : f.DefinesOnce
  defined : ∀ i ∈ f.instructions, ∀ v, i.Reads v → ∃ a, f.DefinesAt v a
  exists_named : ∀ i ∈ f.instructions, ∀ g, i.Refers g → ∃ b, p.function? g = some b

structure Program.Consistent (p : Program) : Prop where
  entered : p.entryPoints ≠ []
  numbered : ∀ (k : Nat) (f : FunctionBody), p.functions[k]? = some f → f.id.toNat = k
  named : ∀ (j k : Nat) (f g : FunctionBody), p.functions[j]? = some f →
    p.functions[k]? = some g → f.name = g.name → j = k
  exists_entry : ∀ e ∈ p.entryPoints, ∃ f, p.function? e = some f
  bodies : ∀ f ∈ p.functions, f.Consistent p

/-- The program has the defect. -/
inductive ProgramDefect.Occurs (p : Program) : ProgramDefect → Prop where
  | noEntryPoint (none : p.entryPoints = []) : Occurs p .noEntryPoint
  | misplaced {k : Nat} {f : FunctionBody} (here : p.functions[k]? = some f)
      (elsewhere : f.id.toNat ≠ k) : Occurs p (.misplaced f.name f.id k)
  | duplicateName {j k : Nat} {f g : FunctionBody} (first : p.functions[j]? = some f)
      (second : p.functions[k]? = some g) (before : j < k) (same : f.name = g.name) :
      Occurs p (.duplicateName g.name)
  | missingEntry {e : FunctionId} (entry : e ∈ p.entryPoints) (missing : p.function? e = none) :
      Occurs p (.missingEntry e)
  | definedTwice {f : FunctionBody} {v : VarId} {a b : DefinitionPlace} (member : f ∈ p.functions)
      (first : f.DefinesAt v a) (second : f.DefinesAt v b) (apart : a ≠ b) :
      Occurs p (.definedTwice f.name v b.role)
  | unknownFunction {f : FunctionBody} {pc : Nat} {i : Instruction} {g : FunctionId}
      (member : f ∈ p.functions) (here : f.instructions[pc]? = some i) (refers : i.Refers g)
      (missing : p.function? g = none) : Occurs p (.unknownFunction f.name pc g)
  | undefinedUse {f : FunctionBody} {pc : Nat} {i : Instruction} {v : VarId}
      (member : f ∈ p.functions) (here : f.instructions[pc]? = some i) (reads : i.Reads v)
      (undefined : ∀ a, ¬f.DefinesAt v a) : Occurs p (.undefinedUse f.name pc v)

/-- A consistent program has no defect. -/
theorem Program.Consistent.no_defect {p : Program} (consistent : p.Consistent) {d : ProgramDefect} :
    ¬d.Occurs p := by
  intro occurs
  cases occurs with
  | noEntryPoint none => exact consistent.entered none
  | misplaced here elsewhere => exact elsewhere (consistent.numbered _ _ here)
  | duplicateName first second before same =>
      exact Nat.ne_of_lt before (consistent.named _ _ _ _ first second same)
  | missingEntry entry missing =>
      obtain ⟨f, found⟩ := consistent.exists_entry _ entry
      rw [missing] at found
      cases found
  | definedTwice member first second apart =>
      exact apart ((consistent.bodies _ member).once _ _ _ first second)
  | unknownFunction member here refers missing =>
      obtain ⟨b, found⟩ :=
        (consistent.bodies _ member).exists_named _ (List.mem_of_getElem? here) _ refers
      rw [missing] at found
      cases found
  | undefinedUse member here reads undefined =>
      obtain ⟨a, defines⟩ :=
        (consistent.bodies _ member).defined _ (List.mem_of_getElem? here) _ reads
      exact undefined a defines

/-- What is reported as repeated stands behind another definition of its variable. -/
theorem split_of_firstRepeated? {seen : KeySet VarId} {ds : List (VarId × DefinitionRole)}
    {d : VarId × DefinitionRole} (found : firstRepeated? seen ds = some d) :
    ∃ before after, ds = before ++ d :: after ∧
      (seen.contains d.1 = true ∨ d.1 ∈ before.map (·.1)) := by
  induction ds generalizing seen with
  | nil => cases found
  | cons e ds ih =>
      unfold firstRepeated? at found
      split at found
      · rename_i repeated
        cases found
        exact ⟨[], ds, rfl, .inl repeated⟩
      · obtain ⟨before, after, rfl, known⟩ := ih found
        refine ⟨e :: before, after, rfl, ?_⟩
        rw [KeySet.contains_insert, Bool.or_eq_true, decide_eq_true_eq] at known
        rcases known with (old | same) | later
        · exact .inl old
        · exact .inr (List.mem_map.mpr ⟨e, List.mem_cons_self, same.symm⟩)
        · exact .inr (by simpa using Or.inr later)

theorem FunctionBody.twice_of_firstRepeated? {f : FunctionBody} {v : VarId} {r : DefinitionRole}
    (found : firstRepeated? .empty f.definitions = some (v, r)) :
    ∃ a b, f.DefinesAt v a ∧ f.DefinesAt v b ∧ a ≠ b ∧ b.role = r := by
  obtain ⟨before, after, split, known⟩ := split_of_firstRepeated? found
  rw [definitions_eq, List.map_eq_append_iff] at split
  obtain ⟨front, back, whole, rfl, rest⟩ := split
  obtain ⟨⟨w, b⟩, tail, rfl, same, -⟩ := List.map_eq_cons_iff.mp rest
  obtain ⟨rfl, rfl⟩ := Prod.mk.inj same
  rcases known with none | earlier
  · simp at none
  · obtain ⟨a, member⟩ : ∃ a, (w, a) ∈ front := by simpa using earlier
    have nodup := f.places_nodup
    rw [whole] at nodup
    refine ⟨a, b, mem_places_iff.mp ?_, mem_places_iff.mp ?_, ?_, rfl⟩
    · rw [whole]
      exact List.mem_append_left _ member
    · rw [whole]
      exact List.mem_append_right _ List.mem_cons_self
    · rintro rfl
      exact (List.nodup_append.mp nodup).2.2 _ member _ List.mem_cons_self rfl

namespace Program

variable {p : Program} {d : ProgramDefect}

theorem function?_eq_none_iff {g : FunctionId} : p.function? g = none ↔ p.size ≤ g.toNat :=
  List.getElem?_eq_none_iff

theorem occurs_of_checkEntries {es : List FunctionId} (refused : p.checkEntries es = .error d)
    (entries : ∀ e ∈ es, e ∈ p.entryPoints) : d.Occurs p := by
  induction es with
  | nil => cases refused
  | cons e es ih =>
      unfold checkEntries at refused
      split at refused
      · exact ih refused fun e' member => entries e' (List.mem_cons_of_mem _ member)
      · rename_i beyond
        cases refused
        exact .missingEntry (entries e List.mem_cons_self)
          (function?_eq_none_iff.mpr (Nat.le_of_not_lt beyond))

/-- The names given are those of functions before the place. -/
theorem occurs_of_checkPlaces {index : Nat} {names : KeySet String} {fs : List FunctionBody}
    (refused : checkPlaces index names fs = .error d)
    (here : ∀ (k : Nat) (f : FunctionBody), fs[k]? = some f → p.functions[index + k]? = some f)
    (used : ∀ n, names.contains n = true →
      ∃ (j : Nat) (f : FunctionBody), j < index ∧ p.functions[j]? = some f ∧ f.name = n) :
    d.Occurs p := by
  induction fs generalizing index names with
  | nil => cases refused
  | cons f fs ih =>
      have first : p.functions[index]? = some f := here 0 f rfl
      unfold checkPlaces at refused
      split at refused
      · rename_i elsewhere
        cases refused
        exact .misplaced first elsewhere
      · split at refused
        · rename_i repeated
          cases refused
          obtain ⟨j, g, before, there, same⟩ := used f.name repeated
          exact .duplicateName there first before same
        · refine ih refused ?_ ?_
          · intro k g member
            rw [Nat.add_assoc, Nat.add_comm 1 k]
            exact here (k + 1) g (by simpa using member)
          · intro n known
            rw [KeySet.contains_insert, Bool.or_eq_true, decide_eq_true_eq] at known
            rcases known with old | rfl
            · obtain ⟨j, g, before, there, same⟩ := used n old
              exact ⟨j, g, Nat.lt_succ_of_lt before, there, same⟩
            · exact ⟨index, f, Nat.lt_succ_self index, first, rfl⟩

theorem occurs_of_checkInstruction {f : FunctionBody} {pc : Nat} {i : Instruction}
    (refused : p.checkInstruction f (.ofList f.defined) pc i = .error d) (member : f ∈ p.functions)
    (here : f.instructions[pc]? = some i) : d.Occurs p := by
  unfold checkInstruction at refused
  split at refused
  · rename_i g named
    cases refused
    obtain ⟨names, beyond⟩ := Option.filter_eq_some_iff.mp named
    exact .unknownFunction member here (Instruction.refers_iff.mpr names)
      (function?_eq_none_iff.mpr (of_decide_eq_true beyond))
  · split at refused
    · rename_i v used
      cases refused
      refine .undefinedUse member here
        (Instruction.reads_iff.mpr (List.mem_of_find?_eq_some used)) ?_
      intro a defines
      have missing := List.find?_some used
      rw [KeySet.contains_ofList, decide_eq_true (FunctionBody.mem_defined_iff.mpr ⟨a, defines⟩)]
        at missing
      cases missing
    · cases refused

theorem occurs_of_checkInstructions {f : FunctionBody} {pc : Nat} {is : List Instruction}
    (refused : p.checkInstructions f (.ofList f.defined) pc is = .error d)
    (member : f ∈ p.functions)
    (here : ∀ (k : Nat) (i : Instruction), is[k]? = some i → f.instructions[pc + k]? = some i) :
    d.Occurs p := by
  induction is generalizing pc with
  | nil => cases refused
  | cons i is ih =>
      unfold checkInstructions at refused
      split at refused
      · rename_i first
        cases refused
        exact occurs_of_checkInstruction first member (here 0 i rfl)
      · refine ih refused ?_
        intro k j later
        rw [Nat.add_assoc, Nat.add_comm 1 k]
        exact here (k + 1) j (by simpa using later)

theorem occurs_of_checkFunction {f : FunctionBody} (refused : p.checkFunction f = .error d)
    (member : f ∈ p.functions) : d.Occurs p := by
  unfold checkFunction at refused
  split at refused
  · rename_i v r repeated
    cases refused
    obtain ⟨a, b, first, second, apart, rfl⟩ := FunctionBody.twice_of_firstRepeated? repeated
    exact .definedTwice member first second apart
  · refine occurs_of_checkInstructions refused member ?_
    intro k i here
    rw [Nat.zero_add]
    exact here

theorem occurs_of_checkFunctions {fs : List FunctionBody}
    (refused : p.checkFunctions fs = .error d) (members : ∀ f ∈ fs, f ∈ p.functions) :
    d.Occurs p := by
  induction fs with
  | nil => cases refused
  | cons f fs ih =>
      unfold checkFunctions at refused
      split at refused
      · rename_i first
        cases refused
        exact occurs_of_checkFunction first (members f List.mem_cons_self)
      · exact ih refused fun g later => members g (List.mem_cons_of_mem _ later)

/-- A program that is refused has the defect it is refused for. -/
theorem occurs_of_validate (refused : p.validate = .error d) : d.Occurs p := by
  unfold validate at refused
  split at refused
  · rename_i empty
    cases refused
    exact .noEntryPoint (List.isEmpty_iff.mp empty)
  · split at refused
    · rename_i places
      cases refused
      refine occurs_of_checkPlaces places ?_ ?_
      · intro k f here
        rw [Nat.zero_add]
        exact here
      · intro n known
        simp at known
    · split at refused
      · rename_i entries
        cases refused
        exact occurs_of_checkEntries entries fun e member => member
      · exact occurs_of_checkFunctions refused fun f member => member

theorem nodup_of_checkPlaces {index : Nat} {names : KeySet String} {fs : List FunctionBody}
    (ok : checkPlaces index names fs = .ok ()) :
    (fs.map (·.name)).Nodup ∧ ∀ f ∈ fs, names.contains f.name = false := by
  induction fs generalizing index names with
  | nil => simp
  | cons f fs ih =>
      unfold checkPlaces at ok
      split at ok
      · cases ok
      · split at ok
        · cases ok
        · rename_i fresh
          obtain ⟨distinct, unused⟩ := ih ok
          have apart : ∀ g ∈ fs, names.contains g.name = false ∧ g.name ≠ f.name := by
            intro g member
            simpa [KeySet.contains_insert] using unused g member
          refine ⟨?_, ?_⟩
          · rw [List.map_cons, List.nodup_cons]
            refine ⟨?_, distinct⟩
            intro here
            obtain ⟨g, member, same⟩ := List.mem_map.mp here
            exact (apart g member).2 same
          · intro g member
            rcases List.mem_cons.mp member with rfl | later
            · exact Bool.eq_false_iff.mpr fresh
            · exact (apart g later).1

theorem consistent_of_validate (ok : p.validate = .ok ()) : p.Consistent := by
  have wf := wellFormed_of_validate ok
  unfold validate at ok
  split at ok
  · cases ok
  · rename_i entered
    split at ok
    · cases ok
    · rename_i places
      split at ok
      · cases ok
      · refine ⟨?_, ?_, ?_, wf.entries, ?_⟩
        · intro none
          exact entered (List.isEmpty_iff.mpr none)
        · intro k f here
          rw [id_of_checkPlaces places k f here, Nat.zero_add]
        · intro j k f g first second same
          have distinct := (nodup_of_checkPlaces places).1
          have bound : j < (p.functions.map (·.name)).length := by
            rw [List.length_map]
            exact (List.getElem?_eq_some_iff.mp first).1
          refine (List.getElem?_inj bound distinct).mp ?_
          rw [List.getElem?_map, List.getElem?_map, first, second]
          exact congrArg some same
        · intro f member
          obtain ⟨distinct, instructions⟩ :=
            of_checkFunction (checkFunction_of_checkFunctions ok f member)
          refine ⟨FunctionBody.nodup_defined_iff.mp distinct, ?_, ?_⟩
          · intro i here v reads
            exact FunctionBody.mem_defined_iff.mp
              ((instructions i here).2 v (Instruction.reads_iff.mp reads))
          · intro i here g refers
            exact function?_of_lt ((instructions i here).1 g (Instruction.refers_iff.mp refers))

theorem validate_of_consistent (consistent : p.Consistent) : p.validate = .ok () := by
  cases checked : p.validate with
  | ok => rfl
  | error d => exact absurd (occurs_of_validate checked) consistent.no_defect

/-- A program is accepted iff it is consistent, and refused for a defect that it has. -/
theorem validate_decides_consistent (p : Program) :
    (p.validate = .ok () ↔ p.Consistent) ∧
      (¬p.Consistent → ∃ d, p.validate = .error d ∧ d.Occurs p) := by
  have refused : ∀ d, p.validate = .error d → ¬p.Consistent := by
    intro d error consistent
    exact consistent.no_defect (occurs_of_validate error)
  refine ⟨⟨consistent_of_validate, ?_⟩, ?_⟩
  · intro consistent
    cases run : p.validate with
    | ok => rfl
    | error d => exact absurd consistent (refused d run)
  · intro inconsistent
    cases run : p.validate with
    | ok => exact absurd (consistent_of_validate run) inconsistent
    | error d => exact ⟨d, rfl, occurs_of_validate run⟩

end Program

end CallFlow
