import CallFlow.Proofs.Dataflow
import CallFlow.Proofs.Flow.Range

/-! Properties that are named by a known text. A computed access does what a static access of the
same name does, step by step, but for the name of the link to the inherited object. -/

namespace CallFlow

namespace Solver

variable {s : Solver} {object key : Nat} {n : String} {seen : IdSet}

/-- Texts are resolved, and the key is one text. -/
structure Computes (s : Solver) (object key : Nat) (n : String) : Prop where
  resolves : s.reflection.resolvesStrings = true
  handed : object < s.cells.size
  single : ∃ i, (s.facts key).toList = [i] ∧ s.objects.value? i = some (.constant (.string n))

/-- Computed accesses do what static accesses to the property of the name do, in the state in which
the property is numbered. -/
structure AccessesAlike (s : Solver) (seen : IdSet) (object key : Nat) (n : String) : Prop where
  load : ∀ dst, s.apply seen (.dynamicLoad object key dst) =
    (s.property n).2.apply (s.facts object) (.load (s.property n).1 dst)
  store : ∀ src, s.apply seen (.dynamicStore object key src) =
    (s.property n).2.apply (s.facts object) (.store (s.property n).1 src)

/-- The property that a text means as a key: an element, or a property of its own. -/
def textProperty (s : Solver) (n : String) : Property × Solver :=
  if Number.isElementIndex n then (.element, s)
  else
    let named := s.name n
    (.named named.1, named.2)

theorem textProperty_eq (ordinary : n ≠ protoName) : s.textProperty n = s.property n := by
  unfold textProperty property PropertyName.of
  rw [if_neg ordinary]
  split
  · rfl
  · rfl

theorem keyProperty_of_text {i : Nat} (resolves : s.reflection.resolvesStrings = true)
    (text : s.objects.value? i = some (.constant (.string n))) :
    s.keyProperty i = (some (s.textProperty n).1, (s.textProperty n).2) := by
  unfold keyProperty textProperty
  rw [text]
  dsimp only
  rw [if_pos resolves]
  split
  · rfl
  · rfl

theorem keyProperties_of_text (computes : s.Computes object key n) :
    s.keyProperties (s.facts key) = ([(s.textProperty n).1], (s.textProperty n).2) := by
  obtain ⟨i, single, text⟩ := computes.single
  unfold keyProperties
  rw [single, List.foldl_cons, List.foldl_nil]
  unfold collectProperty
  rw [keyProperty_of_text computes.resolves text]
  simp

theorem require_operands (computes : s.Computes object key n) :
    (s.require object).require key = s := by
  obtain ⟨i, single, -⟩ := computes.single
  have member : i ∈ (s.facts key).toList := by
    rw [single]
    exact List.mem_singleton_self i
  rw [require_eq computes.handed, require_eq (lt_of_facts member)]

theorem apply_dynamicLoad (computes : s.Computes object key n) (dst : Nat) :
    s.apply seen (.dynamicLoad object key dst) =
      (s.textProperty n).2.apply (s.facts object) (.load (s.textProperty n).1 dst) := by
  simp only [apply, require_operands computes, keyProperties_of_text computes, List.foldl_cons,
    List.foldl_nil]

theorem apply_dynamicStore (computes : s.Computes object key n) (src : Nat) :
    s.apply seen (.dynamicStore object key src) =
      (s.textProperty n).2.apply (s.facts object) (.store (s.textProperty n).1 src) := by
  simp only [apply, require_operands computes, keyProperties_of_text computes, List.foldl_cons,
    List.foldl_nil]

/-- Whatever the state, an access to the property that a known text names does what the static
access of that name does, unless the text is the name of the link. -/
theorem computed_accesses_alike (seen : IdSet) (computes : s.Computes object key n)
    (ordinary : n ≠ protoName) : s.AccessesAlike seen object key n where
  load dst := by
    rw [apply_dynamicLoad computes, textProperty_eq ordinary]
  store src := by
    rw [apply_dynamicStore computes, textProperty_eq ordinary]

/-- A solver with an object, a text and a further location, in this order. -/
def knowing (n : String) : Solver :=
  let s := Solver.new .stringOnly
  let object := s.object (.builtin .objectPrototype)
  let text := object.2.object (.constant (.string n))
  let base := text.2.var 1 0
  let key := base.2.var 1 1
  let other := key.2.var 1 2
  ((other.2.addFact base.1 object.1).2.addFact key.1 text.1).2

theorem computes_knowing_length : (knowing "length").Computes 0 1 "length" where
  resolves := rfl
  handed := by decide +kernel
  single := ⟨1, by decide +kernel, by decide +kernel⟩

theorem computes_knowing_protoName : (knowing protoName).Computes 0 1 protoName where
  resolves := rfl
  handed := by decide +kernel
  single := ⟨1, by decide +kernel, by decide +kernel⟩

/-- The name of an ordinary property is accessed alike. -/
theorem computed_accesses_alike_length : (knowing "length").Computes 0 1 "length" ∧
    "length" ≠ protoName ∧ (knowing "length").AccessesAlike .empty 0 1 "length" :=
  ⟨computes_knowing_length, by decide,
    computed_accesses_alike .empty computes_knowing_length (by decide)⟩

/-- A static write to the link reaches it, a computed one does not. -/
theorem not_accesses_alike_protoName : ¬ ∀ (s : Solver) (seen : IdSet) (object key : Nat)
    (n : String), s.Computes object key n → s.AccessesAlike seen object key n := by
  intro alike
  have same := (alike _ .empty 0 1 _ computes_knowing_protoName).store 2
  have linked := congrArg (fun s => s.locations.find? (.field 0 .proto)) same
  revert linked
  decide +kernel

end Solver

variable {r : Reflection} {n : Role} {holds : Place Role → AbstractObject → Prop} {key : VarId}
  {name : String}

/-- A variable holds the text and nothing else. -/
def HoldsText (holds : Place Role → AbstractObject → Prop) (n : Role) (key : VarId)
    (name : String) : Prop :=
  ∀ k, holds (.var n key) k ↔ k = .constant (.string name)

theorem AbstractObject.keySlot?_text (resolves : r.resolvesStrings = true)
    (ordinary : name ≠ protoName) :
    (AbstractObject.constant (.string name)).keySlot? r = some (.ofName name) := by
  unfold keySlot? Slot.ofName PropertyName.of
  dsimp only
  rw [if_neg ordinary, if_pos resolves]
  split
  · rfl
  · rfl

theorem Instruction.gives_computed (resolves : r.resolvesStrings = true)
    (ordinary : name ≠ protoName) (text : HoldsText holds n key name) (h : HeapPolicy)
    (f : FunctionId) (pc pc' : Nat) (d d' base : VarId) (x : AbstractObject) :
    (getDynamic d base key).Gives holds n h r f pc x ↔
      (getProperty d' base name).Gives holds n h r f pc' x := by
  constructor
  · rintro ⟨o, k, s, based, named, slot, reads⟩
    obtain rfl := (text k).mp named
    rw [AbstractObject.keySlot?_text resolves ordinary] at slot
    cases slot
    exact ⟨o, based, reads⟩
  · rintro ⟨o, based, reads⟩
    refine ⟨o, _, _, based, (text _).mpr rfl, ?_, reads⟩
    exact AbstractObject.keySlot?_text resolves ordinary

/-- In a complete answer a computed read under a known text and the static read of that name give
the same objects. -/
theorem heldBy_computed_eq {p : Program} {o : Options} {a : Analysis}
    {monitor : Nat → Option CancelReason} (run : analyze p o monitor = .ok a)
    (complete : a.completion = .complete) (resolves : o.reflection.resolvesStrings = true)
    (ordinary : name ≠ protoName) {m : Node} {f : FunctionBody}
    (node : a.graph.node? m.id = some m) (body : m.body? p = some f) {pc pc' : Nat}
    {d d' base : VarId} (dynamic : f.instructions[pc]? = some (.getDynamic d base key))
    (static : f.instructions[pc']? = some (.getProperty d' base name))
    (text : HoldsText a.Holds m.role key name) : a.HeldBy m d = a.HeldBy m d' := by
  obtain ⟨valid, -⟩ := exists_reached_of_analyze run
  have flowing := (exact_of_analyze run complete).flowing valid
  funext x
  apply propext
  rw [flowing.given m f pc _ d node body dynamic rfl rfl x,
    flowing.given m f pc' _ d' node body static rfl rfl x]
  exact Instruction.gives_computed resolves ordinary text ..

end CallFlow
