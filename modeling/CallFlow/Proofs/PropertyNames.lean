import Mathlib.Algebra.Group.Int.Defs
import CallFlow.Proofs.Dataflow
import CallFlow.Proofs.Interruption
import CallFlow.Proofs.Json.Numeral

/-! What the names of properties mean. A query knows properties of their own only; a number that is
computed always means an element, but its text does so only if the number is the index of an
element. -/

namespace CallFlow

namespace Slot

theorem ofName_of_plain {name : String} (apart : name ≠ protoName)
    (plain : Number.isElementIndex name = false) : ofName name = .named name := by
  simp [ofName, PropertyName.of, apart, plain]

theorem ofName_of_index {name : String} (index : Number.isElementIndex name = true) :
    ofName name = .element := by
  have apart : name ≠ protoName := by
    rintro rfl
    exact absurd index (by decide)
  simp [ofName, PropertyName.of, apart, index]

theorem mem_writeSet (r : Reflection) (s : Slot) : s ∈ s.writeSet r := by
  cases s <;> cases r <;> simp [writeSet, Reflection.modelsUnknown]

theorem mem_readSet (r : Reflection) (s : Slot) : s ∈ s.readSet r := by
  cases s <;> cases r <;> simp [readSet, Reflection.modelsUnknown]

end Slot

variable {p : Program} {o : Options} {a : Analysis} {monitor : Nat → Option CancelReason}

/-- A query for a property finds what the object holds in the slot of just this name. -/
theorem Analysis.mem_objectsOfProperty_iff {i : Nat} {y : AbstractObject}
    (number : a.solution.objects.value? i = some y) {name : String} {x : AbstractObject} :
    x ∈ a.solution.objectsOfProperty i name ↔ a.Holds (.field y (.named name)) x := by
  unfold Solution.objectsOfProperty
  cases found : a.solution.names.find? name with
  | none =>
      constructor
      · intro never
        cases never
      · rintro ⟨l, place, -⟩
        obtain ⟨-, q, rfl, -, slot⟩ := Tables.placeOf?_eq_field_iff.mp place
        obtain ⟨k, rfl, known⟩ := Tables.slot?_eq_named_iff.mp slot
        have seen := (Numbering.find?_eq_some_iff a.solution.names name k).mpr known
        rw [found] at seen
        cases seen
  | some k =>
      have known := (Numbering.find?_eq_some_iff a.solution.names name k).mp found
      have slot : a.tables.slot? (.named k) = some (.named name) :=
        Tables.slot?_eq_named_iff.mpr ⟨k, rfl, known⟩
      exact (holds_iff_of_placeOf?
        (Tables.placeOf?_eq_field_iff.mpr ⟨i, _, rfl, number, slot⟩)).symm

theorem Analysis.HeldBy.exists_number {n : Node} {v : VarId} {y : AbstractObject}
    (held : a.HeldBy n v y) : ∃ i, a.solution.objects.value? i = some y := by
  obtain ⟨l, -, member⟩ := held
  unfold Solution.objectsAt at member
  split at member
  · obtain ⟨i, -, number⟩ := List.mem_filterMap.mp member
    exact ⟨i, number⟩
  · cases member

/-- In a complete answer, a query for a property finds all that was put under its name, if the name
means a property of its own. -/
theorem queried_of_put (run : analyze p o monitor = .ok a) (complete : a.completion = .complete)
    {n : Node} {f : FunctionBody} (node : a.graph.node? n.id = some n) (body : n.body? p = some f)
    {pc : Nat} {base value : VarId} {name : String}
    (puts : f.instructions[pc]? = some (.putProperty base name value)) (apart : name ≠ protoName)
    (plain : Number.isElementIndex name = false) {y : AbstractObject} (based : a.HeldBy n base y)
    (object : y.isPrimitive = false) : ∃ i, a.solution.objects.value? i = some y ∧
      ∀ x, a.HeldBy n value x → x ∈ a.solution.objectsOfProperty i name := by
  obtain ⟨valid, -⟩ := exists_reached_of_analyze run
  have flowing := (exact_of_analyze run complete).flowing valid
  obtain ⟨i, number⟩ := based.exists_number
  refine ⟨i, number, fun x held => ?_⟩
  have written : Slot.named name ∈ (Slot.ofName name).writeSet o.reflection :=
    Slot.ofName_of_plain apart plain ▸ Slot.mem_writeSet _ _
  have stored := flowing.put n f pc _ node body puts y _ x ⟨based, object, written, held⟩
  exact (Analysis.mem_objectsOfProperty_iff number).mpr stored

/-- The node of a script that is the only function of its program. -/
def Node.script : Node := ⟨1, .function 0, .everywhere⟩

/-- The object that the script makes at a place. -/
def AbstractObject.made (pc : Nat) : AbstractObject := .allocation ⟨0, pc, .object⟩ .everywhere

/-- A script that puts one object into another under three names. -/
def Program.shelf : Program where
  functions :=
    [{ id := 0
       name := "Lshelf.js"
       thisVar := 0
       instructions :=
        [.newObject 1, .newObject 2, .putProperty 1 "g" 2, .putProperty 1 "0" 2,
          .putProperty 1 "__proto__" 2] }]
  entryPoints := [0]

namespace Shelf

def answer : Analysis := (Setup.ofOptions .shelf {}).run fun _ => none

theorem analyze_shelf : analyze .shelf {} (fun _ => none) = .ok answer :=
  analyze_eq (by rfl) (by rfl) _

theorem inspected : answer.completion = .complete ∧
    answer.graph.node? Node.script.id = some .script ∧
    answer.solution.objectsOfVar Node.script.id 1 = [.made 0] ∧
    answer.solution.objectsOfVar Node.script.id 2 = [.made 1] ∧
    answer.solution.objects.value? 4 = some (.made 0) ∧
    answer.solution.objectsOfProperty 4 "0" = [] := by
  decide +kernel

theorem complete : answer.completion = .complete := inspected.1

theorem node_script : answer.graph.node? Node.script.id = some .script := inspected.2.1

theorem heldBy_base : answer.HeldBy .script 1 (.made 0) :=
  (Analysis.heldBy_iff node_script).mpr (by simp [inspected.2.2.1])

theorem heldBy_value : answer.HeldBy .script 2 (.made 1) :=
  (Analysis.heldBy_iff node_script).mpr (by simp [inspected.2.2.2.1])

end Shelf

theorem queried_of_put_shelf : analyze .shelf {} (fun _ => none) = .ok Shelf.answer ∧
    Shelf.answer.completion = .complete ∧ "g" ≠ protoName ∧ Number.isElementIndex "g" = false ∧
    Shelf.answer.HeldBy .script 1 (.made 0) ∧
    ∃ i, Shelf.answer.solution.objects.value? i = some (.made 0) ∧
      .made 1 ∈ Shelf.answer.solution.objectsOfProperty i "g" := by
  have puts : Program.shelf.functions[0].instructions[2]? = some (.putProperty 1 "g" 2) := rfl
  obtain ⟨i, number, found⟩ := queried_of_put Shelf.analyze_shelf Shelf.complete Shelf.node_script
    rfl puts (by decide) (by decide) Shelf.heldBy_base rfl
  exact ⟨Shelf.analyze_shelf, Shelf.complete, by decide, by decide, Shelf.heldBy_base, i, number,
    found _ Shelf.heldBy_value⟩

/-- What is put under the index of an element is not found under it. -/
theorem index_not_queried : ¬ ∀ (p : Program) (o : Options) (monitor : Nat → Option CancelReason)
    (a : Analysis), analyze p o monitor = .ok a → a.completion = .complete →
    ∀ (n : Node) (f : FunctionBody), a.graph.node? n.id = some n → n.body? p = some f →
    ∀ (pc : Nat) (base value : VarId) (name : String),
    f.instructions[pc]? = some (.putProperty base name value) →
    ∀ (i : Nat) (y : AbstractObject), a.solution.objects.value? i = some y → a.HeldBy n base y →
    y.isPrimitive = false →
    ∀ x, a.HeldBy n value x → x ∈ a.solution.objectsOfProperty i name := by
  intro queried
  obtain ⟨-, -, -, -, number, nothing⟩ := Shelf.inspected
  have found := queried _ _ _ _ Shelf.analyze_shelf Shelf.complete .script _ Shelf.node_script
    rfl 3 1 2 "0" rfl 4 _ number Shelf.heldBy_base rfl _ Shelf.heldBy_value
  rw [nothing] at found
  cases found

/-- A text of digits alone is the index of an element if its number has 32 bits. -/
theorem Number.isElementIndex_of_digits {name : String} (nonempty : name.toList ≠ [])
    (digits : ∀ c ∈ name.toList, isDigit c = true) :
    isElementIndex name = true ↔ valueOfDigits name.toList < 2 ^ 32 := by
  unfold isElementIndex digits?
  split
  · rename_i r signed
    have plus := digits '+' (signed ▸ List.mem_cons_self)
    exact absurd plus (by decide)
  · simp [nonempty, List.all_eq_true.mpr digits, UInt32.size]

theorem Number.isElementIndex_of_other {name : String} {c : Char} {r : List Char}
    (text : name.toList = c :: r) (sign : c ≠ '+') (other : isDigit c = false) :
    isElementIndex name = false := by
  unfold isElementIndex digits?
  split
  · rename_i signed
    rw [text] at signed
    exact absurd (List.cons.inj signed).1 sign
  · simp [text, other]

/-- The text of an integer is the index of an element if and only if the integer has 32 bits and no
sign. -/
theorem Number.isElementIndex_toString_iff (i : Int) :
    isElementIndex (toString i) = true ↔ 0 ≤ i ∧ i < 2 ^ 32 := by
  cases i with
  | ofNat n =>
      have text : (toString (Int.ofNat n)).toList = Nat.toDigits 10 n := Nat.toList_repr
      have digits := isElementIndex_of_digits (text ▸ Nat.toDigits_ne_nil)
        (text ▸ isDigit_of_mem_toDigits n)
      rw [digits, text, valueOfDigits_toDigits, Int.ofNat_eq_natCast]
      omega
  | negSucc n =>
      have text : (toString (Int.negSucc n)).toList = '-' :: Nat.toDigits 10 (n + 1) := by
        change ("-" ++ Nat.repr (n + 1)).toList = _
        simp
      rw [isElementIndex_of_other text (by decide) (by decide)]
      simp only [Bool.false_eq_true, false_iff]
      omega

def Binary64.value (x : Binary64) : Rat :=
  (if x.isNegative then -1 else 1) * x.significand * 2 ^ x.scale

/-- A variable may hold a number that is an integer. -/
def Analysis.HoldsInteger (a : Analysis) (n : Node) (v : VarId) (i : Int) : Prop :=
  ∃ x : Binary64, x.isFinite = true ∧ x.value = i ∧ a.HeldBy n v (.constant (.ofNumber x))

/-- In a complete answer, what is stored under a number is seen under the text of the number, if the
number is the index of an element. -/
theorem seen_under_text (run : analyze p o monitor = .ok a) (complete : a.completion = .complete)
    {n m : Node} {f g : FunctionBody} (node : a.graph.node? n.id = some n)
    (body : n.body? p = some f) (reader : a.graph.node? m.id = some m) (code : m.body? p = some g)
    {pc pc' : Nat} {base key value base' d : VarId} {i : Int}
    (stores : f.instructions[pc]? = some (.putDynamic base key value))
    (loads : g.instructions[pc']? = some (.getProperty d base' (toString i)))
    (number : a.HoldsInteger n key i) (index : 0 ≤ i ∧ i < 2 ^ 32) {y : AbstractObject}
    (object : y.isPrimitive = false) (stored : a.HeldBy n base y) (read : a.HeldBy m base' y) :
    ∀ x, a.HeldBy n value x → a.HeldBy m d x := by
  intro x held
  obtain ⟨valid, -⟩ := exists_reached_of_analyze run
  have flowing := (exact_of_analyze run complete).flowing valid
  obtain ⟨k, -, -, named⟩ := number
  have element : a.Holds (.field y .element) x :=
    flowing.put n f pc _ node body stores y _ x
      ⟨_, .element, stored, object, named, rfl, Slot.mem_writeSet _ _, held⟩
  refine (flowing.given m g pc' _ d reader code loads rfl rfl x).mpr ⟨y, read, ?_⟩
  rw [Slot.ofName_of_index ((Number.isElementIndex_toString_iff i).mpr index)]
  exact .own object (Slot.mem_readSet _ _) element

/-- A script that puts an object into two others, under a number of which it then reads the text: an
index of an element, and a number with a sign. -/
def Program.drawer : Program where
  functions :=
    [{ id := 0
       name := "Ldrawer.js"
       thisVar := 0
       instructions :=
        [.newObject 1, .constant 2 (.number ⟨0x4010000000000000⟩), .putDynamic 1 2 1,
          .getProperty 3 1 "4", .newObject 4, .constant 5 (.number ⟨0xbff0000000000000⟩),
          .putDynamic 4 5 1, .getProperty 6 4 "-1"] }]
  entryPoints := [0]

/-- The options that tell constants apart by their values. -/
def Options.telling : Options := { constantSpecific := true }

namespace Drawer

def answer : Analysis := (Setup.ofOptions .drawer .telling).run fun _ => none

theorem analyze_drawer : analyze .drawer .telling (fun _ => none) = .ok answer :=
  analyze_eq (by rfl) (by rfl) _

theorem inspected : (answer.completion = .complete ∧
      answer.graph.node? Node.script.id = some .script) ∧
    (answer.solution.objectsOfVar Node.script.id 1 = [.made 0] ∧
      answer.solution.objectsOfVar Node.script.id 2 =
        [.constant (.ofNumber ⟨0x4010000000000000⟩)]) ∧
    answer.solution.objectsOfVar Node.script.id 4 = [.made 4] ∧
    answer.solution.objectsOfVar Node.script.id 5 = [.constant (.ofNumber ⟨0xbff0000000000000⟩)] ∧
    answer.solution.objectsOfVar Node.script.id 6 = [] := by
  decide +kernel

theorem complete : answer.completion = .complete := inspected.1.1

theorem node_script : answer.graph.node? Node.script.id = some .script := inspected.1.2

theorem heldBy_four : answer.HeldBy .script 1 (.made 0) ∧ answer.HoldsInteger .script 2 4 := by
  obtain ⟨base, key⟩ := inspected.2.1
  refine ⟨(Analysis.heldBy_iff node_script).mpr (by simp [base]), ⟨0x4010000000000000⟩, by decide,
    by decide +kernel, (Analysis.heldBy_iff node_script).mpr (by simp [key])⟩

theorem heldBy_minusOne :
    answer.HeldBy .script 4 (.made 4) ∧ answer.HoldsInteger .script 5 (-1) := by
  obtain ⟨base, key, -⟩ := inspected.2.2
  refine ⟨(Analysis.heldBy_iff node_script).mpr (by simp [base]), ⟨0xbff0000000000000⟩, by decide,
    by decide +kernel, (Analysis.heldBy_iff node_script).mpr (by simp [key])⟩

end Drawer

theorem seen_under_text_drawer : analyze .drawer .telling (fun _ => none) = .ok Drawer.answer ∧
    Drawer.answer.completion = .complete ∧ Drawer.answer.HoldsInteger .script 2 4 ∧
    Drawer.answer.HeldBy .script 1 (.made 0) ∧
    Drawer.answer.HeldBy .script 3 (.made 0) := by
  obtain ⟨base, number⟩ := Drawer.heldBy_four
  have stores : Program.drawer.functions[0].instructions[2]? = some (.putDynamic 1 2 1) := rfl
  have loads : Program.drawer.functions[0].instructions[3]? =
    some (.getProperty 3 1 (toString (4 : Int))) := rfl
  have seen := seen_under_text Drawer.analyze_drawer Drawer.complete Drawer.node_script rfl
    Drawer.node_script rfl stores loads number (by decide) rfl base base
  exact ⟨Drawer.analyze_drawer, Drawer.complete, number, base, seen _ base⟩

/-- What is stored under a number with a sign is not seen under its text. -/
theorem unseen_under_sign : ¬ ∀ (p : Program) (o : Options) (monitor : Nat → Option CancelReason)
    (a : Analysis), analyze p o monitor = .ok a → o.constantSpecific = true →
    a.completion = .complete → ∀ (n m : Node) (f g : FunctionBody),
    a.graph.node? n.id = some n → n.body? p = some f →
    a.graph.node? m.id = some m → m.body? p = some g →
    ∀ (pc pc' : Nat) (base key value base' d : VarId) (i : Int), i.natAbs ≤ 2 ^ 53 →
    f.instructions[pc]? = some (.putDynamic base key value) →
    g.instructions[pc']? = some (.getProperty d base' (toString i)) → a.HoldsInteger n key i →
    ∀ y, y.isPrimitive = false → a.HeldBy n base y → a.HeldBy m base' y →
    ∀ x, a.HeldBy n value x → a.HeldBy m d x := by
  intro alike
  obtain ⟨base, number⟩ := Drawer.heldBy_minusOne
  have seen := alike _ _ _ _ Drawer.analyze_drawer rfl Drawer.complete .script .script _ _
    Drawer.node_script rfl Drawer.node_script rfl 6 7 4 5 1 4 6 (-1) (by decide) rfl rfl number _
    rfl base base _ Drawer.heldBy_four.1
  have missing := (Analysis.heldBy_iff Drawer.node_script).mp seen
  rw [Drawer.inspected.2.2.2.2] at missing
  cases missing

end CallFlow
