import CallFlow.Proofs.Dataflow
import CallFlow.Proofs.Interruption

/-! Reads through unknown keys. They see all that a read of a known name sees, but for what no write
put there: the prototypes and constructors of functions, and the built-in methods. -/

namespace CallFlow

/-- The slots that have a name of their own. -/
def Slot.IsKnown (s : Slot) : Prop := s = .element ∨ ∃ name, s = .named name

/-- What fields hold that no instruction writes. -/
inductive Installed (h : HeapPolicy) : AbstractObject → Slot → AbstractObject → Prop
  | call : Installed h (.builtin .functionPrototype) (.named "call") (.builtin .call)
  | apply : Installed h (.builtin .functionPrototype) (.named "apply") (.builtin .apply)
  | prototype (f : FunctionId) (pc : Nat) (g : FunctionId) (c : Context) :
      Installed h (h.allocation ⟨f, pc, .function g⟩ c) (.named "prototype")
        (h.allocation ⟨f, pc, .prototype g⟩ c)
  | constructor (f : FunctionId) (pc : Nat) (g : FunctionId) (c : Context) :
      Installed h (h.allocation ⟨f, pc, .prototype g⟩ c) (.named "constructor")
        (h.allocation ⟨f, pc, .function g⟩ c)

namespace Setup

variable {u : Setup} {j : Finding Role}

/-- What reaches a known slot of an object also reaches the summary of the object, unless it was
installed; and nothing is loaded into a field at once. -/
def Summed (u : Setup) : Finding Role → Prop
  | .holds p x => ∀ o s, p = .field o s → s.IsKnown →
      u.Fields o .allValues x ∨ Installed u.heap o s x
  | .flows p q => ∀ o s, q = .field o s → s.IsKnown →
      p = q ∨ u.Follows (.flows p (.field o .allValues))
  | .attached _ (.load _ q) | .attached _ (.dynamicLoad _ _ q) => ∀ o s, q ≠ .field o s
  | _ => True

@[simp]
theorem not_isKnown_proto : ¬ Slot.proto.IsKnown := by simp [Slot.IsKnown]

/-- A write to a known slot is one of this slot, and goes to the summary too. -/
theorem allValues_mem_writeSet {s q : Slot} (known : q.IsKnown) (written : q ∈ s.writeSet .full) :
    .allValues ∈ s.writeSet .full := by
  rcases known with rfl | ⟨name, rfl⟩ <;> cases s <;>
    simp_all [Slot.writeSet, Reflection.modelsUnknown]

/-- What is stored in a known slot is stored in the summary too. -/
theorem summed_store (full : u.reflection = .full) {s : Slot} {src : Place Role}
    {o : AbstractObject} (asked : ∀ j ∈ s.storeFindings u.reflection src o, u.Follows j) :
    Each u.Summed (s.storeFindings u.reflection src o) := by
  refine (each_store _ s src o).mpr fun base q written => ⟨trivial, fun o' q' same known => ?_⟩
  cases same
  rw [full] at written
  refine .inr (asked _ ?_)
  simp only [Slot.storeFindings, base, Bool.false_eq_true, ↓reduceIte]
  refine List.mem_flatMap.mpr ⟨.allValues, full ▸ allValues_mem_writeSet known written, ?_⟩
  simp [Slot.writeFindings]

/-- What is loaded into a place that is no field reaches no field. -/
theorem summed_load (r : Reflection) (s : Slot) {dst : Place Role} (o : AbstractObject)
    (unowned : ∀ o s, dst ≠ .field o s) : Each u.Summed (s.loadFindings r dst o) :=
  (each_load r s dst o).mpr fun _ =>
    ⟨fun _ _ => ⟨trivial, fun o s same => absurd same (unowned o s)⟩,
      fun _ => ⟨trivial, unowned⟩⟩

theorem summed_entry (e : FunctionId × Nat) : Each u.Summed (Finding.entry e) := by
  simp [Finding.entry, Summed]

/-- The built-in objects have installed methods. -/
theorem summed_builtins : Each u.Summed Finding.builtins := by
  have call : Slot.ofName "call" = .named "call" := by decide
  have apply : Slot.ofName "apply" = .named "apply" := by decide
  simp [Finding.builtins, Finding.method, Finding.named, call, apply, Summed, Installed.call,
    Installed.apply]

/-- An instruction installs the prototype and the constructor of a function, and brings nothing else
to a field. -/
theorem summed_instruction (n : Role) (f : FunctionId) (pc : Nat) (i : Instruction) :
    Each u.Summed (i.findings u.heap n f pc) := by
  cases i with
  | closure dst g =>
      have prototype : Slot.ofName "prototype" = .named "prototype" := by decide
      have constructor : Slot.ofName "constructor" = .named "constructor" := by decide
      simp [Instruction.findings, Finding.named, Finding.inherits, prototype, constructor, Summed,
        Installed.prototype, Installed.constructor]
  | ret value => cases value <;> simp [Instruction.findings, Summed]
  | _ => simp [Instruction.findings, Finding.inherits, Summed]

theorem summed_dispatch (n : Role) (pc : Nat) (d : Dispatch) (o : AbstractObject) :
    Each u.Summed (u.dispatchFindings n pc d o) := by
  refine each_dispatch ?_ ?_ ?_ ?_ ?_ ?_ <;> simp [Summed]

/-- Connecting a call brings nothing to a field but what is inherited. -/
theorem summed_encounter (e : Encounter) (f : FunctionId) (call : Invocation)
    (callee : FunctionBody) : Each u.Summed (e.findings u.heap f call callee) := by
  refine Encounter.each_findings ?_ ?_ ?_ ?_ ?_ ?_ ?_ <;>
    simp [Encounter.constructFindings, Encounter.pass, Encounter.argumentFindings,
      Encounter.elementsFindings, Encounter.resultFindings, Summed]

/-- Whatever follows, known slots are summed up. -/
theorem Follows.summed (full : u.reflection = .full) (follows : u.Follows j) : u.Summed j := by
  -- a store is summed up if its object is held, so what follows is kept beside the property
  have closed : Closed u.Rule fun j => u.Follows j ∧ u.Summed j := by
    intro ps j rule premises
    refine ⟨.apply rule fun q member => (premises q member).1, ?_⟩
    cases rule with
    | root => trivial
    | builtins member => exact summed_builtins j member
    | entry here member => exact summed_entry _ j member
    | visit member =>
        obtain ⟨f, -, pc, i, -, member⟩ := mem_visitFindings.mp member
        exact summed_instruction _ f.id pc i j member
    | dispatch member => exact summed_dispatch _ _ _ _ j member
    | bind member =>
        obtain ⟨f, call, callee, -, -, -, member⟩ := mem_bindFindings.mp member
        exact summed_encounter _ f.id call callee j member
    | flow rule =>
        cases rule with
        | self => exact fun _ _ _ _ => .inl rfl
        | pass =>
            obtain ⟨-, linked⟩ := premises _ List.mem_cons_self
            obtain ⟨held, summed⟩ := premises _ (List.mem_cons_of_mem _ List.mem_cons_self)
            intro o s same known
            rcases linked o s same known with rfl | linked
            · exact summed o s same known
            · exact .inl (follows_flow linked held)
        | load member =>
            exact summed_load _ _ _ (premises _ List.mem_cons_self).2 j member
        | store member =>
            obtain ⟨attached, -⟩ := premises _ List.mem_cons_self
            obtain ⟨held, -⟩ := premises _ (List.mem_cons_of_mem _ List.mem_cons_self)
            refine summed_store full (fun k asked => ?_) j member
            exact (Derivable.closed u.Rule).of_two (.flow (.store asked)) attached held
        | loadKey member => exact each_key _ _ (fun _ => trivial) j member
        | storeKey member => exact each_key _ _ (fun _ => trivial) j member
        | dynamicLoad slot member =>
            exact summed_load _ _ _ (premises _ List.mem_cons_self).2 j member
        | dynamicStore slot member =>
            obtain ⟨attached, -⟩ := premises _ List.mem_cons_self
            obtain ⟨held, -⟩ := premises _ (List.mem_cons_of_mem _ List.mem_cons_self)
            obtain ⟨key, -⟩ :=
              premises _ (List.mem_cons_of_mem _ (List.mem_cons_of_mem _ List.mem_cons_self))
            refine summed_store full (fun k asked => ?_) j member
            exact (Derivable.closed u.Rule).of_three
              (.flow (.dynamicStore slot asked)) attached held key
  exact (Derivable.least follows closed).2

/-- A read through an unknown key sees what a read of a known slot sees, unless it was installed. -/
theorem reads_unknownName (full : u.reflection = .full) {s : Slot} (known : s.IsKnown)
    {o x : AbstractObject} (reads : s.Reads u.Fields u.reflection o x) :
    Slot.unknownName.Reads u.Fields u.reflection o x ∨
      ∃ y, Installed u.heap y s x ∧ u.Fields y s x := by
  obtain ⟨y, q, reached, base, seen, held⟩ := reads
  have above : y = o ∨ Slot.unknownName.isInherited = true ∧ ProtoChain u.Fields o y :=
    reached.imp_right fun chain => ⟨rfl, chain.2⟩
  have seen : q = s ∨ q = .unknownName := by
    rcases known with rfl | ⟨name, rfl⟩ <;>
      simpa [Slot.readSet, full, Reflection.modelsUnknown] using seen
  rcases seen with rfl | rfl
  · refine (held.summed full y q rfl known).imp (fun summed => ?_) fun installed =>
      ⟨y, installed, held⟩
    exact ⟨y, .allValues, above, base, by simp [Slot.readSet], summed⟩
  · exact .inl ⟨y, .unknownName, above, base, by simp [Slot.readSet], held⟩

end Setup

theorem Slot.isKnown_ofName {name : String} (apart : name ≠ protoName) : (ofName name).IsKnown := by
  cases index : Number.isElementIndex name <;> simp [ofName, PropertyName.of, apart, index, IsKnown]

variable {p : Program} {o : Options} {a : Analysis} {monitor : Nat → Option CancelReason}

/-- In a complete answer under full reflection, what a read of a property sees, a read of the same
objects through an unknown key sees too, unless it was installed under the name of the property. -/
theorem seen_through_unknown_key (run : analyze p o monitor = .ok a)
    (complete : a.completion = .complete) (full : o.reflection = .full) {n : Node}
    {f : FunctionBody} (node : a.graph.node? n.id = some n) (body : n.body? p = some f)
    {pc pc' : Nat} {d d' base key : VarId} {name : String}
    (dynamic : f.instructions[pc]? = some (.getDynamic d base key))
    (static : f.instructions[pc']? = some (.getProperty d' base name)) (apart : name ≠ protoName)
    {k x : AbstractObject} (named : a.HeldBy n key k)
    (unknown : k.keySlot? .full = some .unknownName) (held : a.HeldBy n d' x) :
    a.HeldBy n d x ∨ ∃ y, Installed (.ofOptions o) y (.ofName name) x ∧
      a.Holds (.field y (.ofName name)) x := by
  obtain ⟨valid, -⟩ := exists_reached_of_analyze run
  have flowing := (exact_of_analyze run complete).flowing valid
  have holds := (exact_of_analyze run complete).holds_eq
  obtain ⟨y, based, reads⟩ :=
    (flowing.given n f pc' _ d' node body static rfl rfl x).mp held
  rw [flowing.given n f pc _ d node body dynamic rfl rfl x]
  rw [holds] at reads ⊢
  rcases Setup.reads_unknownName (u := .ofOptions p o) full (Slot.isKnown_ofName apart) reads with
    seen | installed
  · exact .inl ⟨y, k, .unknownName, holds ▸ based, holds ▸ named, full ▸ unknown, seen⟩
  · exact .inr installed

/-- A script that gives a function a property, and reads it and its prototype by their names, and
whatever a text may name. -/
def Program.mirror : Program where
  functions :=
    [{ id := 0
       name := "Lmirror.js"
       thisVar := 0
       instructions :=
        [.closure 1 1, .constant 2 (.string "g"), .putProperty 1 "g" 1, .getDynamic 3 1 2,
          .getProperty 4 1 "g", .getProperty 5 1 "prototype"] },
     { id := 1, name := "Lmirror.js/f", thisVar := 0 }]
  entryPoints := [0]

/-- The options that model unknown keys, and no constants by their values. -/
def Options.guessing : Options := { reflection := .full }

namespace Mirror

def answer : Analysis := (Setup.ofOptions .mirror .guessing).run fun _ => none

def script : Node := ⟨1, .function 0, .everywhere⟩

def made : AbstractObject := .allocation ⟨0, 0, .function 1⟩ .everywhere

def installed : AbstractObject := .allocation ⟨0, 0, .prototype 1⟩ .everywhere

theorem analyze_mirror : analyze .mirror .guessing (fun _ => none) = .ok answer :=
  analyze_eq (by rfl) (by rfl) _

theorem node_script : answer.graph.node? script.id = some script := by decide +kernel

theorem objectsAt_answer : answer.completion = .complete ∧
    answer.solution.objectsAt (.var 1 2) = [.constantKind .string] ∧
    answer.solution.objectsAt (.var 1 3) = [made] ∧
    answer.solution.objectsAt (.var 1 4) = [made] ∧
    answer.solution.objectsAt (.var 1 5) = [installed] := by
  decide +kernel

/-- What a variable of the script holds is what its location does. -/
theorem heldBy_script {v : VarId} {x : AbstractObject} :
    answer.HeldBy script v x ↔ x ∈ answer.solution.objectsAt (.var 1 v) :=
  Analysis.heldBy_iff node_script

end Mirror

/-- The script's text is an unknown key, through which the function is seen that stands in `g`. -/
theorem seen_through_text : analyze .mirror .guessing (fun _ => none) = .ok Mirror.answer ∧
    Mirror.answer.completion = .complete ∧ Options.guessing.reflection = .full ∧
    Mirror.answer.HeldBy Mirror.script 2 (.constantKind .string) ∧
    Mirror.answer.HeldBy Mirror.script 4 Mirror.made ∧
    (Mirror.answer.HeldBy Mirror.script 3 Mirror.made ∨
      ∃ y, Installed (.ofOptions .guessing) y (.ofName "g") Mirror.made ∧
        Mirror.answer.Holds (.field y (.ofName "g")) Mirror.made) := by
  obtain ⟨complete, text, -, read, -⟩ := Mirror.objectsAt_answer
  have named : Mirror.answer.HeldBy Mirror.script 2 (.constantKind .string) :=
    Mirror.heldBy_script.mpr (by simp [text])
  have held : Mirror.answer.HeldBy Mirror.script 4 Mirror.made :=
    Mirror.heldBy_script.mpr (by simp [read])
  have dynamic : Program.mirror.functions[0].instructions[3]? = some (.getDynamic 3 1 2) := rfl
  have static : Program.mirror.functions[0].instructions[4]? = some (.getProperty 4 1 "g") := rfl
  refine ⟨Mirror.analyze_mirror, complete, rfl, named, held, ?_⟩
  exact seen_through_unknown_key Mirror.analyze_mirror complete rfl Mirror.node_script rfl dynamic
    static (by decide) named rfl held

/-- What was installed is not seen through an unknown key: not all that reads of properties see
is. -/
theorem installed_unseen : ¬ ∀ (p : Program) (o : Options) (monitor : Nat → Option CancelReason)
    (a : Analysis), analyze p o monitor = .ok a → a.completion = .complete → o.reflection = .full →
    ∀ (n : Node) (f : FunctionBody), a.graph.node? n.id = some n → n.body? p = some f →
    ∀ (pc pc' : Nat) (d d' base key : VarId) (name : String),
    f.instructions[pc]? = some (.getDynamic d base key) →
    f.instructions[pc']? = some (.getProperty d' base name) → name ≠ protoName →
    ∀ k x, a.HeldBy n key k → k.keySlot? .full = some .unknownName → a.HeldBy n d' x →
    a.HeldBy n d x := by
  intro covered
  obtain ⟨complete, text, dynamic, -, static⟩ := Mirror.objectsAt_answer
  have seen := covered _ _ _ _ Mirror.analyze_mirror complete rfl Mirror.script _ Mirror.node_script
    rfl 3 5 3 5 1 2 "prototype" rfl rfl (by decide) (.constantKind .string) Mirror.installed
    (Mirror.heldBy_script.mpr (by simp [text])) rfl (Mirror.heldBy_script.mpr (by simp [static]))
  have missing := Mirror.heldBy_script.mp seen
  rw [dynamic] at missing
  simp [Mirror.made, Mirror.installed] at missing

end CallFlow
