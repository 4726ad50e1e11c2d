import CallFlow.Proofs.Construction.Variables

/-! What instructions other than calls give to the variables they define, and what is written to
globals, lexical variables and fields. -/

namespace CallFlow

section

variable (holds : Place Role → AbstractObject → Prop) (n : Role)

/-- What an instruction at a place of a function, other than a call, gives to the variable that it
defines, when places hold the given objects. -/
def Instruction.Gives (h : HeapPolicy) (r : Reflection) (f : FunctionId) (pc : Nat)
    (x : AbstractObject) : Instruction → Prop
  | newObject _ => x = h.allocation ⟨f, pc, .object⟩ n.2
  | newArray _ => x = h.allocation ⟨f, pc, .array⟩ n.2
  | closure _ g => x = h.allocation ⟨f, pc, .function g⟩ n.2
  | constant _ value => h.constant? value = some x
  | copy _ src => holds (.var n src) x
  | phi _ sources => ∃ src ∈ sources, holds (.var n src) x
  | getProperty _ object name =>
    ∃ o, holds (.var n object) o ∧ (Slot.ofName name).Reads (holds <| .field · ·) r o x
  | getDynamic _ object key => ∃ o k s, holds (.var n object) o ∧ holds (.var n key) k ∧
    k.keySlot? r = some s ∧ s.Reads (holds <| .field · ·) r o x
  | globalRead _ name => holds (.global name) x
  | lexicalRead _ name definer => holds (.lexical definer name) x
  | putProperty _ _ _ | putDynamic _ _ _ | globalWrite _ _ | lexicalWrite _ _ _ | invoke _
  | ret _ => False

/-- What an instruction puts into a field of an object. -/
def Instruction.Puts (r : Reflection) (o : AbstractObject) (q : Slot) (x : AbstractObject) :
    Instruction → Prop
  | putProperty object name value => holds (.var n object) o ∧ o.isPrimitive = false ∧
    q ∈ (Slot.ofName name).writeSet r ∧ holds (.var n value) x
  | putDynamic object key value => ∃ k s, holds (.var n object) o ∧ o.isPrimitive = false ∧
    holds (.var n key) k ∧ k.keySlot? r = some s ∧ q ∈ s.writeSet r ∧ holds (.var n value) x
  | _ => False

end

namespace Setup

variable {u : Setup} {m : Role} {f : FunctionBody} {v : VarId} {pc : Nat} {i : Instruction}
  {x : AbstractObject}

def Holds (u : Setup) (p : Place Role) (o : AbstractObject) : Prop := u.Follows (.holds p o)

/-- An instruction brings to the variable that it defines no more than it gives. -/
theorem feeds_instruction (defines : i.defines? = some v) (plain : i.call? = none) :
    Each (u.Feeds (.var m v) (i.Gives u.Holds m u.heap u.reflection f.id pc ·))
      (i.findings u.heap m f.id pc) := by
  have field : ∀ {o : AbstractObject} {s : Slot} {x : AbstractObject} {allowed},
      u.Feeds (.var m v) allowed (.holds (.field o s) x) := fun same => by cases same
  cases i with
  | newObject dst =>
      simp only [Instruction.findings, Finding.inherits, each_append, each_cons, each_stored]
      exact ⟨⟨trivial, trivial, fun _ => rfl⟩, trivial, trivial, field⟩
  | newArray dst =>
      simp only [Instruction.findings, Finding.inherits, each_append, each_cons, each_stored]
      exact ⟨⟨trivial, trivial, fun _ => rfl⟩, trivial, trivial, field⟩
  | closure dst g =>
      simp only [Instruction.findings, Finding.inherits, Finding.named, each_append, each_cons,
        each_nil, each_stored, each_mentions]
      exact ⟨⟨⟨⟨⟨⟨trivial, trivial, trivial⟩, trivial, fun _ => rfl⟩, fun _ _ => trivial, trivial,
        field⟩, fun _ _ => trivial, trivial, field⟩, trivial, trivial, field⟩, trivial, trivial,
        field⟩
  | constant dst value =>
      simp only [Instruction.findings, each_elim, each_cons, each_stored]
      exact fun o known => ⟨trivial, trivial, fun _ => known⟩
  | copy dst src =>
      simp only [Instruction.findings, each_linked]
      exact ⟨trivial, trivial, fun _ => .inr fun o held => held⟩
  | phi dst sources =>
      simp only [Instruction.findings, each_flatMap, each_linked]
      exact fun src member => ⟨trivial, trivial, fun _ => .inr fun o held => ⟨src, member, held⟩⟩
  | getProperty dst object name =>
      simp only [Instruction.findings, each_append, each_mentions, each_cons, each_nil, and_true]
      exact ⟨fun _ _ => trivial, trivial, trivial, fun _ o x held reads => ⟨o, held, reads⟩⟩
  | getDynamic dst object key =>
      simp only [Instruction.findings, each_cons, each_nil, and_true]
      have loads : u.Feeds (.var m v)
          ((Instruction.getDynamic dst object key).Gives u.Holds m u.heap u.reflection f.id pc ·)
          (.attached (.var m object) (.dynamicLoad (.var m object) (.var m key) (.var m dst))) :=
        fun _ o k s x held named slot reads => ⟨o, k, s, held, named, slot, reads⟩
      exact ⟨trivial, trivial, trivial, loads, loads⟩
  | globalRead dst name =>
      simp only [Instruction.findings, each_cons, each_linked]
      exact ⟨trivial, trivial, trivial, fun _ => .inr fun o held => held⟩
  | lexicalRead dst name definer =>
      simp only [Instruction.findings, each_cons, each_linked]
      exact ⟨trivial, trivial, trivial, fun _ => .inr fun o held => held⟩
  | invoke call => cases plain
  | _ => cases defines

theorem held_of_gives (node : u.Follows (.node m)) (body : u.bodyOf? m = some f)
    (stands : f.instructions[pc]? = some i) (defines : i.defines? = some v)
    (given : i.Gives u.Holds m u.heap u.reflection f.id pc x) : u.Held m v x := by
  have asked := follows_instruction node body stands
  cases i with
  | newObject dst =>
      cases defines
      subst given
      exact asked _ (by simp [Instruction.findings, Finding.stored])
  | newArray dst =>
      cases defines
      subst given
      exact asked _ (by simp [Instruction.findings, Finding.stored])
  | closure dst g =>
      cases defines
      subst given
      exact asked _ (by simp [Instruction.findings, Finding.stored])
  | constant dst value =>
      cases defines
      have known : u.heap.constant? value = some x := given
      exact asked _ (by simp [Instruction.findings, Finding.stored, known])
  | copy dst src =>
      cases defines
      exact follows_flow (asked _ (by simp [Instruction.findings, Finding.linked])) given
  | phi dst sources =>
      cases defines
      obtain ⟨src, member, held⟩ := given
      refine follows_flow (asked (.flows (.var m src) (.var m v)) ?_) held
      simpa [Instruction.findings, Finding.linked] using member
  | getProperty dst object name =>
      cases defines
      obtain ⟨o, held, reads⟩ := given
      refine follows_of_load (b := .var m object) (asked _ ?_) held reads
      simp [Instruction.findings]
  | getDynamic dst object key =>
      cases defines
      obtain ⟨o, k, s, held, named, slot, reads⟩ := given
      have attached := asked (.attached (.var m object)
        (.dynamicLoad (.var m object) (.var m key) (.var m v))) (by simp [Instruction.findings])
      refine follows_of_reads (fun j member => ?_) reads
      exact (Derivable.closed u.Rule).of_three
        (.flow (.dynamicLoad slot member)) attached held named
  | globalRead dst name =>
      cases defines
      exact follows_flow (asked _ (by simp [Instruction.findings, Finding.linked])) given
  | lexicalRead dst name definer =>
      cases defines
      exact follows_flow (asked _ (by simp [Instruction.findings, Finding.linked])) given
  | _ => exact given.elim

/-- A variable that an instruction other than a call defines holds just what this gives. -/
theorem held_iff_gives (wf : u.program.WellFormed) (node : u.Follows (.node m))
    (body : u.bodyOf? m = some f) (stands : f.instructions[pc]? = some i)
    (defines : i.defines? = some v) (plain : i.call? = none) :
    u.Held m v x ↔ i.Gives u.Holds m u.heap u.reflection f.id pc x :=
  ⟨bounded_instruction wf body stands defines plain (feeds_instruction defines plain),
    held_of_gives node body stands defines⟩

def Written (u : Setup) (write : VarId → Instruction) (x : AbstractObject) : Prop :=
  ∃ n f value, u.Follows (.node n) ∧ u.bodyOf? n = some f ∧ write value ∈ f.instructions ∧
    u.Held n value x

/-- A place that only one kind of instruction brings something to holds just what is written by
these. -/
theorem follows_written_iff {p : Place Role} {name : String} {write : VarId → Instruction}
    (unowned : ∀ o s, p ≠ .field o s) (shared : ∀ n v, p ≠ .var n v)
    (writes : ∀ h n f pc v, (write v).findings h n f pc = .name name :: Finding.linked (.var n v) p)
    (only : ∀ n i, Instruction.Targets n i p → ∃ v, i = write v) :
    u.Follows (.holds p x) ↔ u.Written write x := by
  constructor
  · refine Follows.bounded _ unowned ?_ ?_
    · intro n node j member
      by_cases target : j.target? = some p
      · obtain ⟨g, body, pc, i, stands, member⟩ := mem_visitFindings.mp member
        obtain ⟨v, rfl⟩ := only n i (i.brings_findings u.heap n g.id pc j member p target)
        rw [writes, Finding.linked] at member
        simp only [List.mem_cons, List.not_mem_nil, or_false] at member
        rcases member with rfl | rfl | rfl | rfl
        · trivial
        · trivial
        · trivial
        · exact fun _ => .inr fun o held =>
            ⟨n, g, v, node, body, List.mem_of_getElem? stands, held⟩
      · exact feeds_of_target target
    · intro e _ j member
      refine feeds_of_brings (brings_bind e) ?_ member
      rintro ⟨call, callee, -, -, targets⟩
      cases targets with
      | receiver => exact shared _ _ rfl
      | param => exact shared _ _ rfl
      | dst => exact shared _ _ rfl
      | proto => exact unowned _ _ rfl
  · rintro ⟨n, f, v, node, body, member, held⟩
    obtain ⟨pc, stands⟩ := List.mem_iff_getElem?.mp member
    refine follows_flow (follows_instruction node body stands (.flows (.var n v) p) ?_) held
    simp [writes, Finding.linked]

theorem follows_global_iff {name : String} :
    u.Follows (.holds (.global name) x) ↔ u.Written (.globalWrite name) x := by
  refine follows_written_iff (by simp) (by simp) (fun _ _ _ _ _ => rfl) ?_
  intro n i targets
  cases targets with
  | global => exact ⟨_, rfl⟩

theorem follows_lexical_iff {definer : FunctionId} {name : String} :
    u.Follows (.holds (.lexical definer name) x) ↔ u.Written (.lexicalWrite name definer) x := by
  refine follows_written_iff (by simp) (by simp) (fun _ _ _ _ _ => rfl) ?_
  intro n i targets
  cases targets with
  | lexical => exact ⟨_, rfl⟩

/-- What is stored in an object that has fields reaches all slots that the write goes to. -/
theorem fields_of_store {s q : Slot} {src : Place Role} {o : AbstractObject}
    (asked : ∀ j ∈ s.storeFindings u.reflection src o, u.Follows j) (base : o.isPrimitive = false)
    (written : q ∈ s.writeSet u.reflection) (given : u.Follows (.holds src x)) :
    u.Fields o q x := by
  refine follows_flow (asked (.flows src (.field o q)) ?_) given
  simp only [Slot.storeFindings, base, Bool.false_eq_true, ↓reduceIte]
  exact List.mem_flatMap.mpr ⟨q, written, by simp [Slot.writeFindings]⟩

theorem fields_of_puts {o : AbstractObject} {q : Slot} (node : u.Follows (.node m))
    (body : u.bodyOf? m = some f) (stands : f.instructions[pc]? = some i)
    (puts : i.Puts u.Holds m u.reflection o q x) : u.Fields o q x := by
  have asked := follows_instruction node body stands
  cases i with
  | putProperty object name value =>
      obtain ⟨held, base, written, given⟩ := puts
      refine fields_of_store (fun j member => ?_) base written given
      refine (Derivable.closed u.Rule).of_two (.flow (.store member)) (asked _ ?_) held
      simp [Instruction.findings]
  | putDynamic object key value =>
      obtain ⟨k, slot, held, base, named, known, written, given⟩ := puts
      refine fields_of_store (fun j member => ?_) base written given
      refine (Derivable.closed u.Rule).of_three (.flow (.dynamicStore known member)) (asked
        (.attached (.var m object) (.dynamicStore (.var m object) (.var m key) (.var m value))) ?_)
        held named
      simp [Instruction.findings]
  | _ => exact puts.elim

end Setup

end CallFlow
