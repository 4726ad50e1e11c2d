import CallFlow.Proofs.Construction.Inversion
import CallFlow.Proofs.Program

/-! What can reach a place. A bound on what visits and bindings bring to a place is a bound on what
it holds, since whatever else follows passes on what these have begun. -/

namespace CallFlow

section Reads

variable (field : AbstractObject → Slot → AbstractObject → Prop)

/-- An object is reached from another one through fields for the prototype. -/
inductive ProtoChain (o : AbstractObject) : AbstractObject → Prop
  | refl : ProtoChain o o
  | step {o' o''} : ProtoChain o o' → field o' .proto o'' → ProtoChain o o''

/-- What a read of a property of an object sees: in the object, or in what it inherits from. -/
def Slot.Reads (r : Reflection) (s : Slot) (o x : AbstractObject) : Prop :=
  ∃ o' q, (o' = o ∨ s.isInherited = true ∧ ProtoChain field o o') ∧ o'.isPrimitive = false ∧
    q ∈ s.readSet r ∧ field o' q x

variable {field}

theorem ProtoChain.cons {o o' o'' : AbstractObject} (first : field o .proto o')
    (rest : ProtoChain field o' o'') : ProtoChain field o o'' := by
  induction rest with
  | refl => exact .step .refl first
  | step _ last ih => exact .step ih last

theorem Slot.Reads.own {r : Reflection} {s q : Slot} {o x : AbstractObject}
    (base : o.isPrimitive = false) (seen : q ∈ s.readSet r) (held : field o q x) :
    s.Reads field r o x :=
  ⟨o, q, .inl rfl, base, seen, held⟩

theorem Slot.Reads.inherited {r : Reflection} {s : Slot} {o o' x : AbstractObject}
    (inherits : s.isInherited = true) (proto : field o .proto o') (rest : s.Reads field r o' x) :
    s.Reads field r o x := by
  obtain ⟨o'', q, reached, base, seen, held⟩ := rest
  refine ⟨o'', q, .inr ⟨inherits, ?_⟩, base, seen, held⟩
  rcases reached with rfl | ⟨-, chain⟩
  · exact .step .refl proto
  · exact .cons proto chain

end Reads

@[simp]
theorem isPrimitive_allocation (h : HeapPolicy) (site : AllocationSite) (c : Context) :
    (h.allocation site c).isPrimitive = false := by
  unfold HeapPolicy.allocation
  split <;> rfl

/-- The place that a finding brings something to. -/
def Finding.target? : Finding Role → Option (Place Role)
  | .holds p _ | .flows _ p | .attached _ (.load _ p) | .attached _ (.dynamicLoad _ _ p) => some p
  | _ => none

/-- Findings bring something to some places only. -/
def Brings (P : Place Role → Prop) (js : List (Finding Role)) : Prop :=
  Each (fun j => ∀ p, j.target? = some p → P p) js

theorem Brings.mono {P Q : Place Role → Prop} {js : List (Finding Role)} (brings : Brings P js)
    (wider : ∀ p, P p → Q p) : Brings Q js :=
  Each.mono brings fun _ all p target => wider p (all p target)

inductive Instruction.Targets (n : Role) : Instruction → Place Role → Prop
  | var {i v} : i.defines? = some v → Targets n i (.var n v)
  | result {v} : Targets n (.ret (some v)) (.result n)
  | global {name v} : Targets n (.globalWrite name v) (.global name)
  | lexical {name definer v} : Targets n (.lexicalWrite name definer v) (.lexical definer name)
  | field {i o s} : o.isPrimitive = false → Targets n i (.field o s)

/-- An instruction brings something to the variable that it defines, to what it writes, and to
fields of what it allocates. -/
theorem Instruction.brings_findings (h : HeapPolicy) (n : Role) (f : FunctionId) (pc : Nat)
    (i : Instruction) : Brings (i.Targets n) (i.findings h n f pc) := by
  have owned := fun k => isPrimitive_allocation h ⟨f, pc, k⟩ n.2
  unfold Brings
  cases i with
  | ret value =>
      cases value with
      | none => simp [Instruction.findings]
      | some v => simpa [Instruction.findings, Finding.target?] using .result
  | closure dst g =>
      simpa [Instruction.findings, Finding.named, Finding.inherits, Finding.target?] using
        ⟨.var rfl, .field (owned _), .field (owned _), .field (owned _), .field (owned _)⟩
  | newObject dst =>
      simpa [Instruction.findings, Finding.inherits, Finding.target?] using
        ⟨.var rfl, .field (owned _)⟩
  | newArray dst =>
      simpa [Instruction.findings, Finding.inherits, Finding.target?] using
        ⟨.var rfl, .field (owned _)⟩
  | phi dst sources => simpa [Instruction.findings, Finding.target?] using fun _ _ => .var rfl
  | constant dst value => simpa [Instruction.findings, Finding.target?] using fun _ _ => .var rfl
  | globalWrite name value => simpa [Instruction.findings, Finding.target?] using .global
  | lexicalWrite name definer value => simpa [Instruction.findings, Finding.target?] using .lexical
  | putProperty object name value => simp [Instruction.findings, Finding.target?]
  | putDynamic object key value => simp [Instruction.findings, Finding.target?]
  | invoke call => simp [Instruction.findings, Finding.target?]
  | _ => simpa [Instruction.findings, Finding.target?] using .var rfl

/-- What connecting a call with a node that it runs brings something to. -/
inductive Encounter.Targets (e : Encounter) (call : Invocation) (callee : FunctionBody) :
    Place Role → Prop
  | receiver : Targets e call callee (.var e.callee callee.thisVar)
  | param {v} : v ∈ callee.params → Targets e call callee (.var e.callee v)
  | dst {v} : call.dst = some v → Targets e call callee (.var e.caller v)
  | proto {o} : o.isPrimitive = false → Targets e call callee (.field o .proto)

namespace Encounter

variable (e : Encounter) (call : Invocation) (callee : FunctionBody)

theorem brings_receiver (h : HeapPolicy) (f : FunctionId) (receiver : Place Role) :
    Brings (fun p => p = receiver ∨ (∃ v, call.dst = some v ∧ p = .var e.caller v) ∨
      ∃ o, o.isPrimitive = false ∧ p = .field o .proto) (e.receiverFindings h f call receiver) := by
  unfold Brings receiverFindings
  split <;> simp +contextual [constructFindings, pass, Finding.target?]

theorem brings_arguments (params : List VarId) :
    Brings (fun p => ∃ v ∈ params, p = .var e.callee v) (e.argumentsFindings call params) := by
  unfold Brings argumentsFindings
  split
  · simpa [argumentFindings, Finding.target?] using fun _ _ member => (List.of_mem_zip member).2
  · simpa [argumentFindings, Finding.target?] using fun _ _ member => (List.of_mem_zip member).2
  · simp +contextual [elementsFindings, Finding.target?]

theorem brings_result :
    Brings (fun p => ∃ v, call.dst = some v ∧ p = .var e.caller v) (e.resultFindings call) := by
  unfold Brings resultFindings
  simp +contextual [Finding.target?]

end Encounter

theorem Encounter.brings_findings (h : HeapPolicy) (e : Encounter) (f : FunctionId)
    (call : Invocation) (callee : FunctionBody) :
    Brings (e.Targets call callee) (e.findings h f call callee) := by
  unfold findings Brings
  simp only [List.cons_append, each_cons, each_append]
  refine ⟨?_, ⟨(e.brings_receiver call h f _).mono ?_, (e.brings_arguments call _).mono ?_⟩,
    (e.brings_result call).mono ?_⟩
  · intro p target
    cases target
  · rintro p (rfl | ⟨v, dst, rfl⟩ | ⟨o, base, rfl⟩)
    · exact .receiver
    · exact .dst dst
    · exact .proto base
  · rintro p ⟨v, member, rfl⟩
    exact .param member
  · rintro p ⟨v, dst, rfl⟩
    exact .dst dst

section Rules

variable {u : Setup} {P : Place Role → Prop}

theorem brings_key (r : Reflection) (k : AbstractObject) : Brings P (k.keyFindings r) :=
  each_key r k fun _ => nofun

theorem brings_load (r : Reflection) (s : Slot) (dst : Place Role) (o : AbstractObject) :
    Brings (· = dst) (s.loadFindings r dst o) :=
  (each_load r s dst o).mpr fun _ => by simp [Finding.target?]

theorem brings_store (r : Reflection) (s : Slot) (src : Place Role) (o : AbstractObject) :
    Brings (fun p => o.isPrimitive = false ∧ ∃ q, p = .field o q) (s.storeFindings r src o) :=
  (each_store r s src o).mpr fun base => by simp [Finding.target?, base]

theorem brings_entry (e : FunctionId × Nat) : Brings P (Finding.entry e) := by
  simp [Brings, Finding.entry, Finding.target?]

theorem brings_builtins :
    Brings (fun p => ∃ b s, p = .field (.builtin b) s) Finding.builtins := by
  simp [Brings, Finding.builtins, Finding.method, Finding.named, Finding.target?]

theorem brings_dispatch (u : Setup) (n : Role) (pc : Nat) (d : Dispatch) (o : AbstractObject) :
    Brings P (u.dispatchFindings n pc d o) := by
  refine each_dispatch ?_ ?_ ?_ ?_ ?_ ?_ <;> simp [Finding.target?]

theorem brings_visit (n : Role) :
    Brings (fun p => ∃ f, u.bodyOf? n = some f ∧ ∃ (pc : Nat) (i : Instruction),
      f.instructions[pc]? = some i ∧ i.Targets n p) (u.visitFindings n) := by
  intro j member p target
  obtain ⟨f, body, pc, i, stands, member⟩ := Setup.mem_visitFindings.mp member
  exact ⟨f, body, pc, i, stands, i.brings_findings u.heap n f.id pc j member p target⟩

theorem brings_bind (e : Encounter) :
    Brings (fun p => ∃ call callee, u.callOf? e.caller e.pc = some call ∧
      u.bodyOf? e.callee = some callee ∧ e.Targets call callee p) (u.bindFindings e) := by
  intro j member p target
  obtain ⟨f, call, callee, -, found, body, member⟩ := Setup.mem_bindFindings.mp member
  exact ⟨call, callee, found, body, e.brings_findings u.heap f.id call callee j member p target⟩

end Rules

namespace Setup

variable (u : Setup)

/-- What a field of an object may hold. -/
def Fields (o : AbstractObject) (s : Slot) (x : AbstractObject) : Prop :=
  u.Follows (.holds (.field o s) x)

/-- A finding brings to a place only what is allowed there. -/
def Feeds (p : Place Role) (allowed : AbstractObject → Prop) : Finding Role → Prop
  | .holds q o => q = p → allowed o
  | .flows q q' => q' = p → q = p ∨ ∀ o, u.Follows (.holds q o) → allowed o
  | .attached q (.load s dst) => dst = p → ∀ o x, u.Follows (.holds q o) →
      s.Reads u.Fields u.reflection o x → allowed x
  | .attached _ (.dynamicLoad object key dst) => dst = p → ∀ o k s x,
      u.Follows (.holds object o) → u.Follows (.holds key k) →
      k.keySlot? u.reflection = some s → s.Reads u.Fields u.reflection o x → allowed x
  | _ => True

variable {u} {p : Place Role} {allowed : AbstractObject → Prop} {j : Finding Role}

theorem feeds_of_target (apart : j.target? ≠ some p) : u.Feeds p allowed j := by
  cases j with
  | holds q o => exact fun same => absurd (congrArg some same) apart
  | flows q q' => exact fun same => absurd (congrArg some same) apart
  | attached q d =>
      cases d with
      | load s dst => exact fun same => absurd (congrArg some same) apart
      | dynamicLoad object key dst => exact fun same => absurd (congrArg some same) apart
      | _ => trivial
  | _ => trivial

theorem feeds_of_brings {P : Place Role → Prop} {js : List (Finding Role)} (brings : Brings P js)
    (apart : ¬ P p) (member : j ∈ js) : u.Feeds p allowed j :=
  feeds_of_target fun same => apart (brings j member p same)

/-- What a load from an object asks for brings what a read of the object sees. -/
theorem feeds_of_load {s : Slot} {dst : Place Role} {o : AbstractObject}
    (member : j ∈ s.loadFindings u.reflection dst o)
    (seen : dst = p → ∀ x, s.Reads u.Fields u.reflection o x → allowed x) :
    u.Feeds p allowed j := by
  unfold Slot.loadFindings at member
  split at member
  · cases member
  · rename_i primitive
    have base : o.isPrimitive = false := Bool.eq_false_iff.mpr primitive
    rcases List.mem_append.mp member with read | inherited
    · obtain ⟨q, readable, member⟩ := List.mem_flatMap.mp read
      simp only [Slot.readFindings, List.mem_cons, List.not_mem_nil, or_false] at member
      rcases member with rfl | rfl
      · trivial
      · exact fun same => .inr fun x held => seen same x (.own base readable held)
    · split at inherited
      · rename_i inherits
        simp only [List.mem_cons, List.not_mem_nil, or_false] at inherited
        rcases inherited with rfl | rfl
        · trivial
        · exact fun same o' x proto reads => seen same x (.inherited inherits proto reads)
      · cases inherited

/-- The rules of flow carry on what was begun. -/
theorem feeds_of_flow (unowned : ∀ o s, p ≠ .field o s) {ps : List (Finding Role)}
    (rule : FlowRule u.reflection ps j) (premises : ∀ q ∈ ps, u.Follows q ∧ u.Feeds p allowed q) :
    u.Feeds p allowed j := by
  cases rule with
  | self => exact fun same => .inl same
  | pass =>
      obtain ⟨-, linked⟩ := premises _ List.mem_cons_self
      obtain ⟨held, feeds⟩ := premises _ (List.mem_cons_of_mem _ List.mem_cons_self)
      intro same
      rcases linked same with source | brings
      · exact feeds source
      · exact brings _ held
  | load member =>
      obtain ⟨-, attached⟩ := premises _ List.mem_cons_self
      obtain ⟨held, -⟩ := premises _ (List.mem_cons_of_mem _ List.mem_cons_self)
      exact feeds_of_load member fun same x reads => attached same _ x held reads
  | store member =>
      exact feeds_of_brings (brings_store _ _ _ _) (fun ⟨_, q, same⟩ => unowned _ q same) member
  | loadKey member => exact feeds_of_brings (P := fun _ => False) (brings_key _ _) id member
  | storeKey member => exact feeds_of_brings (P := fun _ => False) (brings_key _ _) id member
  | dynamicLoad slot member =>
      obtain ⟨-, attached⟩ := premises _ List.mem_cons_self
      obtain ⟨held, -⟩ := premises _ (List.mem_cons_of_mem _ List.mem_cons_self)
      obtain ⟨key, -⟩ :=
        premises _ (List.mem_cons_of_mem _ (List.mem_cons_of_mem _ List.mem_cons_self))
      exact feeds_of_load member fun same x reads => attached same _ _ _ x held key slot reads
  | dynamicStore slot member =>
      exact feeds_of_brings (brings_store _ _ _ _) (fun ⟨_, q, same⟩ => unowned _ q same) member

theorem Follows.feeds (unowned : ∀ o s, p ≠ .field o s)
    (visit : ∀ n, u.Follows (.node n) → ∀ j ∈ u.visitFindings n, u.Feeds p allowed j)
    (bind : ∀ e : Encounter, u.Follows (.binding e.caller e.pc e.callee e.function e.dispatch) →
      ∀ j ∈ u.bindFindings e, u.Feeds p allowed j) (follows : u.Follows j) :
    u.Feeds p allowed j := by
  have closed : Closed u.Rule fun j => u.Follows j ∧ u.Feeds p allowed j := by
    intro ps j rule premises
    refine ⟨.apply rule fun q member => (premises q member).1, ?_⟩
    cases rule with
    | root => trivial
    | builtins member =>
        exact feeds_of_brings brings_builtins (fun ⟨b, s, same⟩ => unowned _ s same) member
    | entry here member => exact feeds_of_brings (P := fun _ => False) (brings_entry _) id member
    | flow rule => exact feeds_of_flow unowned rule premises
    | visit member => exact visit _ (premises _ List.mem_cons_self).1 _ member
    | dispatch member =>
        exact feeds_of_brings (P := fun _ => False) (brings_dispatch _ _ _ _ _) id member
    | bind member => exact bind _ (premises _ List.mem_cons_self).1 _ member
  exact (Derivable.least follows closed).2

variable (allowed) in
/-- A bound on what visits and bindings bring to a place is one on what the place holds. -/
theorem Follows.bounded (unowned : ∀ o s, p ≠ .field o s)
    (visit : ∀ n, u.Follows (.node n) → ∀ j ∈ u.visitFindings n, u.Feeds p allowed j)
    (bind : ∀ e : Encounter, u.Follows (.binding e.caller e.pc e.callee e.function e.dispatch) →
      ∀ j ∈ u.bindFindings e, u.Feeds p allowed j) {o : AbstractObject}
    (held : u.Follows (.holds p o)) : allowed o :=
  held.feeds unowned visit bind rfl

theorem Follows.owned (follows : u.Follows j) {o : AbstractObject} {s : Slot}
    (target : j.target? = some (.field o s)) :
    o.isPrimitive = false ∨ j = .flows (.field o s) (.field o s) := by
  -- every place has an edge to itself once it is known, and that edge says nothing of an owner
  have closed : Closed u.Rule fun j => ∀ o s, j.target? = some (.field o s) →
      o.isPrimitive = false ∨ j = .flows (.field o s) (.field o s) := by
    intro ps j rule premises o s target
    have brings : ∀ {P : Place Role → Prop} {js : List (Finding Role)}, Brings P js → j ∈ js →
        P (.field o s) := fun brings member => brings j member _ target
    cases rule with
    | root => cases target
    | builtins member =>
        obtain ⟨b, s, same⟩ := brings brings_builtins member
        cases same
        exact .inl rfl
    | entry here member => exact (brings (P := fun _ => False) (brings_entry _) member).elim
    | visit member =>
        obtain ⟨f, -, pc, i, -, targets⟩ := brings (brings_visit _) member
        cases targets with
        | field base => exact .inl base
    | dispatch member =>
        exact (brings (P := fun _ => False) (brings_dispatch _ _ _ _ _) member).elim
    | bind member =>
        obtain ⟨call, callee, -, -, targets⟩ := brings (brings_bind _) member
        cases targets with
        | proto base => exact .inl base
    | flow rule =>
        cases rule with
        | self =>
            cases target
            exact .inr rfl
        | pass =>
            cases target
            rcases premises _ List.mem_cons_self o s rfl with base | same
            · exact .inl base
            · cases same
              have held := premises _ (List.mem_cons_of_mem _ List.mem_cons_self) o s rfl
              exact .inl (held.resolve_right fun same => nomatch same)
        | load member =>
            obtain rfl := brings (brings_load _ _ _ _) member
            have loaded := premises _ List.mem_cons_self o s rfl
            exact .inl (loaded.resolve_right fun same => nomatch same)
        | store member =>
            obtain ⟨base, q, same⟩ := brings (brings_store _ _ _ _) member
            cases same
            exact .inl base
        | loadKey member => exact (brings (P := fun _ => False) (brings_key _ _) member).elim
        | storeKey member => exact (brings (P := fun _ => False) (brings_key _ _) member).elim
        | dynamicLoad slot member =>
            obtain rfl := brings (brings_load _ _ _ _) member
            have loaded := premises _ List.mem_cons_self o s rfl
            exact .inl (loaded.resolve_right fun same => nomatch same)
        | dynamicStore slot member =>
            obtain ⟨base, q, same⟩ := brings (brings_store _ _ _ _) member
            cases same
            exact .inl base
  exact follows.least closed o s target

theorem Fields.owner {o x : AbstractObject} {s : Slot} (held : u.Fields o s x) :
    o.isPrimitive = false :=
  (Follows.owned held rfl).resolve_right fun same => nomatch same

theorem asked_of_chain {s : Slot} {dst : Place Role} {o o' : AbstractObject}
    (inherits : s.isInherited = true)
    (asked : ∀ j ∈ s.loadFindings u.reflection dst o, u.Follows j)
    (chain : ProtoChain u.Fields o o') : ∀ j ∈ s.loadFindings u.reflection dst o', u.Follows j := by
  induction chain with
  | refl => exact asked
  | @step o' o'' _ proto ih =>
      have base := Fields.owner proto
      have loads := ih (.attached (.field o' .proto) (.load s dst)) (by
        simp [Slot.loadFindings, base, inherits])
      exact fun j member => (Derivable.closed u.Rule).of_two (.flow (.load member)) loads proto

/-- A place that loads from an object holds what a read of the object sees. -/
theorem follows_of_reads {s : Slot} {dst : Place Role} {o x : AbstractObject}
    (asked : ∀ j ∈ s.loadFindings u.reflection dst o, u.Follows j)
    (reads : s.Reads u.Fields u.reflection o x) : u.Follows (.holds dst x) := by
  obtain ⟨o', q, reached, base, seen, held⟩ := reads
  have asked' : ∀ j ∈ s.loadFindings u.reflection dst o', u.Follows j := by
    rcases reached with rfl | ⟨inherits, chain⟩
    · exact asked
    · exact asked_of_chain inherits asked chain
  have linked := asked' (.flows (.field o' q) dst) (by
    simp only [Slot.loadFindings, base, Bool.false_eq_true, ↓reduceIte]
    refine List.mem_append_left _ (List.mem_flatMap.mpr ⟨q, seen, ?_⟩)
    simp [Slot.readFindings])
  exact (Derivable.closed u.Rule).of_two (.flow .pass) linked held

theorem follows_of_load {s : Slot} {b dst : Place Role} {o x : AbstractObject}
    (attached : u.Follows (.attached b (.load s dst))) (held : u.Follows (.holds b o))
    (reads : s.Reads u.Fields u.reflection o x) : u.Follows (.holds dst x) :=
  follows_of_reads
    (fun _ member => (Derivable.closed u.Rule).of_two (.flow (.load member)) attached held) reads

end Setup

end CallFlow
