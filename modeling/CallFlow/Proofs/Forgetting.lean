import CallFlow.Proofs.Interruption

/-! Forgetting contexts. It turns each rule of an analysis that tells calls and objects apart by
contexts into a rule of the one that does not. -/

namespace CallFlow

/-- An object without the context of the code that allocated it. -/
def AbstractObject.forget : AbstractObject → AbstractObject
  | .allocation site _ => .allocation site .everywhere
  | .constant value => .constant value
  | .constantKind kind => .constantKind kind
  | .builtin b => .builtin b

/-- The role of a method in all contexts at once. -/
def Role.forget (n : Role) : Role := (n.1, .everywhere)

/-- A place without contexts. -/
def Place.forget : Place Role → Place Role
  | .var n v => .var n.forget v
  | .result n => .result n.forget
  | .field o s => .field o.forget s
  | .global name => .global name
  | .lexical definer name => .lexical definer name

def Demand.forget : Demand Role → Demand Role
  | .load s dst => .load s dst.forget
  | .store s src => .store s src.forget
  | .dynamicLoad object key dst => .dynamicLoad object.forget key.forget dst.forget
  | .dynamicStore object key src => .dynamicStore object.forget key.forget src.forget
  | .invoke n pc d => .invoke n.forget pc d

/-- A finding said without contexts. -/
def Finding.forget : Finding Role → Finding Role
  | .name n => .name n
  | .object o => .object o.forget
  | .place p => .place p.forget
  | .holds p o => .holds p.forget o.forget
  | .flows p q => .flows p.forget q.forget
  | .attached p d => .attached p.forget d.forget
  | .node n => .node n.forget
  | .site n s => .site n.forget s
  | .edge n s m => .edge n.forget s m.forget
  | .binding n pc m o d => .binding n.forget pc m.forget o.forget d

def Encounter.forget (e : Encounter) : Encounter :=
  ⟨e.caller.forget, e.pc, e.callee.forget, e.function.forget, e.dispatch⟩

def HeapPolicy.contextFree (h : HeapPolicy) : HeapPolicy :=
  { h with allocationKeys := .allocationSites }

/-- The same setup without contexts. -/
def Setup.contextFree (u : Setup) : Setup :=
  { u with algorithm := .zeroCfa, heap := u.heap.contextFree }

/-- The same options without contexts. -/
def Options.contextFree (o : Options) : Options :=
  { o with algorithm := .zeroCfa, allocationKeys := .allocationSites }

namespace AbstractObject

variable (o : AbstractObject)

@[simp]
theorem isPrimitive_forget : o.forget.isPrimitive = o.isPrimitive := by
  cases o <;> rfl

@[simp]
theorem keySlot?_forget (r : Reflection) : o.forget.keySlot? r = o.keySlot? r := by
  cases o <;> rfl

@[simp]
theorem classify_forget (receives : Bool) (d : Dispatch) :
    o.forget.classify receives d = o.classify receives d := by
  cases o with
  | allocation site c =>
      -- a closure is dispatched by its site alone
      obtain ⟨f, pc, kind⟩ := site
      cases kind <;> rfl
  | constant value => rfl
  | constantKind kind => rfl
  | builtin b => rfl

end AbstractObject

namespace HeapPolicy

variable (h : HeapPolicy)

@[simp]
theorem forget_allocation (site : AllocationSite) (c : Context) :
    (h.allocation site c).forget = h.contextFree.allocation site .everywhere := by
  unfold allocation
  cases h.allocationKeys <;> rfl

theorem constant?_contextFree (value : Literal) :
    h.contextFree.constant? value = (h.constant? value).map AbstractObject.forget := by
  unfold constant? contextFree
  dsimp only
  split
  · cases value <;> rfl
  · cases ConstantKind.ofLiteral? value <;> rfl

end HeapPolicy

namespace Finding

theorem forget_mem {js ks : List (Finding Role)} {j : Finding Role}
    (same : js.map forget = ks) (member : j ∈ js) : j.forget ∈ ks := by
  rw [← same]
  exact List.mem_map_of_mem member

theorem map_forget_linked (p q : Place Role) :
    (linked p q).map forget = linked p.forget q.forget := rfl

theorem map_forget_stored (p : Place Role) (o : AbstractObject) :
    (stored p o).map forget = stored p.forget o.forget := rfl

@[simp]
theorem map_forget_run (n : Role) (site : CallSite) (m : Role) :
    (run n site m).map forget = run n.forget site m.forget := rfl

@[simp]
theorem map_forget_mentions (s : Slot) : s.mentions.map forget = s.mentions := by
  cases s <;> rfl

@[simp]
theorem map_forget_named (o : AbstractObject) (name : String) (v : AbstractObject) :
    (named o name v).map forget = named o.forget name v.forget := by
  simp [named, map_forget_stored, Place.forget]

theorem map_forget_inherits (b : Builtin) (o : AbstractObject) :
    (inherits b o).map forget = inherits b o.forget := rfl

theorem map_forget_load (r : Reflection) (s : Slot) (dst : Place Role) (o : AbstractObject) :
    (s.loadFindings r dst o).map forget = s.loadFindings r dst.forget o.forget := by
  unfold Slot.loadFindings
  rw [AbstractObject.isPrimitive_forget]
  split
  · rfl
  · rw [List.map_append, List.map_flatMap]
    congr 1
    cases s <;> rfl

theorem map_forget_store (r : Reflection) (s : Slot) (src : Place Role) (o : AbstractObject) :
    (s.storeFindings r src o).map forget = s.storeFindings r src.forget o.forget := by
  unfold Slot.storeFindings
  rw [AbstractObject.isPrimitive_forget]
  split
  · rfl
  · rw [List.map_flatMap]
    rfl

theorem map_forget_key (r : Reflection) (k : AbstractObject) :
    (k.keyFindings r).map forget = k.forget.keyFindings r := by
  unfold AbstractObject.keyFindings
  rw [AbstractObject.keySlot?_forget]
  cases k.keySlot? r with
  | none => rfl
  | some s => exact map_forget_mentions s

end Finding

/-- What an instruction asks for without contexts is what it asks for where there are none. -/
theorem Instruction.map_forget_findings (h : HeapPolicy) (n : Role) (f : FunctionId) (pc : Nat)
    (i : Instruction) :
    (i.findings h n f pc).map Finding.forget = i.findings h.contextFree n.forget f pc := by
  cases i with
  | closure dst g =>
      simp [findings, Finding.map_forget_stored, Finding.map_forget_inherits, Finding.forget,
        Place.forget, Role.forget]
  | constant dst value =>
      dsimp only [findings]
      rw [h.constant?_contextFree]
      cases h.constant? value <;> rfl
  | phi dst sources =>
      dsimp only [findings]
      rw [List.map_flatMap]
      rfl
  | ret value => cases value <;> rfl
  | _ =>
      simp [findings, Finding.map_forget_linked, Finding.map_forget_stored,
        Finding.map_forget_inherits, Finding.forget, Place.forget, Demand.forget, Role.forget]

namespace Encounter

variable (h : HeapPolicy) (e : Encounter) (f : FunctionId) (call : Invocation)

theorem map_forget_receiver (receiver : Place Role) :
    (e.receiverFindings h f call receiver).map Finding.forget =
      e.forget.receiverFindings h.contextFree f call receiver.forget := by
  obtain ⟨n, pc, m, o, d⟩ := e
  unfold receiverFindings
  cases d with
  | direct =>
      cases call.kind with
      | call => cases call.receiver <;> rfl
      | construct =>
          cases call.dst <;>
            simp [forget, constructFindings, Finding.map_forget_linked, Finding.map_forget_stored,
              Finding.forget, Place.forget, Role.forget]
  | call => cases call.args.head? <;> rfl
  | apply => cases call.args.head? <;> rfl

theorem map_forget_arguments (params : List VarId) :
    (e.argumentsFindings call params).map Finding.forget =
      e.forget.argumentsFindings call params := by
  obtain ⟨n, pc, m, o, d⟩ := e
  unfold argumentsFindings
  cases d with
  | direct => exact List.map_flatMap
  | call => exact List.map_flatMap
  | apply =>
      cases call.args[1]? with
      | none => rfl
      | some array =>
          exact congrArg (List.cons _) List.map_flatMap

theorem map_forget_findings (callee : FunctionBody) :
    (e.findings h f call callee).map Finding.forget =
      e.forget.findings h.contextFree f call callee := by
  have result : (e.resultFindings call).map Finding.forget = e.forget.resultFindings call := by
    unfold resultFindings
    cases call.dst <;> rfl
  dsimp only [findings]
  rw [List.map_append, List.map_append, List.map_cons, map_forget_receiver, map_forget_arguments,
    result]
  rfl

end Encounter

theorem FlowRule.forget {r : Reflection} {ps : List (Finding Role)} {j : Finding Role}
    (rule : FlowRule r ps j) : FlowRule r (ps.map Finding.forget) j.forget := by
  cases rule with
  | self => exact .self
  | pass => exact .pass
  | load member => exact .load (Finding.forget_mem (Finding.map_forget_load r _ _ _) member)
  | store member => exact .store (Finding.forget_mem (Finding.map_forget_store r _ _ _) member)
  | loadKey member => exact .loadKey (Finding.forget_mem (Finding.map_forget_key r _) member)
  | storeKey member => exact .storeKey (Finding.forget_mem (Finding.map_forget_key r _) member)
  | dynamicLoad slot member =>
      refine .dynamicLoad ?_ (Finding.forget_mem (Finding.map_forget_load r _ _ _) member)
      rw [AbstractObject.keySlot?_forget]
      exact slot
  | dynamicStore slot member =>
      refine .dynamicStore ?_ (Finding.forget_mem (Finding.map_forget_store r _ _ _) member)
      rw [AbstractObject.keySlot?_forget]
      exact slot

namespace Setup

variable (u : Setup)

theorem map_forget_visit (n : Role) :
    (u.visitFindings n).map Finding.forget = u.contextFree.visitFindings n.forget := by
  have body : u.contextFree.bodyOf? n.forget = u.bodyOf? n := rfl
  unfold visitFindings
  rw [body]
  cases u.bodyOf? n with
  | none => rfl
  | some f =>
      simp only [Option.elim_some, List.map_flatMap, Instruction.map_forget_findings]
      rfl

theorem map_forget_dispatch (n : Role) (pc : Nat) (d : Dispatch) (o : AbstractObject) :
    (u.dispatchFindings n pc d o).map Finding.forget =
      u.contextFree.dispatchFindings n.forget pc d o.forget := by
  have called : u.contextFree.callOf? n.forget pc = u.callOf? n pc := rfl
  have receives : u.contextFree.callsReceiver = u.callsReceiver := rfl
  unfold dispatchFindings
  rw [called, receives]
  cases u.callOf? n pc with
  | none => rfl
  | some call =>
      dsimp only
      rw [AbstractObject.classify_forget]
      cases o.classify u.callsReceiver d with
      | none => rfl
      | some k =>
          cases k with
          | function g => rfl
          | builtin b => rfl
          | reflective d' => cases call.receiver <;> rfl

theorem map_forget_bind (e : Encounter) :
    (u.bindFindings e).map Finding.forget = u.contextFree.bindFindings e.forget := by
  have caller : u.contextFree.bodyOf? e.forget.caller = u.bodyOf? e.caller := rfl
  have called : u.contextFree.callOf? e.forget.caller e.forget.pc = u.callOf? e.caller e.pc := rfl
  have callee : u.contextFree.bodyOf? e.forget.callee = u.bodyOf? e.callee := rfl
  unfold bindFindings
  rw [caller, called, callee]
  cases u.bodyOf? e.caller with
  | none => rfl
  | some f =>
      cases u.callOf? e.caller e.pc with
      | none => rfl
      | some call =>
          cases u.bodyOf? e.callee with
          | none => rfl
          | some callee => exact e.map_forget_findings u.heap f.id call callee

variable {u}

/-- Forgetting contexts turns rules into rules. -/
theorem Rule.forget {ps : List (Finding Role)} {j : Finding Role} (rule : u.Rule ps j) :
    u.contextFree.Rule (ps.map Finding.forget) j.forget := by
  cases rule with
  | root => exact .root
  | builtins member => exact .builtins (Finding.forget_mem (by decide) member)
  | entry here member =>
      exact .entry here (Finding.forget_mem (Finding.map_forget_run _ _ _) member)
  | flow rule => exact .flow rule.forget
  | visit member => exact .visit (Finding.forget_mem (u.map_forget_visit _) member)
  | dispatch member => exact .dispatch (Finding.forget_mem (u.map_forget_dispatch _ _ _ _) member)
  | bind member => exact .bind (Finding.forget_mem (u.map_forget_bind _) member)

/-- What follows with contexts follows without them. -/
theorem Follows.forget {j : Finding Role} (follows : u.Follows j) :
    u.contextFree.Follows j.forget := by
  -- what follows there once it is forgotten is closed under the rules here
  refine follows.least (D := fun j => u.contextFree.Follows j.forget) ?_
  intro ps j rule premises
  refine .apply rule.forget ?_
  intro q member
  obtain ⟨p, here, rfl⟩ := List.mem_map.mp member
  exact premises p here

end Setup

/-- But for the unknown, each node, edge and fact of the first answer is in the second one when
contexts are forgotten. -/
structure Analysis.ForgottenIn (a b : Analysis) : Prop where
  nodes : ∀ i n, a.graph.node? i = some n → n.method ≠ .unknown →
    ∃ k, b.graph.node? k = some ⟨k, n.method, .everywhere⟩
  edges : ∀ n site m, a.graph.Links n site m → m.1 ≠ .unknown →
    b.graph.Links (Role.forget n) site (Role.forget m)
  facts : ∀ l x, x ∈ a.solution.objectsAt l →
    ∃ q, a.tables.placeOf? l = some q ∧ b.Holds q.forget x.forget

theorem Analysis.Exact.forgottenIn {u : Setup} {a b : Analysis} (first : a.Exact u)
    (second : b.Exact u.contextFree)
    (named : ∀ l x, x ∈ a.solution.objectsAt l → ∃ q, a.tables.placeOf? l = some q) :
    a.ForgottenIn b where
  nodes i n here known := by
    have follows := first.follows_node (CallGraph.node?_eq_some_iff.mp here).1 known
    exact second.exists_id follows.forget
  edges n site m linked known :=
    (second.links _ site _).mpr (.inl (first.follows_edge linked known).forget)
  facts l x member := by
    obtain ⟨q, place, follows⟩ := first.exists_place (named l x member) member
    exact ⟨q, place, (second.holds _ _).mpr follows.forget⟩

variable {p : Program} {o : Options}

theorem Options.validate_contextFree (o : Options) : o.contextFree.validate = o.validate := rfl

/-- An analysis that tells calls and objects apart by contexts finds nothing that the one without
contexts does not find, once the contexts are forgotten. -/
theorem contextFree_bounds (program : p.validate = .ok ()) (options : o.validate = .ok ())
    (unlimited : o.maxNodes = none) :
    ∃ a b, analyze p o (fun _ => none) = .ok a ∧ a.completion = .complete ∧
      analyze p o.contextFree (fun _ => none) = .ok b ∧ b.completion = .complete ∧
      a.ForgottenIn b := by
  obtain ⟨a, run, complete⟩ := exists_complete program options unlimited
  obtain ⟨b, plain, ended⟩ :=
    exists_complete program (o.validate_contextFree.trans options) unlimited
  refine ⟨a, b, run, complete, plain, ended, ?_⟩
  refine (exact_of_analyze run complete).forgottenIn (exact_of_analyze plain ended) ?_
  intro l x member
  exact named_of_analyze run member

/-- The function of the small program has three nodes for its contexts, which become one. -/
theorem contextFree_bounds_tour : Program.tour.validate = .ok () ∧
    Options.thorough.validate = .ok () ∧ Options.thorough.maxNodes = none ∧
    ∃ a b, analyze .tour .thorough (fun _ => none) = .ok a ∧ a.completion = .complete ∧
      analyze .tour Options.thorough.contextFree (fun _ => none) = .ok b ∧
      b.completion = .complete ∧ (a.graph.nodesOf 1).length = 3 ∧
      (b.graph.nodesOf 1).length = 1 ∧ a.ForgottenIn b := by
  have program : Program.tour.validate = .ok () := by rfl
  have options : Options.thorough.validate = .ok () := by rfl
  obtain ⟨a, b, run, complete, plain, ended, within⟩ := contextFree_bounds program options rfl
  have three : (a.graph.nodesOf 1).length = 3 := by
    obtain ⟨-, -, rfl⟩ := analyze_eq_ok_iff.mp run
    decide +kernel
  have one : (b.graph.nodesOf 1).length = 1 := by
    obtain ⟨-, -, rfl⟩ := analyze_eq_ok_iff.mp plain
    decide +kernel
  exact ⟨program, options, rfl, a, b, run, complete, plain, ended, three, one, within⟩

end CallFlow
