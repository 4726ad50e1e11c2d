import CallFlow.Proofs.Construction.Rules

/-! Adding an instruction of a node, or connecting a call with a node that it runs, enacts just the
findings that the rules name for it. -/

namespace CallFlow.Solver

variable {nodes : Nat → Option Role} {s t : Solver}

theorem Enacts.congr {js ks : List (Finding Role)} (enacted : Enacts nodes s t js)
    (same : ∀ j, j ∈ ks ↔ j ∈ js) : Enacts nodes s t ks where
  valid := enacted.valid
  grows := enacted.grows
  builds := enacted.builds
  known j member := enacted.known j ((same j).mp member)
  sound D passing before all :=
    enacted.sound D passing before fun j member => all j ((same j).mpr member)

theorem enacts_link (valid : s.Valid nodes) {l m : Location} {p q : Place Role}
    (here : (s.tables nodes).placeOf? l = some p) (there : (s.tables nodes).placeOf? m = some q) :
    Enacts nodes s
      (((s.location l).2.location m).2.addEdge (s.location l).1
        ((s.location l).2.location m).1).2 (Finding.linked p q) := by
  have first := enacts_location valid here
  have second := enacts_location first.valid ((first.grows.tables nodes).placeOf? there)
  have edge := enacts_addEdge second.valid
    ((second.grows.tables nodes).place? (place?_location here))
    (place?_location ((first.grows.tables nodes).placeOf? there))
  exact first.trans (second.trans edge)

theorem enacts_setField (valid : s.Valid nodes) {i v : Nat} {o value : AbstractObject}
    {p : Property} {sl : Slot} (handed : s.objects.value? i = some o)
    (slot : (s.tables nodes).slot? p = some sl) (given : s.objects.value? v = some value) :
    Enacts nodes s (s.setField i p v) (Finding.stored (.field o sl) value) := by
  have field := enacts_field valid handed slot
  have fact := enacts_addFact field.valid (place?_field handed slot)
    (field.grows.objects _ _ given)
  exact field.trans fact

theorem enacts_setProperty (valid : s.Valid nodes) {i v : Nat} {o value : AbstractObject}
    (name : String) (handed : s.objects.value? i = some o)
    (given : s.objects.value? v = some value) :
    Enacts nodes s (s.setProperty i name v) (Finding.named o name value) := by
  have property := enacts_property valid name
  have field := enacts_setField property.valid (property.grows.objects _ _ handed)
    (slot?_property name) (property.grows.objects _ _ given)
  exact property.trans field

theorem enacts_inheritFrom (valid : s.Valid nodes) (b : Builtin) {i : Nat} {o : AbstractObject}
    (handed : s.objects.value? i = some o) :
    Enacts nodes s (s.inheritFrom b i) (Finding.inherits b o) := by
  have base := enacts_object valid (.builtin b)
  have field := enacts_setField base.valid (base.grows.objects _ _ handed) (Tables.slot?_proto _)
    (value?_object s (.builtin b))
  exact base.trans field

theorem enacts_setVar (valid : s.Valid nodes) {node v : Nat} {n : Role} {o : AbstractObject}
    (known : nodes node = some n) (dst : VarId) (given : s.objects.value? v = some o) :
    Enacts nodes s (s.setVar node dst v) (Finding.stored (.var n dst) o) := by
  have slot := enacts_var valid known dst
  have fact := enacts_addFact slot.valid (place?_var known dst) (slot.grows.objects _ _ given)
  exact slot.trans fact

theorem placeOf?_var {node : Nat} {n : Role} (known : nodes node = some n) (v : VarId) :
    (s.tables nodes).placeOf? (.var node v) = some (.var n v) := by
  simp [Tables.placeOf?, tables, known]

theorem placeOf?_result {node : Nat} {n : Role} (known : nodes node = some n) :
    (s.tables nodes).placeOf? (.result node) = some (.result n) := by
  simp [Tables.placeOf?, tables, known]

theorem enacts_copyVar (valid : s.Valid nodes) {node : Nat} {n : Role}
    (known : nodes node = some n) (dst src : VarId) :
    Enacts nodes s (copyVar node dst s src) (Finding.linked (.var n src) (.var n dst)) :=
  enacts_link valid (placeOf?_var known src) (placeOf?_var known dst)

theorem placeOf?_global (s : Solver) (name : String) :
    ((s.name name).2.tables nodes).placeOf? (.global (s.name name).1) = some (.global name) :=
  Option.map_eq_some_iff.mpr ⟨name, value?_name s name, rfl⟩

theorem placeOf?_lexical (s : Solver) (f : FunctionId) (name : String) :
    ((s.name name).2.tables nodes).placeOf? (.lexical f (s.name name).1) =
      some (.lexical f name) :=
  Option.map_eq_some_iff.mpr ⟨name, value?_name s name, rfl⟩

theorem enacts_readShared (valid : s.Valid nodes) {node : Nat} {n : Role}
    (known : nodes node = some n) (dst : VarId) (name : String) {l : Location} {p : Place Role}
    (meant : ((s.name name).2.tables nodes).placeOf? l = some p) :
    Enacts nodes s (readShared node dst ((s.name name).2.location l))
      (.name name :: Finding.linked p (.var n dst)) := by
  have named := enacts_name valid name
  exact named.trans (enacts_link named.valid meant (placeOf?_var known dst))

theorem enacts_writeShared (valid : s.Valid nodes) {node : Nat} {n : Role}
    (known : nodes node = some n) (src : VarId) (name : String) {l : Location} {p : Place Role}
    (meant : ((s.name name).2.tables nodes).placeOf? l = some p) :
    Enacts nodes s (writeShared node src ((s.name name).2.location l))
      (.name name :: Finding.linked (.var n src) p) := by
  have named := enacts_name valid name
  have shared := enacts_location named.valid meant
  have var := enacts_var shared.valid known src
  have edge := enacts_addEdge var.valid (place?_var known src)
    ((var.grows.tables nodes).place? (place?_location meant))
  refine (named.trans (shared.trans (var.trans edge))).congr fun j => ?_
  simp only [Finding.linked, List.cons_append, List.nil_append, List.mem_cons, List.not_mem_nil,
    or_false]
  exact or_congr_right or_left_comm

theorem enacts_addAllocation (valid : s.Valid nodes) (h : HeapPolicy) (spot : Spot)
    (kind : AllocationKind) (dst : VarId) {n : Role} (known : nodes spot.node = some n) :
    Enacts nodes s (s.addAllocation h spot kind dst)
      (.object (h.allocation ⟨spot.function, spot.pc, kind⟩ spot.context) ::
          Finding.stored (.var n dst) (h.allocation ⟨spot.function, spot.pc, kind⟩ spot.context) ++
        Finding.inherits .objectPrototype
          (h.allocation ⟨spot.function, spot.pc, kind⟩ spot.context)) := by
  have object := enacts_object valid (h.allocation ⟨spot.function, spot.pc, kind⟩ spot.context)
  have given := value?_object s (h.allocation ⟨spot.function, spot.pc, kind⟩ spot.context)
  have var := enacts_setVar object.valid known dst given
  have inherits := enacts_inheritFrom var.valid .objectPrototype (var.grows.objects _ _ given)
  exact object.trans (var.trans inherits)

/-- A function object and its prototype object, once they are known, are properties of each
other. -/
theorem enacts_closureFields (valid : s.Valid nodes) {node : Nat} {n : Role}
    (known : nodes node = some n) (dst : VarId) {i j : Nat} {o p : AbstractObject}
    (function : s.objects.value? i = some o) (prototype : s.objects.value? j = some p) :
    Enacts nodes s
      (((((s.setVar node dst i).setProperty i "prototype" j).setProperty j "constructor" i
        ).inheritFrom .functionPrototype i).inheritFrom .objectPrototype j)
      (Finding.stored (.var n dst) o ++ (Finding.named o "prototype" p ++
        (Finding.named p "constructor" o ++ (Finding.inherits .functionPrototype o ++
          Finding.inherits .objectPrototype p)))) := by
  have var := enacts_setVar valid known dst function
  have first := enacts_setProperty var.valid "prototype" (var.grows.objects _ _ function)
    (var.grows.objects _ _ prototype)
  have grown := var.grows.trans first.grows
  have second := enacts_setProperty first.valid "constructor" (grown.objects _ _ prototype)
    (grown.objects _ _ function)
  have grown := grown.trans second.grows
  have functions := enacts_inheritFrom second.valid .functionPrototype (grown.objects _ _ function)
  have grown := grown.trans functions.grows
  have objects := enacts_inheritFrom functions.valid .objectPrototype (grown.objects _ _ prototype)
  exact var.trans (first.trans (second.trans (functions.trans objects)))

theorem enacts_addClosure (valid : s.Valid nodes) (h : HeapPolicy) (spot : Spot) (dst : VarId)
    (g : FunctionId) {n : Role} (known : nodes spot.node = some n) (context : spot.context = n.2) :
    Enacts nodes s (s.addClosure h spot dst g)
      ((Instruction.closure dst g).findings h n spot.function spot.pc) := by
  simp only [Instruction.findings, ← context]
  have closure :=
    enacts_object valid (h.allocation ⟨spot.function, spot.pc, .function g⟩ spot.context)
  have prototype :=
    enacts_object closure.valid (h.allocation ⟨spot.function, spot.pc, .prototype g⟩ spot.context)
  have fields := enacts_closureFields prototype.valid known dst
    (prototype.grows.objects _ _ (value?_object s _)) (value?_object _ _)
  refine (closure.trans (prototype.trans fields)).congr fun j => ?_
  simp only [List.append_assoc, List.cons_append, List.nil_append]

theorem enacts_addConstant (valid : s.Valid nodes) (h : HeapPolicy) {node : Nat} {n : Role}
    (known : nodes node = some n) (dst : VarId) (value : Literal) (f : FunctionId) (pc : Nat) :
    Enacts nodes s (s.addConstant h node dst value)
      ((Instruction.constant dst value).findings h n f pc) := by
  unfold addConstant
  simp only [Instruction.findings]
  cases h.constant? value with
  | none => exact .refl valid
  | some o =>
      have object := enacts_object valid o
      exact object.trans (enacts_setVar object.valid known dst (value?_object s o))

theorem enacts_addLoad (valid : s.Valid nodes) {node : Nat} {n : Role}
    (known : nodes node = some n) (dst object : VarId) (name : String) :
    Enacts nodes s (s.addLoad node dst object name)
      ((Slot.ofName name).mentions ++ [.place (.var n object), .place (.var n dst),
        .attached (.var n object) (.load (.ofName name) (.var n dst))]) := by
  have property := enacts_property valid name
  have base := enacts_var property.valid known object
  have target := enacts_var base.valid known dst
  have attached := enacts_addConstraint target.valid
    ((target.grows.tables nodes).place? (place?_var known object))
    (Tables.demand?_load
      (((base.grows.trans target.grows).tables nodes).slot? (slot?_property name))
      (place?_var known dst))
  exact property.trans (base.trans (target.trans attached))

theorem enacts_addStore (valid : s.Valid nodes) {node : Nat} {n : Role}
    (known : nodes node = some n) (object : VarId) (name : String) (value : VarId) :
    Enacts nodes s (s.addStore node object name value)
      ((Slot.ofName name).mentions ++ [.place (.var n object), .place (.var n value),
        .attached (.var n object) (.store (.ofName name) (.var n value))]) := by
  have property := enacts_property valid name
  have base := enacts_var property.valid known object
  have source := enacts_var base.valid known value
  have attached := enacts_addConstraint source.valid
    ((source.grows.tables nodes).place? (place?_var known object))
    (Tables.demand?_store
      (((base.grows.trans source.grows).tables nodes).slot? (slot?_property name))
      (place?_var known value))
  exact property.trans (base.trans (source.trans attached))

/-- A constraint that looks at two locations is attached to both. -/
theorem enacts_addTwice (valid : s.Valid nodes) {object key : Nat} {o k : Place Role}
    {c : Constraint} {d : Demand Role} (base : (s.tables nodes).place? object = some o)
    (named : (s.tables nodes).place? key = some k) (meant : (s.tables nodes).demand? c = some d) :
    Enacts nodes s (s.addTwice object key c) [.attached o d, .attached k d] := by
  have first := enacts_addConstraint valid base meant
  have extended := first.grows.tables nodes
  exact first.trans (enacts_addConstraint first.valid (extended.place? named)
    (extended.demand? meant))

theorem enacts_addDynamicLoad (valid : s.Valid nodes) {node : Nat} {n : Role}
    (known : nodes node = some n) (dst object key : VarId) (h : HeapPolicy) (f : FunctionId)
    (pc : Nat) :
    Enacts nodes s (s.addDynamicLoad node dst object key)
      ((Instruction.getDynamic dst object key).findings h n f pc) := by
  have base := enacts_var valid known object
  have name := enacts_var base.valid known key
  have target := enacts_var name.valid known dst
  have baseHere := ((name.grows.trans target.grows).tables nodes).place?
    (place?_var known object)
  have nameHere := (target.grows.tables nodes).place? (place?_var known key)
  have twice := enacts_addTwice target.valid baseHere nameHere
    (Tables.demand?_dynamicLoad baseHere nameHere (place?_var known dst))
  exact base.trans (name.trans (target.trans twice))

theorem enacts_addDynamicStore (valid : s.Valid nodes) {node : Nat} {n : Role}
    (known : nodes node = some n) (object key value : VarId) (h : HeapPolicy) (f : FunctionId)
    (pc : Nat) :
    Enacts nodes s (s.addDynamicStore node object key value)
      ((Instruction.putDynamic object key value).findings h n f pc) := by
  have base := enacts_var valid known object
  have name := enacts_var base.valid known key
  have source := enacts_var name.valid known value
  have baseHere := ((name.grows.trans source.grows).tables nodes).place?
    (place?_var known object)
  have nameHere := (source.grows.tables nodes).place? (place?_var known key)
  have twice := enacts_addTwice source.valid baseHere nameHere
    (Tables.demand?_dynamicStore baseHere nameHere (place?_var known value))
  exact base.trans (name.trans (source.trans twice))

theorem enacts_addCall (valid : s.Valid nodes) {node : Nat} {n : Role}
    (known : nodes node = some n) (pc : Nat) (callee : VarId) :
    Enacts nodes s (s.addCall node pc callee)
      [.place (.var n callee), .attached (.var n callee) (.invoke n pc .direct)] := by
  have var := enacts_var valid known callee
  have attached := enacts_addConstraint var.valid (place?_var known callee)
    (Tables.demand?_invoke pc .direct known)
  exact var.trans attached

theorem enacts_addReturn (valid : s.Valid nodes) {node : Nat} {n : Role}
    (known : nodes node = some n) (value : VarId) :
    Enacts nodes s (s.addReturn node value) (Finding.linked (.var n value) (.result n)) :=
  enacts_link valid (placeOf?_var known value) (placeOf?_result known)

/-- What an instruction asks of the solver: all but that there is a call. -/
def instructionFindings (h : HeapPolicy) (n : Role) (f : FunctionId) (pc : Nat) :
    Instruction → List (Finding Role)
  | .invoke call =>
    [.place (.var n call.callee), .attached (.var n call.callee) (.invoke n pc .direct)]
  | i => i.findings h n f pc

theorem enacts_addInstruction (valid : s.Valid nodes) (h : HeapPolicy) (spot : Spot) {n : Role}
    (known : nodes spot.node = some n) (context : spot.context = n.2) (i : Instruction) :
    Enacts nodes s (s.addInstruction h spot i)
      (instructionFindings h n spot.function spot.pc i) := by
  cases i with
  | newObject dst =>
      have added := enacts_addAllocation valid h spot .object dst known
      rwa [context] at added
  | newArray dst =>
      have added := enacts_addAllocation valid h spot .array dst known
      rwa [context] at added
  | closure dst g => exact enacts_addClosure valid h spot dst g known context
  | constant dst value =>
      exact enacts_addConstant valid h known dst value spot.function spot.pc
  | copy dst src => exact enacts_copyVar valid known dst src
  | phi dst sources =>
      exact Enacts.foldl (P := fun _ => True) (fun _ _ _ _ => trivial) sources
        (fun s valid _ src _ => enacts_copyVar valid known dst src) valid trivial
  | getProperty dst object name => exact enacts_addLoad valid known dst object name
  | putProperty object name value => exact enacts_addStore valid known object name value
  | getDynamic dst object key =>
      exact enacts_addDynamicLoad valid known dst object key h spot.function spot.pc
  | putDynamic object key value =>
      exact enacts_addDynamicStore valid known object key value h spot.function spot.pc
  | globalRead dst name =>
      exact enacts_readShared valid known dst name (placeOf?_global s name)
  | globalWrite name value =>
      exact enacts_writeShared valid known value name (placeOf?_global s name)
  | lexicalRead dst name definer =>
      exact enacts_readShared valid known dst name (placeOf?_lexical s definer name)
  | lexicalWrite name definer value =>
      exact enacts_writeShared valid known value name (placeOf?_lexical s definer name)
  | invoke call => exact enacts_addCall valid known spot.pc call.callee
  | ret value =>
      cases value with
      | none => exact .refl valid
      | some value => exact enacts_addReturn valid known value

/-- The numbers of a binding stand for an encounter. -/
structure Means (s : Solver) (nodes : Nat → Option Role) (b : Binding) (e : Encounter) : Prop where
  caller : nodes b.caller = some e.caller
  callee : nodes b.callee = some e.callee
  function : s.objects.value? b.function = some e.function
  pc : b.pc = e.pc
  dispatch : b.dispatch = e.dispatch

theorem Means.grow {b : Binding} {e : Encounter} (means : s.Means nodes b e) (grown : s.Grows t) :
    t.Means nodes b e :=
  ⟨means.caller, means.callee, grown.objects _ _ means.function, means.pc, means.dispatch⟩

/-- A binding stands for one encounter only. -/
theorem Means.unique {b : Binding} {x y : Encounter} (here : s.Means nodes b x)
    (there : s.Means nodes b y) : x = y :=
  Encounter.ext (Option.some.inj (here.caller.symm.trans there.caller))
    (here.pc.symm.trans there.pc) (Option.some.inj (here.callee.symm.trans there.callee))
    (Option.some.inj (here.function.symm.trans there.function))
    (here.dispatch.symm.trans there.dispatch)

variable {b : Binding} {e : Encounter}

theorem enacts_passVar (valid : s.Valid nodes) (means : s.Means nodes b e) {k : Nat}
    {q : Place Role} (here : (s.tables nodes).place? k = some q) (v : VarId) :
    Enacts nodes s (passVar b.caller k s v) (e.pass q v) := by
  have var := enacts_var valid means.caller v
  have edge := enacts_addEdge var.valid (place?_var means.caller v)
    ((var.grows.tables nodes).place? here)
  exact var.trans edge

/-- The link of a fresh object to what the function's property `prototype` holds. -/
theorem enacts_prototype (valid : s.Valid nodes) {i j : Nat} {o f : AbstractObject}
    (object : s.objects.value? i = some o) (function : s.objects.value? j = some f) :
    Enacts nodes s
      (let name := s.property "prototype"
       let prototype := name.2.field j name.1
       let link := prototype.2.field i .proto
       (link.2.addEdge prototype.1 link.1).2)
      ((Slot.ofName "prototype").mentions ++
        Finding.linked (.field f (.ofName "prototype")) (.field o .proto)) := by
  have name := enacts_property valid "prototype"
  have linked := enacts_link name.valid
    (placeOf?_field (name.grows.objects _ _ function) (slot?_property "prototype"))
    (placeOf?_field (name.grows.objects _ _ object) (Tables.slot?_proto _))
  exact name.trans linked

theorem enacts_bindConstruct (valid : s.Valid nodes) (means : s.Means nodes b e) (h : HeapPolicy)
    (spot : Spot) (node : spot.node = b.caller) (pc : spot.pc = b.pc)
    (context : spot.context = e.caller.2) {k : Nat} {q : Place Role}
    (here : (s.tables nodes).place? k = some q) (dst : Option VarId) :
    Enacts nodes s (s.bindConstruct h spot b.function k dst)
      (e.constructFindings h spot.function q dst) := by
  have fresh : h.allocation ⟨spot.function, e.pc, .object⟩ e.caller.2 =
      h.allocation ⟨spot.function, spot.pc, .object⟩ spot.context := by
    rw [pc, means.pc, context]
  unfold bindConstruct Encounter.constructFindings
  rw [fresh]
  generalize h.allocation ⟨spot.function, spot.pc, .object⟩ spot.context = o
  have object := enacts_object valid o
  have given := value?_object s o
  have fact := enacts_addFact object.valid ((object.grows.tables nodes).place? here) given
  have grown := object.grows.trans fact.grows
  have link := enacts_prototype fact.valid (fact.grows.objects _ _ given)
    (grown.objects _ _ means.function)
  have started := object.trans (fact.trans link)
  cases dst with
  | none =>
      refine started.congr fun j => ?_
      simp only [Option.elim_none, List.append_nil, List.cons_append, List.nil_append]
  | some dst =>
      have var := enacts_setVar link.valid (node ▸ means.caller) dst
        ((fact.grows.trans link.grows).objects _ _ given)
      refine (started.trans var).congr fun j => ?_
      simp only [Option.elim_some, List.append_assoc, List.cons_append, List.nil_append]

theorem enacts_bindReceiver (valid : s.Valid nodes) (means : s.Means nodes b e) (h : HeapPolicy)
    (spot : Spot) (node : spot.node = b.caller) (pc : spot.pc = b.pc)
    (context : spot.context = e.caller.2) (call : Invocation) {k : Nat} {q : Place Role}
    (here : (s.tables nodes).place? k = some q) :
    Enacts nodes s (s.bindReceiver h spot b call k)
      (e.receiverFindings h spot.function call q) := by
  have pass : ∀ v : Option VarId,
      Enacts nodes s (v.elim s (passVar b.caller k s)) (v.elim [] (e.pass q)) := by
    intro v
    cases v with
    | none => exact .refl valid
    | some v => exact enacts_passVar valid means here v
  unfold bindReceiver Encounter.receiverFindings
  rw [means.dispatch]
  cases e.dispatch with
  | direct =>
      cases call.kind with
      | call => exact pass call.receiver
      | construct => exact enacts_bindConstruct valid means h spot node pc context here call.dst
  | call => exact pass call.args.head?
  | apply => exact pass call.args.head?

theorem enacts_passArgument (valid : s.Valid nodes) (means : s.Means nodes b e)
    (p : VarId × VarId) :
    Enacts nodes s (passArgument b.caller b.callee s p) (e.argumentFindings p) :=
  enacts_link valid (placeOf?_var means.caller p.1) (placeOf?_var means.callee p.2)

theorem enacts_passArguments (valid : s.Valid nodes) (means : s.Means nodes b e)
    (ps : List (VarId × VarId)) :
    Enacts nodes s (ps.foldl (passArgument b.caller b.callee) s) (ps.flatMap e.argumentFindings) :=
  Enacts.foldl (P := fun s => s.Means nodes b e) (fun _ _ grown means => means.grow grown) ps
    (fun _ valid means p _ => enacts_passArgument valid means p) valid means

theorem enacts_passElements (valid : s.Valid nodes) (means : s.Means nodes b e) {array : VarId}
    {k : Nat} (here : (s.tables nodes).place? k = some (.var e.caller array)) (param : VarId) :
    Enacts nodes s (passElements k b.callee s param) (e.elementsFindings array param) := by
  have var := enacts_var valid means.callee param
  have attached := enacts_addConstraint var.valid ((var.grows.tables nodes).place? here)
    (Tables.demand?_load (Tables.slot?_element _) (place?_var means.callee param))
  exact var.trans attached

theorem enacts_bindArguments (valid : s.Valid nodes) (means : s.Means nodes b e)
    (call : Invocation) (params : List VarId) :
    Enacts nodes s (s.bindArguments b call params) (e.argumentsFindings call params) := by
  unfold bindArguments Encounter.argumentsFindings
  rw [means.dispatch]
  cases e.dispatch with
  | direct => exact enacts_passArguments valid means _
  | call => exact enacts_passArguments valid means _
  | apply =>
      dsimp only
      cases call.args[1]? with
      | none => exact .refl valid
      | some array =>
          have var := enacts_var valid means.caller array
          have elements := Enacts.foldl
            (P := fun s => s.Means nodes b e ∧
              (s.tables nodes).place? _ = some (.var e.caller array))
            (fun _ _ grown here =>
              ⟨here.1.grow grown, (grown.tables nodes).place? here.2⟩) params
            (fun _ valid here param _ => enacts_passElements valid here.1 here.2 param) var.valid
            ⟨means.grow var.grows, place?_var means.caller array⟩
          exact var.trans elements

theorem enacts_bindResult (valid : s.Valid nodes) (means : s.Means nodes b e)
    (call : Invocation) : Enacts nodes s (s.bindResult b call) (e.resultFindings call) := by
  unfold bindResult Encounter.resultFindings
  cases call.dst with
  | none => exact .refl valid
  | some dst =>
      exact enacts_link valid (placeOf?_result means.callee) (placeOf?_var means.caller dst)

theorem enacts_bind (valid : s.Valid nodes) (means : s.Means nodes b e) (h : HeapPolicy)
    (spot : Spot) (node : spot.node = b.caller) (pc : spot.pc = b.pc)
    (context : spot.context = e.caller.2) (call : Invocation) (callee : FunctionBody) :
    Enacts nodes s (s.bind h spot b call callee) (e.findings h spot.function call callee) := by
  have var := enacts_var valid means.callee callee.thisVar
  have receiver := enacts_bindReceiver var.valid (means.grow var.grows) h spot node pc context call
    (place?_var means.callee callee.thisVar)
  have started := var.grows.trans receiver.grows
  have arguments := enacts_bindArguments receiver.valid (means.grow started) call callee.params
  have result := enacts_bindResult arguments.valid
    (means.grow (started.trans arguments.grows)) call
  refine (var.trans (receiver.trans (arguments.trans result))).congr fun j => ?_
  simp only [Encounter.findings, List.append_assoc, List.cons_append, List.nil_append]

theorem enacts_seedMethod (valid : s.Valid nodes) {i : Nat}
    (functions : s.objects.value? i = some (.builtin .functionPrototype)) (m : String × Builtin) :
    Enacts nodes s (seedMethod i s m) (Finding.method m) := by
  have object := enacts_object valid (.builtin m.2)
  have given := value?_object s (.builtin m.2)
  have property := enacts_setProperty object.valid m.1 (object.grows.objects _ _ functions) given
  have grown := object.grows.trans property.grows
  have link := enacts_setField property.valid (property.grows.objects _ _ given)
    (Tables.slot?_proto _) (grown.objects _ _ functions)
  refine (object.trans (property.trans link)).congr fun j => ?_
  simp only [Finding.method, List.cons_append, List.nil_append]

theorem enacts_seed (valid : s.Valid nodes) : Enacts nodes s s.seed Finding.builtins := by
  have objects := enacts_object valid (.builtin .objectPrototype)
  have functions := enacts_object objects.valid (.builtin .functionPrototype)
  have given := value?_object (s.object (.builtin .objectPrototype)).2 (.builtin .functionPrototype)
  have link := enacts_setField functions.valid given (Tables.slot?_proto _)
    (functions.grows.objects _ _ (value?_object s (.builtin .objectPrototype)))
  have methods := Enacts.foldl
    (P := fun s => s.objects.value? _ = some (.builtin .functionPrototype))
    (fun _ _ grown here => grown.objects _ _ here)
    [("call", Builtin.call), ("apply", Builtin.apply)]
    (fun _ valid here m _ => enacts_seedMethod valid here m) link.valid
    (link.grows.objects _ _ given)
  refine (objects.trans (functions.trans (link.trans methods))).congr fun j => ?_
  simp only [Finding.builtins, List.cons_append, List.nil_append]

end CallFlow.Solver
