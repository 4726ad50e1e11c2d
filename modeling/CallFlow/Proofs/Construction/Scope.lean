import CallFlow.Proofs.Construction.Variables
import CallFlow.Proofs.Flow.Scope

/-! What an analysis can mention: what is made of the names, functions, variables and places of the
program. The rules never lead out of these. -/

namespace CallFlow

/-- The name or text that an instruction spells out. -/
def Instruction.spelled? : Instruction → Option String
  | constant _ (.string name) | getProperty _ _ name | putProperty _ name _ | globalRead _ name
  | globalWrite name _ | lexicalRead _ name _ | lexicalWrite name _ _ => some name
  | _ => none

/-- The object for the literal of an instruction. -/
def Instruction.literal? (h : HeapPolicy) : Instruction → Option AbstractObject
  | constant _ value => h.constant? value
  | _ => none

def Builtin.all : List Builtin := [.objectPrototype, .functionPrototype, .call, .apply]

@[simp]
theorem Builtin.mem_all (b : Builtin) : b ∈ Builtin.all := by
  cases b <;> decide

namespace Setup

variable (u : Setup)

def code : List Instruction := u.program.functions.flatMap (·.instructions)

def ids : List FunctionId := u.program.functions.map (·.id)

def pcs : List Nat := List.range u.program.weight

def vars : List VarId := u.program.functions.flatMap (·.defined)

def spelled : List String :=
  ["call", "apply", "prototype", "constructor"] ++ u.code.filterMap Instruction.spelled?

def contexts : List Context := .everywhere :: (pairs u.ids u.pcs).map fun x => .callString x.1 x.2

def methods : List Method := .fakeRoot :: (u.ids.map .function ++ Builtin.all.map .builtin)

/-- What nodes may stand for. -/
def roles : List Role := pairs u.methods u.contexts

def kinds : List AllocationKind := [.object, .array] ++ u.ids.map .function ++ u.ids.map .prototype

def objects : List AbstractObject :=
  ((pairs (pairs u.ids u.pcs) (pairs u.kinds u.contexts)).map fun x =>
      .allocation ⟨x.1.1, x.1.2, x.2.1⟩ x.2.2) ++
    u.code.filterMap (Instruction.literal? u.heap) ++ Builtin.all.map .builtin

def slots : List Slot := u.spelled.map .named ++ [.element, .proto, .unknownName, .allValues]

def places : List (Place Role) :=
  ((pairs u.roles u.vars).map fun x => .var x.1 x.2) ++ u.roles.map .result ++
    ((pairs u.objects u.slots).map fun x => .field x.1 x.2) ++ u.spelled.map .global ++
    (pairs u.ids u.spelled).map fun x => .lexical x.1 x.2

def operands : List ((Role × VarId) × VarId × VarId) :=
  pairs (pairs u.roles u.vars) (pairs u.vars u.vars)

def demands : List (Demand Role) :=
  ((pairs u.slots u.places).map fun x => .load x.1 x.2) ++
    ((pairs u.slots u.places).map fun x => .store x.1 x.2) ++
    (u.operands.map fun x =>
      .dynamicLoad (.var x.1.1 x.1.2) (.var x.1.1 x.2.1) (.var x.1.1 x.2.2)) ++
    (u.operands.map fun x =>
      .dynamicStore (.var x.1.1 x.1.2) (.var x.1.1 x.2.1) (.var x.1.1 x.2.2)) ++
    (pairs (pairs u.roles u.pcs) [.direct, .call, .apply]).map fun x => .invoke x.1.1 x.1.2 x.2

def encounters : List Encounter :=
  (pairs (pairs u.roles u.pcs) (pairs (pairs u.roles u.objects) [.direct, .call, .apply])).map
    fun x => ⟨x.1.1, x.1.2, x.2.1.1, x.2.1.2, x.2.2⟩

/-- A finding mentions only what the program is made of. -/
def Mentions : Finding Role → Prop
  | .name n => n ∈ u.spelled
  | .object o => o ∈ u.objects
  | .place p => p ∈ u.places
  | .holds p o => p ∈ u.places ∧ o ∈ u.objects
  | .flows p q => p ∈ u.places ∧ q ∈ u.places
  | .attached p d => p ∈ u.places ∧ d ∈ u.demands
  | .node n => n ∈ u.roles
  | .site _ _ | .edge _ _ _ => True
  | .binding n pc m o _ => n ∈ u.roles ∧ pc ∈ u.pcs ∧ m ∈ u.roles ∧ o ∈ u.objects

variable {u}

section Membership

variable {n : Role} {v : VarId} {s : Slot} {p : Place Role} {name : String} {o : AbstractObject}

@[simp]
theorem mem_roles {m : Method} {c : Context} : (m, c) ∈ u.roles ↔ m ∈ u.methods ∧ c ∈ u.contexts :=
  mem_pairs

@[simp]
theorem everywhere_mem : Context.everywhere ∈ u.contexts := List.mem_cons_self

@[simp]
theorem callString_mem {f : FunctionId} {pc : Nat} :
    .callString f pc ∈ u.contexts ↔ f ∈ u.ids ∧ pc ∈ u.pcs := by
  simp [contexts]

@[simp]
theorem fakeRoot_mem : Method.fakeRoot ∈ u.methods := List.mem_cons_self

@[simp]
theorem function_mem {f : FunctionId} : .function f ∈ u.methods ↔ f ∈ u.ids := by
  simp [methods]

@[simp]
theorem builtin_mem {b : Builtin} : .builtin b ∈ u.methods := by
  simp [methods]

@[simp]
theorem named_mem : .named name ∈ u.slots ↔ name ∈ u.spelled := by
  simp [slots]

@[simp]
theorem element_mem : .element ∈ u.slots := by simp [slots]

@[simp]
theorem proto_mem : .proto ∈ u.slots := by simp [slots]

@[simp]
theorem var_mem : .var n v ∈ u.places ↔ n ∈ u.roles ∧ v ∈ u.vars := by
  simp [places]

@[simp]
theorem result_mem : .result n ∈ u.places ↔ n ∈ u.roles := by
  simp [places]

@[simp]
theorem field_mem : .field o s ∈ u.places ↔ o ∈ u.objects ∧ s ∈ u.slots := by
  simp [places]

@[simp]
theorem global_mem : .global name ∈ u.places ↔ name ∈ u.spelled := by
  simp [places]

@[simp]
theorem lexical_mem {f : FunctionId} :
    .lexical f name ∈ u.places ↔ f ∈ u.ids ∧ name ∈ u.spelled := by
  simp [places]

@[simp]
theorem load_mem : .load s p ∈ u.demands ↔ s ∈ u.slots ∧ p ∈ u.places := by
  simp [demands]

@[simp]
theorem store_mem : .store s p ∈ u.demands ↔ s ∈ u.slots ∧ p ∈ u.places := by
  simp [demands]

@[simp]
theorem invoke_mem {pc : Nat} {d : Dispatch} :
    .invoke n pc d ∈ u.demands ↔ n ∈ u.roles ∧ pc ∈ u.pcs := by
  simp only [demands, List.mem_append, List.mem_map, reduceCtorEq, and_false, exists_false,
    false_or]
  constructor
  · rintro ⟨⟨⟨n, pc⟩, d⟩, member, same⟩
    cases same
    exact mem_pairs.mp (mem_pairs.mp member).1
  · intro known
    exact ⟨((n, pc), d), mem_pairs.mpr ⟨mem_pairs.mpr known, by cases d <;> decide⟩, rfl⟩

theorem dynamicLoad_mem {a b c : VarId} (node : n ∈ u.roles) (first : a ∈ u.vars)
    (second : b ∈ u.vars) (third : c ∈ u.vars) :
    .dynamicLoad (.var n a) (.var n b) (.var n c) ∈ u.demands := by
  have operands : ((n, a), b, c) ∈ u.operands := by simp [operands, node, first, second, third]
  simp only [demands, List.mem_append, List.mem_map]
  exact .inl (.inl (.inr ⟨_, operands, rfl⟩))

theorem dynamicStore_mem {a b c : VarId} (node : n ∈ u.roles) (first : a ∈ u.vars)
    (second : b ∈ u.vars) (third : c ∈ u.vars) :
    .dynamicStore (.var n a) (.var n b) (.var n c) ∈ u.demands := by
  have operands : ((n, a), b, c) ∈ u.operands := by simp [operands, node, first, second, third]
  simp only [demands, List.mem_append, List.mem_map]
  exact .inl (.inr ⟨_, operands, rfl⟩)

theorem encounter_mem {e : Encounter} (caller : e.caller ∈ u.roles) (place : e.pc ∈ u.pcs)
    (callee : e.callee ∈ u.roles) (function : e.function ∈ u.objects) : e ∈ u.encounters := by
  have kind : e.dispatch ∈ [.direct, .call, .apply] := by cases e.dispatch <;> decide
  refine List.mem_map.mpr ⟨((e.caller, e.pc), (e.callee, e.function), e.dispatch), ?_, rfl⟩
  simp only [mem_pairs]
  exact ⟨⟨caller, place⟩, ⟨callee, function⟩, kind⟩

/-- The text of a constant is spelled out by the program. -/
theorem spelled_of_constant (member : .constant (.string name) ∈ u.objects) : name ∈ u.spelled := by
  simp only [objects, List.mem_append, List.mem_map, reduceCtorEq, and_false, exists_false,
    false_or, or_false, List.mem_filterMap] at member
  obtain ⟨i, stands, literal⟩ := member
  refine List.mem_append_right _ (List.mem_filterMap.mpr ⟨i, stands, ?_⟩)
  cases i with
  | constant dst value =>
      simp only [Instruction.literal?, HeapPolicy.constant?] at literal
      split at literal
      · cases value <;> cases literal
        rfl
      · obtain ⟨k, -, same⟩ := Option.map_eq_some_iff.mp literal
        cases same
  | _ => cases literal

/-- The function of a function object is one of the program. -/
theorem ids_of_function? {g : FunctionId} (member : o ∈ u.objects)
    (function : o.function? = some g) : g ∈ u.ids := by
  rcases List.mem_append.mp member with member | builtin
  · rcases List.mem_append.mp member with allocated | literal
    · obtain ⟨⟨⟨f, pc⟩, k, c⟩, paired, rfl⟩ := List.mem_map.mp allocated
      cases k <;> cases function
      simpa [kinds] using (mem_pairs.mp (mem_pairs.mp paired).2).1
    · obtain ⟨i, -, known⟩ := List.mem_filterMap.mp literal
      cases i with
      | constant dst value =>
          rw [function?_constant known] at function
          cases function
      | _ => cases known
  · obtain ⟨b, -, rfl⟩ := List.mem_map.mp builtin
    cases function

@[simp]
theorem builtinObject_mem {b : Builtin} : .builtin b ∈ u.objects := by
  simp [objects]

theorem allocation_mem {f : FunctionId} {pc : Nat} {k : AllocationKind} {c : Context}
    (function : f ∈ u.ids) (place : pc ∈ u.pcs) (kind : k ∈ u.kinds) (context : c ∈ u.contexts) :
    u.heap.allocation ⟨f, pc, k⟩ c ∈ u.objects := by
  have all : ∀ c ∈ u.contexts, .allocation ⟨f, pc, k⟩ c ∈ u.objects := by
    intro c context
    refine List.mem_append_left _ (List.mem_append_left _ (List.mem_map.mpr ?_))
    exact ⟨((f, pc), k, c), by simp [function, place, kind, context], rfl⟩
  unfold HeapPolicy.allocation
  split
  · exact all _ everywhere_mem
  · exact all c context

theorem ofName_mem (known : name ∈ u.spelled) : Slot.ofName name ∈ u.slots := by
  unfold Slot.ofName PropertyName.of
  split
  · simp
  · simp
  · rename_i found
    split at found
    · cases found
    · split at found <;> cases found
      simpa using known

end Membership

section Program

variable {n : Role} {f : FunctionBody} {pc : Nat} {i : Instruction}

theorem mem_functions (body : u.bodyOf? n = some f) : f ∈ u.program.functions := by
  obtain ⟨g, -, here⟩ := Option.bind_eq_some_iff.mp body
  exact List.mem_of_getElem? here

theorem ids_of_body (body : u.bodyOf? n = some f) : f.id ∈ u.ids :=
  List.mem_map_of_mem (mem_functions body)

theorem ids_of_function (wf : u.program.WellFormed) {g : FunctionId}
    (here : u.program.function? g = some f) : g ∈ u.ids :=
  wf.ids g f here ▸ List.mem_map_of_mem (List.mem_of_getElem? here)

theorem vars_of_defined (body : u.bodyOf? n = some f) {v : VarId} (defined : v ∈ f.defined) :
    v ∈ u.vars :=
  List.mem_flatMap.mpr ⟨f, mem_functions body, defined⟩

theorem code_of_instruction (body : u.bodyOf? n = some f) (stands : i ∈ f.instructions) :
    i ∈ u.code :=
  List.mem_flatMap.mpr ⟨f, mem_functions body, stands⟩

theorem spelled_of_code (member : i ∈ u.code) {name : String} (known : i.spelled? = some name) :
    name ∈ u.spelled :=
  List.mem_append_right _ (List.mem_filterMap.mpr ⟨i, member, known⟩)

theorem objects_of_literal (member : i ∈ u.code) {o : AbstractObject}
    (known : i.literal? u.heap = some o) : o ∈ u.objects :=
  List.mem_append_left _ (List.mem_append_right _ (List.mem_filterMap.mpr ⟨i, member, known⟩))

theorem vars_of_defines (body : u.bodyOf? n = some f) (stands : f.instructions[pc]? = some i)
    {v : VarId} (defines : i.defines? = some v) : v ∈ u.vars :=
  vars_of_defined body (defined_of_defines stands defines)

theorem vars_of_uses (wf : u.program.WellFormed) (body : u.bodyOf? n = some f)
    (stands : i ∈ f.instructions) {v : VarId} (used : v ∈ i.uses) : v ∈ u.vars :=
  vars_of_defined body (defined_of_uses wf body stands used)

theorem pcs_of_instruction (body : u.bodyOf? n = some f) (stands : f.instructions[pc]? = some i) :
    pc ∈ u.pcs := by
  have bound := (List.getElem?_eq_some_iff.mp stands).1
  have own := length_le_sum (fun i : Instruction => i.uses.length) f.instructions
  have all := le_sum_of_mem (fun f : FunctionBody =>
    f.params.length + sumOver (fun i => 1 + i.uses.length) f.instructions) (mem_functions body)
  rw [pcs, List.mem_range, Program.weight]
  omega

end Program

theorem mentions_name {name : String} (known : name ∈ u.spelled) :
    Each u.Mentions (Slot.ofName name).mentions :=
  (each_mentions _).mpr fun _ same => named_mem.mp (same ▸ ofName_mem known)

theorem mentions_instruction (wf : u.program.WellFormed) {n : Role} (node : n ∈ u.roles)
    {f : FunctionBody} (body : u.bodyOf? n = some f) {pc : Nat} {i : Instruction}
    (stands : f.instructions[pc]? = some i) : Each u.Mentions (i.findings u.heap n f.id pc) := by
  have code := code_of_instruction body (List.mem_of_getElem? stands)
  have function := ids_of_body body
  have place := pcs_of_instruction body stands
  have context : n.2 ∈ u.contexts := (mem_pairs.mp node).2
  have defines := fun v => vars_of_defines (v := v) body stands
  have uses := fun v => vars_of_uses (v := v) wf body (List.mem_of_getElem? stands)
  have spells := fun (name : String) (known : i.spelled? = some name) => spelled_of_code code known
  have names : ∀ g, i.names? = some g → g ∈ u.ids := by
    intro g named
    obtain ⟨h, -, here⟩ := Option.bind_eq_some_iff.mp body
    obtain ⟨b, there⟩ := wf.names h f here i (List.mem_of_getElem? stands) g named
    exact ids_of_function wf there
  -- by form: each operand is a variable of the function, each name is spelled in the program
  cases i with
  | newObject dst =>
      have object := allocation_mem (k := .object) function place (by simp [kinds]) context
      simp [Instruction.findings, Finding.inherits, Mentions, object, node, defines dst rfl]
  | newArray dst =>
      have object := allocation_mem (k := .array) function place (by simp [kinds]) context
      simp [Instruction.findings, Finding.inherits, Mentions, object, node, defines dst rfl]
  | closure dst g =>
      have kinds : .function g ∈ u.kinds ∧ .prototype g ∈ u.kinds := by simp [kinds, names g rfl]
      have closure := allocation_mem function place kinds.1 context
      have prototype := allocation_mem function place kinds.2 context
      have field : "prototype" ∈ u.spelled := by simp [spelled]
      have back : "constructor" ∈ u.spelled := by simp [spelled]
      simp only [Instruction.findings, Finding.inherits, Finding.named, each_append, each_cons,
        each_nil, each_stored, Mentions, var_mem, field_mem, proto_mem, ofName_mem field,
        ofName_mem back, mentions_name field, mentions_name back, closure, prototype, node,
        defines dst rfl, builtinObject_mem, and_self]
  | constant dst value =>
      have object := fun o (known : u.heap.constant? value = some o) =>
        objects_of_literal code known
      simpa [Instruction.findings, Mentions, node, defines dst rfl] using object
  | copy dst src =>
      simp [Instruction.findings, Mentions, node, defines dst rfl,
        uses src (by simp [Instruction.uses])]
  | phi dst sources =>
      have used : ∀ src ∈ sources, src ∈ u.vars := fun src member => uses src member
      simpa [Instruction.findings, Mentions, node, defines dst rfl] using used
  | getProperty dst object name =>
      have known := spells name rfl
      simp only [Instruction.findings, each_append, each_cons, each_nil, Mentions, var_mem,
        load_mem, ofName_mem known, mentions_name known, node, defines dst rfl,
        uses object List.mem_cons_self, and_self]
  | putProperty object name value =>
      have known := spells name rfl
      have value' := uses value (List.mem_cons_of_mem _ List.mem_cons_self)
      simp only [Instruction.findings, each_append, each_cons, each_nil, Mentions, var_mem,
        store_mem, ofName_mem known, mentions_name known, node, uses object List.mem_cons_self,
        value', and_self]
  | getDynamic dst object key =>
      have object' := uses object List.mem_cons_self
      have key' := uses key (List.mem_cons_of_mem _ List.mem_cons_self)
      have demand := dynamicLoad_mem node object' key' (defines dst rfl)
      simp only [Instruction.findings, each_cons, each_nil, Mentions, var_mem, node, object', key',
        defines dst rfl, demand, and_self]
  | putDynamic object key value =>
      have object' := uses object List.mem_cons_self
      have key' := uses key (List.mem_cons_of_mem _ List.mem_cons_self)
      have value' := uses value (List.mem_cons_of_mem _ (List.mem_cons_of_mem _ List.mem_cons_self))
      have demand := dynamicStore_mem node object' key' value'
      simp only [Instruction.findings, each_cons, each_nil, Mentions, var_mem, node, object', key',
        value', demand, and_self]
  | globalRead dst name =>
      simp [Instruction.findings, Mentions, node, defines dst rfl, spells name rfl]
  | globalWrite name value =>
      simp [Instruction.findings, Mentions, node, uses value List.mem_cons_self, spells name rfl]
  | lexicalRead dst name definer =>
      simp [Instruction.findings, Mentions, node, defines dst rfl, spells name rfl,
        names definer rfl]
  | lexicalWrite name definer value =>
      simp [Instruction.findings, Mentions, node, uses value List.mem_cons_self, spells name rfl,
        names definer rfl]
  | invoke call =>
      simp [Instruction.findings, Mentions, node, place, uses call.callee List.mem_cons_self]
  | ret value =>
      cases value with
      | none => simp [Instruction.findings]
      | some value =>
          simp [Instruction.findings, Mentions, node, uses value List.mem_cons_self]

/-- The contexts in which calls reach functions are among all contexts. -/
theorem contextOf_mem {n : Role} {pc : Nat} (k : CallKind) (node : n ∈ u.roles)
    (place : pc ∈ u.pcs) (d : Dispatch) : u.algorithm.contextOf n.1 ⟨pc, k⟩ d ∈ u.contexts := by
  obtain ⟨m, c⟩ := n
  have own : ∀ f, m.function? = some f → .callString f pc ∈ u.contexts := by
    intro f function
    cases m with
    | function g =>
        cases function
        exact callString_mem.mpr ⟨function_mem.mp (mem_roles.mp node).1, place⟩
    | _ => cases function
  unfold Algorithm.contextOf
  dsimp only
  split
  · exact everywhere_mem
  · split
    · split
      · rename_i f function
        exact own f function
      · exact everywhere_mem
    · exact everywhere_mem
  · split
    · rename_i f function
      exact own f function
    · exact everywhere_mem

theorem vars_of_call (wf : u.program.WellFormed) {n : Role} {pc : Nat} {call : Invocation}
    (here : u.callOf? n pc = some call) :
    (∀ v, call.receiver = some v → v ∈ u.vars) ∧ (∀ v ∈ call.args, v ∈ u.vars) ∧
      ∀ v, call.dst = some v → v ∈ u.vars := by
  obtain ⟨f, body, receiver, args, dst⟩ := defined_of_call wf here
  have own := fun v defined => vars_of_defined (v := v) body defined
  exact ⟨fun v known => own v (receiver v known), fun v member => own v (args v member),
    fun v known => own v (dst v known)⟩

theorem mentions_dispatch (wf : u.program.WellFormed) {n : Role} {pc : Nat} {d : Dispatch}
    {o : AbstractObject} (node : n ∈ u.roles) (place : pc ∈ u.pcs) (object : o ∈ u.objects) :
    Each u.Mentions (u.dispatchFindings n pc d o) := by
  unfold dispatchFindings
  split
  · exact each_nil
  · rename_i call here
    have context := contextOf_mem call.kind node place d
    dsimp only
    split
    · exact each_nil
    · rename_i g means
      have function := ids_of_function? object (AbstractObject.classify_eq_function_iff.mp means)
      simp [Mentions, node, place, object, function, context]
    · simp [Mentions]
    · simp only [each_elim, each_cons, each_nil, Mentions, var_mem, invoke_mem, node, place,
        true_and, and_true, and_self]
      exact (vars_of_call wf here).1

theorem mentions_findings (wf : u.program.WellFormed) {e : Encounter} {f g : FunctionBody}
    {call : Invocation} (body : u.bodyOf? e.caller = some f)
    (here : u.callOf? e.caller e.pc = some call) (entered : u.bodyOf? e.callee = some g)
    (caller : e.caller ∈ u.roles) (place : e.pc ∈ u.pcs) (callee : e.callee ∈ u.roles)
    (function : e.function ∈ u.objects) : Each u.Mentions (e.findings u.heap f.id call g) := by
  obtain ⟨receiver, args, dst⟩ := vars_of_call wf here
  have thisVar : g.thisVar ∈ u.vars :=
    vars_of_defined entered (List.mem_map.mpr ⟨_, role_of_receiver, rfl⟩)
  have params : ∀ v ∈ g.params, v ∈ u.vars := fun v param =>
    vars_of_defined entered (List.mem_map.mpr ⟨_, role_of_param param, rfl⟩)
  have prototype : "prototype" ∈ u.spelled := by simp [spelled]
  have object := allocation_mem (k := .object) (ids_of_body body) place (by simp [kinds])
    (mem_pairs.mp caller).2
  refine Encounter.each_findings (var_mem.mpr ⟨callee, thisVar⟩) (fun _ _ => ?_) (fun v given => ?_)
    (fun a arg p param => ?_) (fun a arg => var_mem.mpr ⟨caller, args a arg⟩)
    (fun a arg p param => ?_) ?_
  · simp only [Encounter.constructFindings, each_append, each_cons, each_nil, each_linked,
      each_elim, each_stored, mentions_name prototype, Mentions, var_mem, field_mem, proto_mem,
      ofName_mem prototype, object, callee, caller, thisVar, function, true_and, and_true]
    exact fun v known => ⟨dst v known, dst v known⟩
  · have known : v ∈ u.vars := given.elim (receiver v) (args v)
    simp [Encounter.pass, Mentions, caller, callee, thisVar, known]
  · simp [Encounter.argumentFindings, Mentions, caller, callee, args a arg, params p param]
  · simp [Encounter.elementsFindings, Mentions, caller, callee, args a arg, params p param]
  · simp only [Encounter.resultFindings, each_elim]
    intro v known
    simp [Mentions, caller, callee, dst v known]

/-- What a demand looks at are places of the program. -/
theorem places_of_demand {object key p : Place Role}
    (member : .dynamicLoad object key p ∈ u.demands ∨ .dynamicStore object key p ∈ u.demands) :
    p ∈ u.places := by
  rcases member with member | member
  all_goals
    simp only [demands, List.mem_append, List.mem_map, reduceCtorEq, and_false, exists_false,
      false_or, or_false] at member
    obtain ⟨⟨⟨n, a⟩, b, c⟩, known, same⟩ := member
    cases same
    exact var_mem.mpr ⟨(mem_pairs.mp (mem_pairs.mp known).1).1,
      (mem_pairs.mp (mem_pairs.mp known).2).2⟩

/-- What a program is made of is never left by flow. -/
def scope (u : Setup) : Scope Role where
  names := u.spelled
  objects := u.objects
  places := u.places
  demands := u.demands
  texts _ := spelled_of_constant
  fields _ object _ slot := field_mem.mpr ⟨object, slot⟩
  loads _ slot _ place := load_mem.mpr ⟨slot, place⟩
  within d member := by
    cases d with
    | load s p => exact load_mem.mp member
    | store s p => exact store_mem.mp member
    | dynamicLoad object key p => exact places_of_demand (.inl member)
    | dynamicStore object key p => exact places_of_demand (.inr member)
    | invoke n pc d => trivial

theorem mentions_of_admits {j : Finding Role} (admitted : u.scope.Admits j) : u.Mentions j := by
  cases j <;> first | exact admitted | exact admitted.elim

/-- What flows mentions what the program is made of. -/
theorem flowing_mentions (u : Setup) : Solver.Flowing u.reflection u.Mentions where
  self := (u.scope.flowing u.reflection).self
  pass := (u.scope.flowing u.reflection).pass
  asked p d j attached asks :=
    mentions_of_admits ((u.scope.flowing u.reflection).asked p d j attached asks)

theorem mentions_builtins : Each u.Mentions Finding.builtins := by
  have call : "call" ∈ u.spelled := by simp [spelled]
  have apply : "apply" ∈ u.spelled := by simp [spelled]
  have method : ∀ m : String × Builtin, m.1 ∈ u.spelled → Each u.Mentions (Finding.method m) := by
    intro m known
    simp only [Finding.method, Finding.named, List.cons_append, each_cons, each_append, each_stored,
      mentions_name known, Mentions, field_mem, ofName_mem known, proto_mem, builtinObject_mem,
      and_self]
  simp only [Finding.builtins, each_append, each_cons, each_nil, each_stored, each_flatMap,
    Mentions, field_mem, proto_mem, builtinObject_mem, and_self, true_and]
  intro m member
  simp only [List.mem_cons, List.not_mem_nil, or_false] at member
  rcases member with rfl | rfl
  · exact method _ call
  · exact method _ apply

/-- Whatever follows mentions what the program is made of. -/
theorem Follows.mentions (wf : u.program.WellFormed) {j : Finding Role} (follows : u.Follows j) :
    u.Mentions j := by
  refine follows.least ?_
  intro ps j rule premises
  cases rule with
  | root => simp [Mentions, Role.root]
  | builtins member => exact mentions_builtins j member
  | @entry e _ here member =>
      obtain ⟨f, known⟩ :=
        wf.entries e.1 (List.mem_of_getElem? (List.mem_zipIdx_iff_getElem?.mp here))
      have each : Each u.Mentions (Finding.entry e) := by
        simp [Finding.entry, Mentions, ids_of_function wf known]
      exact each j member
  | flow rule => exact (flowing_mentions u).closed _ _ rule premises
  | visit member =>
      obtain ⟨f, body, pc, i, stands, member⟩ := mem_visitFindings.mp member
      exact mentions_instruction wf (premises _ List.mem_cons_self) body stands j member
  | dispatch member =>
      obtain ⟨node, place⟩ := invoke_mem.mp (premises _ List.mem_cons_self).2
      have object := (premises _ (List.mem_cons_of_mem _ List.mem_cons_self)).2
      exact mentions_dispatch wf node place object j member
  | bind member =>
      obtain ⟨f, call, g, body, here, entered, member⟩ := mem_bindFindings.mp member
      obtain ⟨caller, place, callee, function⟩ := premises _ List.mem_cons_self
      exact mentions_findings wf body here entered caller place callee function j member

end Setup

end CallFlow
