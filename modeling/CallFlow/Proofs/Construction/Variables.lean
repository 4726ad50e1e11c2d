import CallFlow.Proofs.Construction.Functions
import CallFlow.Proofs.Construction.Inflow

/-! What variables and results hold: exactly what the one definition of the variable brings, be it
an instruction, the calls that pass to it, or the functions that give their results to it. -/

namespace CallFlow

namespace Invocation

variable (call : Invocation) (held : VarId → AbstractObject → Prop)

/-- What a call passes as the receiver: a construction passes a fresh object. -/
def Receiver (fresh : AbstractObject) (d : Dispatch) (x : AbstractObject) : Prop :=
  if d = .direct ∧ call.kind = .construct then x = fresh
  else ∃ v, Construction.receiverVar? d call = some v ∧ held v x

/-- What a call passes as the argument at a place, where a list of arguments is read by the given
reads. -/
def Argument (element : AbstractObject → AbstractObject → Prop) (d : Dispatch) (k : Nat)
    (x : AbstractObject) : Prop :=
  match d with
  | .direct => ∃ v, call.args[k]? = some v ∧ held v x
  | .call => ∃ v, call.args[k + 1]? = some v ∧ held v x
  | .apply => ∃ v o, call.args[1]? = some v ∧ held v o ∧ element o x

end Invocation

theorem Encounter.receiverFindings_eq (h : HeapPolicy) (e : Encounter) (f : FunctionId)
    (call : Invocation) (receiver : Place Role) :
    e.receiverFindings h f call receiver =
      if e.dispatch = .direct ∧ call.kind = .construct then
        e.constructFindings h f receiver call.dst
      else (Construction.receiverVar? e.dispatch call).elim [] (e.pass receiver) := by
  unfold receiverFindings Construction.receiverVar?
  cases e.dispatch <;> cases call.kind <;> simp

namespace Setup

variable {u : Setup} {m : Role} {f : FunctionBody} {v : VarId}
  {allowed : AbstractObject → Prop} {o : AbstractObject}

theorem bodyOf?_eq_some_iff :
    u.bodyOf? m = some f ↔ ∃ g, m.1 = .function g ∧ u.program.function? g = some f := by
  obtain ⟨method, c⟩ := m
  cases method <;> simp [bodyOf?, Method.function?]

theorem distinct_of_body (wf : u.program.WellFormed) (body : u.bodyOf? m = some f) :
    f.defined.Nodup := by
  obtain ⟨g, -, here⟩ := bodyOf?_eq_some_iff.mp body
  exact wf.distinct g f here

theorem callOf?_eq_some_iff (body : u.bodyOf? m = some f) {pc : Nat} {call : Invocation} :
    u.callOf? m pc = some call ↔ f.instructions[pc]? = some (.invoke call) := by
  simp only [callOf?, body, Option.bind_some, FunctionBody.callAt?, FunctionBody.instruction?,
    Option.bind_eq_some_iff]
  constructor
  · rintro ⟨i, stands, found⟩
    cases i <;> cases found
    exact stands
  · exact fun stands => ⟨_, stands, rfl⟩

/-- What the definitions of a variable bring to it bounds what it holds. -/
theorem Follows.bounded_var (body : u.bodyOf? m = some f)
    (visit : ∀ (pc : Nat) (i : Instruction), f.instructions[pc]? = some i → i.defines? = some v →
      ∀ j ∈ i.findings u.heap m f.id pc, u.Feeds (.var m v) allowed j)
    (enter : ∀ (e : Encounter) (g : FunctionBody) (call : Invocation),
      u.Follows (.binding e.caller e.pc e.callee e.function e.dispatch) → e.callee = m →
      v = f.thisVar ∨ v ∈ f.params → u.bodyOf? e.caller = some g →
      u.callOf? e.caller e.pc = some call →
      ∀ j ∈ e.findings u.heap g.id call f, u.Feeds (.var m v) allowed j)
    (leave : ∀ (e : Encounter) (call : Invocation) (callee : FunctionBody),
      u.Follows (.binding e.caller e.pc e.callee e.function e.dispatch) → e.caller = m →
      u.callOf? m e.pc = some call → call.dst = some v → u.bodyOf? e.callee = some callee →
      ∀ j ∈ e.findings u.heap f.id call callee, u.Feeds (.var m v) allowed j)
    (held : u.Follows (.holds (.var m v) o)) : allowed o := by
  refine held.bounded allowed (by simp) ?_ ?_
  · -- a visit brings something to a variable only by an instruction that defines it
    intro n _ j member
    by_cases target : j.target? = some (.var m v)
    · obtain ⟨g, here, pc, i, stands, member⟩ := mem_visitFindings.mp member
      cases i.brings_findings u.heap n g.id pc j member _ target with
      | var defines =>
          rw [body] at here
          cases here
          exact visit pc i stands defines j member
    · exact feeds_of_target target
  · intro e binding j member
    by_cases target : j.target? = some (.var m v)
    · obtain ⟨g, call, callee, caller, found, entered, member⟩ := mem_bindFindings.mp member
      cases e.brings_findings u.heap g.id call callee j member _ target with
      | receiver =>
          rw [body] at entered
          cases entered
          exact enter e g call binding rfl (.inl rfl) caller found j member
      | param param =>
          rw [body] at entered
          cases entered
          exact enter e g call binding rfl (.inr param) caller found j member
      | dst dst =>
          rw [body] at caller
          cases caller
          exact leave e call callee binding rfl found dst entered j member
    · exact feeds_of_target target

theorem role_of_instruction {pc : Nat} {i : Instruction} (stands : f.instructions[pc]? = some i)
    (defines : i.defines? = some v) : (v, .instruction pc) ∈ f.definitions :=
  FunctionBody.mem_definitions_iff.mpr (.inr (.inr ⟨pc, i, stands, defines, rfl⟩))

theorem role_of_param (param : v ∈ f.params) : (v, .parameter) ∈ f.definitions :=
  FunctionBody.mem_definitions_iff.mpr (.inr (.inl ⟨param, rfl⟩))

theorem role_of_receiver : (f.thisVar, .receiver) ∈ f.definitions :=
  FunctionBody.mem_definitions_iff.mpr (.inl ⟨rfl, rfl⟩)

theorem defined_of_defines {pc : Nat} {i : Instruction} (stands : f.instructions[pc]? = some i)
    (defines : i.defines? = some v) : v ∈ f.defined :=
  List.mem_map.mpr ⟨_, role_of_instruction stands defines, rfl⟩

theorem defined_of_uses (wf : u.program.WellFormed) (body : u.bodyOf? m = some f) {i : Instruction}
    (stands : i ∈ f.instructions) (used : v ∈ i.uses) : v ∈ f.defined := by
  obtain ⟨g, -, here⟩ := bodyOf?_eq_some_iff.mp body
  exact wf.uses g f here i stands v used

/-- The variables of a call are defined in the function that makes it. -/
theorem defined_of_call (wf : u.program.WellFormed) {pc : Nat} {call : Invocation}
    (here : u.callOf? m pc = some call) :
    ∃ f, u.bodyOf? m = some f ∧ (∀ v, call.receiver = some v → v ∈ f.defined) ∧
      (∀ v ∈ call.args, v ∈ f.defined) ∧ ∀ v, call.dst = some v → v ∈ f.defined := by
  obtain ⟨f, body, -⟩ := Option.bind_eq_some_iff.mp here
  have stands := (callOf?_eq_some_iff body).mp here
  have used := fun v => defined_of_uses (v := v) wf body (List.mem_of_getElem? stands)
  simp only [Instruction.uses, List.cons_append, List.mem_cons, List.mem_append,
    Option.mem_toList] at used
  exact ⟨f, body, fun v receiver => used v (.inr (.inl receiver)),
    fun v arg => used v (.inr (.inr arg)), fun v dst => defined_of_defines stands dst⟩

section Definitions

variable {pc : Nat} (wf : u.program.WellFormed) (body : u.bodyOf? m = some f)

include body in
/-- A call defines the variable for its result. -/
theorem role_of_call {call : Invocation} (here : u.callOf? m pc = some call)
    (dst : call.dst = some v) : (v, .instruction pc) ∈ f.definitions :=
  role_of_instruction ((callOf?_eq_some_iff body).mp here) dst

include wf body

theorem definition_unique {r s : DefinitionRole} (here : (v, r) ∈ f.definitions)
    (there : (v, s) ∈ f.definitions) : r = s :=
  FunctionBody.role_unique (distinct_of_body wf body) here there

theorem receiver_apart (param : f.thisVar ∈ f.params) : False := by
  cases definition_unique wf body role_of_receiver (role_of_param param)

theorem call_apart_receiver {call : Invocation} (here : u.callOf? m pc = some call)
    (dst : call.dst = some f.thisVar) : False := by
  cases definition_unique wf body role_of_receiver (role_of_call body here dst)

theorem call_apart_param {call : Invocation} (here : u.callOf? m pc = some call)
    (dst : call.dst = some v) (param : v ∈ f.params) : False := by
  cases definition_unique wf body (role_of_param param) (role_of_call body here dst)

theorem bounded_instruction {i : Instruction} (stands : f.instructions[pc]? = some i)
    (defines : i.defines? = some v) (plain : i.call? = none)
    (feeds : ∀ j ∈ i.findings u.heap m f.id pc, u.Feeds (.var m v) allowed j)
    (held : u.Follows (.holds (.var m v) o)) : allowed o := by
  have role := role_of_instruction stands defines
  refine held.bounded_var body ?_ ?_ ?_
  · intro pc' i' stands' defines'
    cases definition_unique wf body role (role_of_instruction stands' defines')
    rw [stands] at stands'
    cases stands'
    exact feeds
  · rintro e g call - - (rfl | param)
    · cases definition_unique wf body role role_of_receiver
    · cases definition_unique wf body role (role_of_param param)
  · intro e call callee _ _ here dst
    cases definition_unique wf body role (role_of_call body here dst)
    rw [(callOf?_eq_some_iff body).mp here] at stands
    cases stands
    cases plain

/-- A receiver holds no more than calls pass to it. -/
theorem bounded_receiver (feeds : ∀ (e : Encounter) (g : FunctionBody) (call : Invocation),
      u.Follows (.binding e.caller e.pc e.callee e.function e.dispatch) → e.callee = m →
      u.bodyOf? e.caller = some g → u.callOf? e.caller e.pc = some call →
      ∀ j ∈ e.receiverFindings u.heap g.id call (.var m f.thisVar),
        u.Feeds (.var m f.thisVar) allowed j)
    (held : u.Follows (.holds (.var m f.thisVar) o)) : allowed o := by
  refine held.bounded_var body ?_ ?_ ?_
  · intro pc i stands defines
    cases definition_unique wf body role_of_receiver (role_of_instruction stands defines)
  · rintro e g call binding rfl - caller here j member
    simp only [Encounter.findings, List.cons_append, List.mem_cons, List.mem_append] at member
    rcases member with rfl | (member | member) | member
    · trivial
    · exact feeds e g call binding rfl caller here j member
    · refine feeds_of_brings (e.brings_arguments call f.params) ?_ member
      rintro ⟨v, param, same⟩
      cases same
      exact receiver_apart wf body param
    · refine feeds_of_brings (e.brings_result call) ?_ member
      rintro ⟨v, dst, same⟩
      obtain ⟨loop, rfl⟩ := Place.var.inj same
      exact call_apart_receiver wf body (loop ▸ here) dst
  · rintro e call callee - - here dst
    exact (call_apart_receiver wf body here dst).elim

/-- A parameter holds no more than calls pass to it. -/
theorem bounded_param (param : v ∈ f.params)
    (feeds : ∀ (e : Encounter) (call : Invocation),
      u.Follows (.binding e.caller e.pc e.callee e.function e.dispatch) → e.callee = m →
      u.callOf? e.caller e.pc = some call →
      ∀ j ∈ e.argumentsFindings call f.params, u.Feeds (.var m v) allowed j)
    (held : u.Follows (.holds (.var m v) o)) : allowed o := by
  refine held.bounded_var body ?_ ?_ ?_
  · intro pc i stands defines
    cases definition_unique wf body (role_of_param param) (role_of_instruction stands defines)
  · rintro e g call binding rfl - caller here j member
    simp only [Encounter.findings, List.cons_append, List.mem_cons, List.mem_append] at member
    rcases member with rfl | (member | member) | member
    · trivial
    · refine feeds_of_brings (e.brings_receiver call _ _ _) ?_ member
      rintro (same | ⟨v, dst, same⟩ | ⟨o, -, same⟩)
      · cases same
        exact receiver_apart wf body param
      · obtain ⟨loop, rfl⟩ := Place.var.inj same
        exact call_apart_param wf body (loop ▸ here) dst param
      · cases same
    · exact feeds e call binding rfl here j member
    · refine feeds_of_brings (e.brings_result call) ?_ member
      rintro ⟨v, dst, same⟩
      obtain ⟨loop, rfl⟩ := Place.var.inj same
      exact call_apart_param wf body (loop ▸ here) dst param
  · rintro e call callee - - here dst
    exact (call_apart_param wf body here dst param).elim

variable (allowed) in
/-- The variable for the result of a call holds no more than what the call runs gives back, and what
it allocates. -/
theorem bounded_result {call : Invocation} (here : u.callOf? m pc = some call)
    (dst : call.dst = some v)
    (feeds : ∀ (e : Encounter) (callee : FunctionBody),
      u.Follows (.binding e.caller e.pc e.callee e.function e.dispatch) → e.caller = m → e.pc = pc →
      u.bodyOf? e.callee = some callee →
      (∀ j ∈ e.receiverFindings u.heap f.id call (.var e.callee callee.thisVar),
        u.Feeds (.var m v) allowed j) ∧
      ∀ j ∈ e.resultFindings call, u.Feeds (.var m v) allowed j)
    (held : u.Follows (.holds (.var m v) o)) : allowed o := by
  refine held.bounded_var body ?_ ?_ ?_
  · intro pc' i stands defines
    cases definition_unique wf body (role_of_call body here dst)
      (role_of_instruction stands defines)
    rw [(callOf?_eq_some_iff body).mp here] at stands
    cases stands
    intro j member
    simp only [Instruction.findings, List.mem_cons, List.not_mem_nil, or_false] at member
    rcases member with rfl | rfl | rfl <;> trivial
  · rintro e g call' - - (rfl | param)
    · exact (call_apart_receiver wf body here dst).elim
    · exact (call_apart_param wf body here dst param).elim
  · rintro e call' callee binding rfl found dst' entered j member
    cases definition_unique wf body (role_of_call body here dst) (role_of_call body found dst')
    rw [here] at found
    cases found
    obtain ⟨receiver, result⟩ := feeds e callee binding rfl rfl entered
    simp only [Encounter.findings, List.cons_append, List.mem_cons, List.mem_append] at member
    rcases member with rfl | (member | member) | member
    · trivial
    · exact receiver j member
    · -- a parameter is another variable than the one for the result, even where the call
      -- runs the function that makes it
      refine feeds_of_brings (e.brings_arguments call callee.params) ?_ member
      rintro ⟨w, param, same⟩
      obtain ⟨loop, rfl⟩ := Place.var.inj same
      rw [← loop, body] at entered
      cases entered
      exact call_apart_param wf body here dst param
    · exact result j member

end Definitions

/-- A call of a node is bound to a node that it runs, which it finds in some way. -/
structure Binds (u : Setup) (n : Role) (g : FunctionBody) (pc : Nat) (call : Invocation)
    (d : Dispatch) (m : Role) : Prop where
  caller : u.bodyOf? n = some g
  here : u.callOf? n pc = some call
  bound : ∃ o, u.Follows (.binding n pc m o d)

variable {n : Role} {g : FunctionBody} {pc : Nat} {call : Invocation} {d : Dispatch}
  {x : AbstractObject}

/-- All that connecting a call asks for follows. -/
theorem Binds.follows (binds : u.Binds n g pc call d m) (body : u.bodyOf? m = some f) :
    ∃ o, ∀ j ∈ Encounter.findings u.heap ⟨n, pc, m, o, d⟩ g.id call f, u.Follows j := by
  obtain ⟨o, binding⟩ := binds.bound
  refine ⟨o, fun j member => (Derivable.closed u.Rule).of_one (.bind ?_) binding⟩
  exact mem_bindFindings.mpr ⟨g, call, f, binds.caller, binds.here, body, member⟩

def Receivers (u : Setup) (m : Role) (x : AbstractObject) : Prop :=
  ∃ n g pc call d, u.Binds n g pc call d m ∧
    call.Receiver (u.Held n) (u.heap.allocation ⟨g.id, pc, .object⟩ n.2) d x

def Arguments (u : Setup) (m : Role) (k : Nat) (x : AbstractObject) : Prop :=
  ∃ n g pc call d, u.Binds n g pc call d m ∧
    call.Argument (u.Held n) (Slot.element.Reads u.Fields u.reflection) d k x

theorem follows_flow {p q : Place Role} (linked : u.Follows (.flows p q))
    (held : u.Follows (.holds p x)) : u.Follows (.holds q x) :=
  (Derivable.closed u.Rule).of_two (.flow .pass) linked held

theorem Receivers.held (body : u.bodyOf? m = some f) (passed : u.Receivers m x) :
    u.Held m f.thisVar x := by
  obtain ⟨n, g, pc, call, d, binds, given⟩ := passed
  obtain ⟨o, all⟩ := binds.follows body
  have part : ∀ j ∈ Encounter.receiverFindings u.heap ⟨n, pc, m, o, d⟩ g.id call
      (.var m f.thisVar), u.Follows j := fun j member => all j (by
    simp [Encounter.findings, member])
  rw [Encounter.receiverFindings_eq] at part
  unfold Invocation.Receiver at given
  split at given
  · rename_i construct
    rw [if_pos construct] at part
    subst given
    exact part _ (by simp [Encounter.constructFindings])
  · rename_i plain
    rw [if_neg plain] at part
    obtain ⟨v, var, held⟩ := given
    have linked := part (.flows (.var n v) (.var m f.thisVar)) (by simp [var, Encounter.pass])
    exact follows_flow linked held

/-- The receiver of a function holds just what calls pass to it. -/
theorem follows_receiver_iff (wf : u.program.WellFormed) (body : u.bodyOf? m = some f) :
    u.Held m f.thisVar x ↔ u.Receivers m x := by
  constructor
  · refine bounded_receiver wf body ?_
    intro e g call binding callee caller here
    have binds : u.Binds e.caller g e.pc call e.dispatch m :=
      ⟨caller, here, e.function, callee ▸ binding⟩
    rw [Encounter.receiverFindings_eq]
    split
    · rename_i construct
      have apart : ∀ w, call.dst = some w → Place.var e.caller w ≠ .var m f.thisVar := by
        intro w dst same
        obtain ⟨loop, rfl⟩ := Place.var.inj same
        exact call_apart_receiver wf body (loop ▸ here) dst
      have fresh : u.Receivers m (u.heap.allocation ⟨g.id, e.pc, .object⟩ e.caller.2) :=
        ⟨_, _, _, _, _, binds, by simp only [Invocation.Receiver, construct, and_self, ↓reduceIte]⟩
      change Each _ _
      simp only [Encounter.constructFindings, each_append, each_cons, each_nil, and_true,
        each_mentions, each_linked, each_elim, each_stored]
      refine ⟨⟨⟨⟨trivial, fun _ => fresh⟩, fun _ _ => trivial⟩, trivial, trivial, ?_⟩, ?_⟩
      · exact fun same => by cases same
      · exact fun w dst => ⟨trivial, fun same => absurd same (apart w dst)⟩
    · rename_i plain
      change Each _ _
      rw [each_elim]
      intro w var
      simp only [Encounter.pass, each_cons, each_nil, and_true]
      refine ⟨trivial, fun _ => .inr fun o held => ⟨_, _, _, _, _, binds, ?_⟩⟩
      simp only [Invocation.Receiver, plain, ↓reduceIte]
      exact ⟨w, var, held⟩
  · exact fun passed => passed.held body

theorem getElem?_of_mem_zip {as ps : List VarId} (distinct : ps.Nodup) {a p : VarId} {k : Nat}
    (member : (a, p) ∈ as.zip ps) (here : ps[k]? = some p) : as[k]? = some a := by
  obtain ⟨i, found⟩ := List.mem_iff_getElem?.mp member
  obtain ⟨argument, param⟩ := List.getElem?_zip_eq_some.mp found
  have bound : i < ps.length := (List.getElem?_eq_some_iff.mp param).1
  obtain rfl := (List.getElem?_inj bound distinct).mp (param.trans here.symm)
  exact argument

theorem mem_zip_of_getElem? {as ps : List VarId} {a p : VarId} {k : Nat}
    (argument : as[k]? = some a) (param : ps[k]? = some p) : (a, p) ∈ as.zip ps :=
  List.mem_iff_getElem?.mpr ⟨k, List.getElem?_zip_eq_some.mpr ⟨argument, param⟩⟩

theorem Arguments.held (body : u.bodyOf? m = some f) {k : Nat} (param : f.params[k]? = some v)
    (passed : u.Arguments m k x) : u.Held m v x := by
  obtain ⟨n, g, pc, call, d, binds, given⟩ := passed
  obtain ⟨o, all⟩ := binds.follows body
  have part : ∀ j ∈ Encounter.argumentsFindings ⟨n, pc, m, o, d⟩ call f.params, u.Follows j :=
    fun j member => all j (by simp [Encounter.findings, member])
  have passed : ∀ as : List VarId, (∃ a, as[k]? = some a ∧ u.Held n a x) →
      (∀ j ∈ (as.zip f.params).flatMap (Encounter.argumentFindings ⟨n, pc, m, o, d⟩),
        u.Follows j) → u.Held m v x := by
    rintro as ⟨a, argument, held⟩ follows
    have linked := follows (.flows (.var n a) (.var m v)) (List.mem_flatMap.mpr
      ⟨_, mem_zip_of_getElem? argument param, by simp [Encounter.argumentFindings, Finding.linked]⟩)
    exact follows_flow linked held
  cases d with
  | direct => exact passed call.args given part
  | call =>
      refine passed (call.args.drop 1) ?_ part
      obtain ⟨a, argument, held⟩ := given
      refine ⟨a, ?_, held⟩
      rw [List.getElem?_drop, Nat.add_comm]
      exact argument
  | apply =>
      obtain ⟨array, o', argument, held, reads⟩ := given
      refine follows_of_load (part _ ?_) held reads
      simp only [Encounter.argumentsFindings, argument, Option.elim_some]
      refine List.mem_cons_of_mem _ (List.mem_flatMap.mpr ⟨v, List.mem_of_getElem? param, ?_⟩)
      simp [Encounter.elementsFindings]

/-- A parameter holds just what calls pass to it. -/
theorem follows_param_iff (wf : u.program.WellFormed) (body : u.bodyOf? m = some f) {k : Nat}
    (param : f.params[k]? = some v) : u.Held m v x ↔ u.Arguments m k x := by
  have distinct := FunctionBody.params_nodup (distinct_of_body wf body)
  constructor
  · refine bounded_param wf body (List.mem_of_getElem? param) ?_
    intro e call binding callee here
    obtain ⟨g, caller, -⟩ := Option.bind_eq_some_iff.mp here
    have binds : u.Binds e.caller g e.pc call e.dispatch m :=
      ⟨caller, here, e.function, callee ▸ binding⟩
    have zipped : ∀ as : List VarId, (∀ a, as[k]? = some a → ∀ o, u.Held e.caller a o →
          u.Arguments m k o) →
        Each (u.Feeds (.var m v) (u.Arguments m k))
          ((as.zip f.params).flatMap e.argumentFindings) := by
      intro as given
      rw [each_flatMap]
      rintro ⟨a, p⟩ member
      simp only [Encounter.argumentFindings, each_linked]
      refine ⟨trivial, trivial, fun same => .inr fun o held => ?_⟩
      obtain ⟨-, rfl⟩ := Place.var.inj same
      exact given a (getElem?_of_mem_zip distinct member param) o held
    change Each _ _
    unfold Encounter.argumentsFindings
    split
    · rename_i way
      refine zipped call.args fun a argument o held => ⟨_, _, _, _, _, binds, ?_⟩
      simp only [Invocation.Argument, way]
      exact ⟨a, argument, held⟩
    · rename_i way
      refine zipped (call.args.drop 1) fun a argument o held => ⟨_, _, _, _, _, binds, ?_⟩
      simp only [Invocation.Argument, way]
      rw [List.getElem?_drop, Nat.add_comm] at argument
      exact ⟨a, argument, held⟩
    · rename_i way
      rw [each_elim]
      intro array argument
      simp only [each_cons, each_flatMap, Encounter.elementsFindings, each_nil, and_true]
      refine ⟨trivial, fun p _ => ⟨trivial, fun _ o x held reads => ⟨_, _, _, _, _, binds, ?_⟩⟩⟩
      simp only [Invocation.Argument, way]
      exact ⟨array, o, argument, held, reads⟩
  · exact fun passed => passed.held body param

theorem Binds.exists_callee (wf : u.program.WellFormed) (binds : u.Binds n g pc call d m) :
    ∃ f, u.bodyOf? m = some f := by
  obtain ⟨o, binding⟩ := binds.bound
  obtain ⟨-, call', h, -, finds, function, rfl⟩ := follows_binding_iff.mp binding
  have owned : ∃ f, u.program.function? h = some f := by
    cases finds with
    | direct held => exact Follows.owns wf held h function
    | receiver _ _ _ _ held => exact Follows.owns wf held h function
  obtain ⟨f, here⟩ := owned
  exact ⟨f, bodyOf?_eq_some_iff.mpr ⟨h, rfl, here⟩⟩

theorem follows_instruction (node : u.Follows (.node m)) (body : u.bodyOf? m = some f)
    {i : Instruction} (stands : f.instructions[pc]? = some i) :
    ∀ j ∈ i.findings u.heap m f.id pc, u.Follows j := by
  refine fun j member => (Derivable.closed u.Rule).of_one (.visit ?_) node
  exact mem_visitFindings.mpr ⟨f, body, pc, i, stands, member⟩

/-- The result of a function holds just what the function gives back. -/
theorem follows_result_iff (node : u.Follows (.node m)) (body : u.bodyOf? m = some f) :
    u.Follows (.holds (.result m) x) ↔ ∃ v, .ret (some v) ∈ f.instructions ∧ u.Held m v x := by
  constructor
  · refine Follows.bounded (fun x => ∃ v, .ret (some v) ∈ f.instructions ∧ u.Held m v x) ?_ ?_ ?_
    · simp
    · intro n _ j member
      by_cases target : j.target? = some (.result m)
      · obtain ⟨g, here, pc, i, stands, member⟩ := mem_visitFindings.mp member
        cases i.brings_findings u.heap n g.id pc j member _ target with
        | @result v =>
            rw [body] at here
            cases here
            simp only [Instruction.findings, Finding.linked, List.mem_cons, List.not_mem_nil,
              or_false] at member
            rcases member with rfl | rfl | rfl
            · trivial
            · trivial
            · exact fun _ => .inr fun o held => ⟨v, List.mem_of_getElem? stands, held⟩
      · exact feeds_of_target target
    · intro e _ j member
      refine feeds_of_brings (brings_bind e) ?_ member
      rintro ⟨call, callee, -, -, targets⟩
      cases targets
  · rintro ⟨v, member, held⟩
    obtain ⟨pc, stands⟩ := List.mem_iff_getElem?.mp member
    refine follows_flow (follows_instruction node body stands _ ?_) held
    simp [Instruction.findings, Finding.linked]

/-- The variable for the result of a call holds just what the functions give back that the call
runs, and what it allocates. -/
theorem follows_dst_iff (wf : u.program.WellFormed) (body : u.bodyOf? m = some f)
    (here : u.callOf? m pc = some call) (dst : call.dst = some v) : u.Held m v x ↔
      (∃ d n, u.Binds m f pc call d n ∧ u.Follows (.holds (.result n) x)) ∨
      call.kind = .construct ∧ (∃ n, u.Binds m f pc call .direct n) ∧
        x = u.heap.allocation ⟨f.id, pc, .object⟩ m.2 := by
  constructor
  · refine bounded_result (fun x =>
      (∃ d n, u.Binds m f pc call d n ∧ u.Follows (.holds (.result n) x)) ∨
      call.kind = .construct ∧ (∃ n, u.Binds m f pc call .direct n) ∧
        x = u.heap.allocation ⟨f.id, pc, .object⟩ m.2) wf body here dst ?_
    rintro e callee binding rfl rfl entered
    have binds : u.Binds e.caller f e.pc call e.dispatch e.callee :=
      ⟨body, here, e.function, binding⟩
    -- where a function calls itself, receiver and result are in one node, but two variables
    have apart : Place.var e.callee callee.thisVar ≠ .var e.caller v := by
      intro same
      obtain ⟨loop, rfl⟩ := Place.var.inj same
      rw [loop, body] at entered
      cases entered
      exact call_apart_receiver wf body here dst
    constructor
    · rw [Encounter.receiverFindings_eq]
      change Each _ _
      split
      · rename_i construct
        simp only [Encounter.constructFindings, each_append, each_cons, each_nil, and_true,
          each_mentions, each_linked, each_elim, each_stored]
        refine ⟨⟨⟨⟨trivial, fun same => absurd same apart⟩, fun _ _ => trivial⟩,
          trivial, trivial, ?_⟩,
          fun w _ => ⟨trivial, fun _ => .inr ⟨construct.2, ⟨_, construct.1 ▸ binds⟩, rfl⟩⟩⟩
        exact fun same => by cases same
      · rw [each_elim]
        intro w var
        simp only [Encounter.pass, each_cons, each_nil, and_true]
        exact ⟨trivial, fun same => absurd same apart⟩
    · change Each _ _
      simp only [Encounter.resultFindings, each_elim, each_linked]
      exact fun w _ => ⟨trivial, trivial, fun _ => .inr fun o held => .inl ⟨_, _, binds, held⟩⟩
  · rintro (⟨d, n, binds, held⟩ | ⟨construct, ⟨n, binds⟩, rfl⟩)
    · obtain ⟨callee, entered⟩ := binds.exists_callee wf
      obtain ⟨o, all⟩ := binds.follows entered
      refine follows_flow (all (.flows (.result n) (.var m v)) ?_) held
      simp [Encounter.findings, Encounter.resultFindings, dst, Finding.linked]
    · obtain ⟨callee, entered⟩ := binds.exists_callee wf
      obtain ⟨o, all⟩ := binds.follows entered
      refine all _ ?_
      simp [Encounter.findings, Encounter.receiverFindings, construct, Encounter.constructFindings,
        dst, Finding.stored]

end Setup

end CallFlow
