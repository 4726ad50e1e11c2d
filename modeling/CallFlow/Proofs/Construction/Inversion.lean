import CallFlow.Proofs.Construction.Findings

/-! By which rules calls are resolved. A call finds an object directly if its callee holds it, and
through `call` or `apply` if its receiver does. -/

namespace CallFlow

def Builtin.dispatch? : Builtin → Option Dispatch
  | .call => some .call
  | .apply => some .apply
  | .objectPrototype | .functionPrototype => none

/-- What a call finds to run, when variables hold the given objects. -/
inductive Invocation.Finds (callsReceiver : Bool) (held : VarId → AbstractObject → Prop)
    (call : Invocation) : Dispatch → AbstractObject → Prop
  | direct {o} : held call.callee o → Finds callsReceiver held call .direct o
  | receiver {b d v o} : callsReceiver = true → held call.callee (.builtin b) →
      b.dispatch? = some d → call.receiver = some v → held v o → Finds callsReceiver held call d o

namespace AbstractObject

variable {callsReceiver : Bool} {d : Dispatch} {o : AbstractObject}

theorem classify_eq_function_iff {f : FunctionId} :
    o.classify callsReceiver d = some (.function f) ↔ o.function? = some f := by
  unfold classify
  cases o with
  | allocation site context =>
      obtain ⟨g, pc, kind⟩ := site
      cases kind <;> simp [function?, builtin?]
  | constant value => simp [function?, builtin?]
  | constantKind kind => simp [function?, builtin?]
  | builtin b => cases b <;> simp [function?, builtin?] <;> split <;> simp

theorem classify_eq_builtin_iff {b : Builtin} :
    o.classify callsReceiver d = some (.builtin b) ↔
      o = .builtin b ∧ b.isCallable = true ∧ (callsReceiver = false ∨ d ≠ .direct) := by
  unfold classify
  cases o with
  | allocation site context =>
      obtain ⟨g, pc, kind⟩ := site
      cases kind <;> simp [function?, builtin?]
  | constant value => simp [function?, builtin?]
  | constantKind kind => simp [function?, builtin?]
  | builtin c =>
      cases c <;> cases b <;> cases callsReceiver <;> cases d <;>
        simp [function?, builtin?, Builtin.isCallable]

theorem classify_eq_reflective_iff {d' : Dispatch} :
    o.classify callsReceiver d = some (.reflective d') ↔
      callsReceiver = true ∧ d = .direct ∧ ∃ b, o = .builtin b ∧ b.dispatch? = some d' := by
  unfold classify
  cases o with
  | allocation site context =>
      obtain ⟨g, pc, kind⟩ := site
      cases kind <;> simp [function?, builtin?]
  | constant value => simp [function?, builtin?]
  | constantKind kind => simp [function?, builtin?]
  | builtin c =>
      cases c <;> cases callsReceiver <;> cases d <;> cases d' <;>
        simp [function?, builtin?, Builtin.dispatch?]

end AbstractObject

/-- Whether a finding is about nodes and calls. -/
def Finding.isControl : Finding Role → Bool
  | .node _ | .site _ _ | .edge _ _ _ | .binding _ _ _ _ _ | .attached _ (.invoke _ _ _) => true
  | _ => false

/-- Whether a finding is about the graph. -/
def Finding.isGraph : Finding Role → Bool
  | .node _ | .site _ _ | .edge _ _ _ => true
  | _ => false

variable {u : Setup} {j : Finding Role}

theorem isControl_of_isGraph (graph : j.isGraph = true) : j.isControl = true := by
  cases j with
  | node n => rfl
  | site n site => rfl
  | edge n site m => rfl
  | _ => cases graph

/-- The rules of flow find out about objects only. -/
theorem isControl_of_flow {r : Reflection} {ps : List (Finding Role)} (rule : FlowRule r ps j) :
    j.isControl = false :=
  rule.of_parts (P := (·.isControl = false)) (fun _ => rfl) (fun _ _ => rfl) (fun _ _ _ => rfl)
    (fun _ _ _ => rfl) fun _ _ _ _ => rfl

theorem isControl_of_builtins : Each (·.isControl = false) Finding.builtins := by
  simp [Finding.builtins, Finding.method, Finding.named, Finding.isControl]

/-- Binding a call finds out about objects only. -/
theorem isControl_of_bind (e : Encounter) : Each (·.isControl = false) (u.bindFindings e) := by
  intro j member
  obtain ⟨f, call, callee, -, -, -, member⟩ := Setup.mem_bindFindings.mp member
  refine Encounter.each_findings (P := (·.isControl = false)) ?_ ?_ ?_ ?_ ?_ ?_ ?_ j member <;>
    simp [Encounter.constructFindings, Encounter.pass, Encounter.argumentFindings,
      Encounter.elementsFindings, Encounter.resultFindings, Finding.isControl]

/-- How a finding about nodes and calls is found out from what is known: it is about the root or an
entry point, or a visit or a dispatch finds it out. -/
inductive Setup.Grounds (u : Setup) (known : Finding Role → Prop) : Finding Role → Prop
  | root : Grounds u known (.node .root)
  | entry {e j} : e ∈ u.program.entryPoints.zipIdx → j ∈ Finding.entry e → Grounds u known j
  | visit {n j} : known (.node n) → j ∈ u.visitFindings n → Grounds u known j
  | dispatch {p n pc d o j} : known (.attached p (.invoke n pc d)) → known (.holds p o) →
      j ∈ u.dispatchFindings n pc d o → Grounds u known j

theorem Setup.Grounds.mono {known later : Finding Role → Prop} (grows : ∀ j, known j → later j)
    (grounds : u.Grounds known j) : u.Grounds later j := by
  cases grounds with
  | root => exact .root
  | entry here member => exact .entry here member
  | visit node member => exact .visit (grows _ node) member
  | dispatch waits held member => exact .dispatch (grows _ waits) (grows _ held) member

/-- All that is known about nodes and calls was found out from what is known. -/
def Setup.Grounded (u : Setup) (known : Finding Role → Prop) : Prop :=
  ∀ j, known j → j.isControl = true → u.Grounds known j

theorem Setup.grounded_follows (u : Setup) : u.Grounded u.Follows := by
  intro j follows control
  obtain ⟨ps, rule, premises⟩ := Derivable.inversion follows
  cases rule with
  | root => exact .root
  | builtins member => exact absurd (isControl_of_builtins j member) (by simp [control])
  | entry here member => exact .entry here member
  | flow rule => exact absurd (isControl_of_flow rule) (by simp [control])
  | visit member => exact .visit (premises _ List.mem_cons_self) member
  | dispatch member =>
      exact .dispatch (premises _ List.mem_cons_self)
        (premises _ (List.mem_cons_of_mem _ List.mem_cons_self)) member
  | bind member => exact absurd (isControl_of_bind _ j member) (by simp [control])

/-- Of the instructions, calls alone find out about nodes and calls. -/
theorem Instruction.isControl_of_findings {h : HeapPolicy} {n : Role} {f : FunctionId} {pc : Nat}
    {i : Instruction} (plain : i.call? = none) :
    Each (·.isControl = false) (i.findings h n f pc) := by
  cases i with
  | invoke call => cases plain
  | ret value => cases value <;> simp [Instruction.findings, Finding.isControl]
  | _ =>
      simp [Instruction.findings, Finding.named, Finding.inherits, Finding.isControl]

theorem Instruction.mem_findings_iff {h : HeapPolicy} {n : Role} {f : FunctionId} {pc : Nat}
    {i : Instruction} (control : j.isControl = true) :
    j ∈ i.findings h n f pc ↔ ∃ call, i = .invoke call ∧
      (j = .site n ⟨pc, call.kind⟩ ∨
        j = .attached (.var n call.callee) (.invoke n pc .direct)) := by
  constructor
  · intro member
    cases called : i.call? with
    | none => exact absurd (isControl_of_findings called j member) (by simp [control])
    | some call =>
        cases i <;> cases called
        simp only [Instruction.findings, List.mem_cons, List.not_mem_nil, or_false] at member
        rcases member with rfl | rfl | rfl
        · exact ⟨call, rfl, .inl rfl⟩
        · cases control
        · exact ⟨call, rfl, .inr rfl⟩
  · rintro ⟨call, rfl, rfl | rfl⟩ <;> simp [Instruction.findings]

theorem Setup.mem_visitFindings_iff {n : Role} (control : j.isControl = true) :
    j ∈ u.visitFindings n ↔ ∃ pc call, u.callOf? n pc = some call ∧
      (j = .site n ⟨pc, call.kind⟩ ∨
        j = .attached (.var n call.callee) (.invoke n pc .direct)) := by
  unfold Setup.visitFindings Setup.callOf?
  cases u.bodyOf? n with
  | none => simp
  | some f =>
      simp only [Option.elim_some, Option.bind_some, List.mem_flatMap, Prod.exists,
        List.mem_zipIdx_iff_getElem?, Instruction.mem_findings_iff control]
      constructor
      · rintro ⟨i, pc, stands, call, rfl, found⟩
        refine ⟨pc, call, ?_, found⟩
        simp [FunctionBody.callAt?, FunctionBody.instruction?, stands, Instruction.call?]
      · rintro ⟨pc, call, here, found⟩
        obtain ⟨i, stands, call'⟩ := Option.bind_eq_some_iff.mp here
        cases i <;> cases call'
        exact ⟨_, pc, stands, call, rfl, found⟩

namespace Setup

def calleeOf (u : Setup) (n : Role) (pc : Nat) (kind : CallKind) (d : Dispatch) (g : FunctionId) :
    Role :=
  (.function g, u.algorithm.contextOf n.1 ⟨pc, kind⟩ d)

def Held (u : Setup) (n : Role) (v : VarId) (o : AbstractObject) : Prop :=
  u.Follows (.holds (.var n v) o)

variable {n m : Role} {pc : Nat} {d : Dispatch} {o : AbstractObject} {p : Place Role}

/-- What a call finds out about nodes and calls when it finds an object. -/
theorem mem_dispatchFindings_iff (control : j.isControl = true) :
    j ∈ u.dispatchFindings n pc d o ↔ ∃ call, u.callOf? n pc = some call ∧
      ((∃ g, o.function? = some g ∧
          (j = .binding n pc (u.calleeOf n pc call.kind d g) o d ∨
            j ∈ Finding.run n ⟨pc, call.kind⟩ (u.calleeOf n pc call.kind d g))) ∨
        (∃ b, o = .builtin b ∧ b.isCallable = true ∧ (u.callsReceiver = false ∨ d ≠ .direct) ∧
          j ∈ Finding.run n ⟨pc, call.kind⟩ (.builtin b, .everywhere)) ∨
        u.callsReceiver = true ∧ d = .direct ∧ ∃ b d' v, o = .builtin b ∧
          b.dispatch? = some d' ∧ call.receiver = some v ∧
          j = .attached (.var n v) (.invoke n pc d')) := by
  unfold dispatchFindings
  cases u.callOf? n pc with
  | none => simp
  | some call =>
      simp only [Option.some.injEq, exists_eq_left']
      constructor
      · intro member
        cases means : o.classify u.callsReceiver d with
        | none => simp [means] at member
        | some k =>
            cases k with
            | function g =>
                simp only [means, List.mem_cons] at member
                exact .inl ⟨g, AbstractObject.classify_eq_function_iff.mp means, member⟩
            | builtin b =>
                simp only [means] at member
                obtain ⟨same, callable, plain⟩ := AbstractObject.classify_eq_builtin_iff.mp means
                exact .inr (.inl ⟨b, same, callable, plain, member⟩)
            | reflective d' =>
                simp only [means] at member
                obtain ⟨receives, direct, b, same, way⟩ :=
                  AbstractObject.classify_eq_reflective_iff.mp means
                cases receiver : call.receiver with
                | none => simp [receiver] at member
                | some v =>
                    simp only [receiver, Option.elim_some, List.mem_cons, List.not_mem_nil,
                      or_false] at member
                    rcases member with rfl | rfl
                    · -- that the place of the receiver is known is no finding about calls
                      cases control
                    · exact .inr (.inr ⟨receives, direct, b, d', v, same, way, rfl, rfl⟩)
      · rintro (⟨g, runs, found⟩ | ⟨b, same, callable, plain, found⟩ |
          ⟨receives, direct, b, d', v, same, way, receiver, rfl⟩)
        · simp only [AbstractObject.classify_eq_function_iff.mpr runs, List.mem_cons]
          exact found
        · simp only [AbstractObject.classify_eq_builtin_iff.mpr ⟨same, callable, plain⟩]
          exact found
        · simp only [AbstractObject.classify_eq_reflective_iff.mpr ⟨receives, direct, b, same, way⟩,
            receiver, Option.elim_some]
          exact List.mem_cons_of_mem _ List.mem_cons_self

section Grounded

variable {known : Finding Role → Prop}

/-- A call waits at its callee, or at its receiver if its callee may hold a built-in function that
runs the receiver. -/
theorem Grounded.waiting (grounded : u.Grounded known)
    (waits : known (.attached p (.invoke n pc d))) : ∃ call, u.callOf? n pc = some call ∧
      (known (.node n) ∧ d = .direct ∧ p = .var n call.callee ∨
        u.callsReceiver = true ∧ ∃ q b v, known (.attached q (.invoke n pc .direct)) ∧
          known (.holds q (.builtin b)) ∧ b.dispatch? = some d ∧ call.receiver = some v ∧
          p = .var n v) := by
  cases grounded _ waits rfl with
  | entry here member => simp [Finding.entry, Finding.run] at member
  | visit node member =>
      obtain ⟨pc', call, here, same | same⟩ := (mem_visitFindings_iff rfl).mp member
      · cases same
      · cases same
        exact ⟨call, here, .inl ⟨node, rfl, rfl⟩⟩
  | dispatch attached held member =>
      obtain ⟨call, here, ⟨g, -, same | run⟩ | ⟨b, -, -, -, run⟩ |
        ⟨receives, rfl, b, d', v, rfl, way, receiver, same⟩⟩ :=
        (mem_dispatchFindings_iff rfl).mp member
      · cases same
      · simp [Finding.run] at run
      · simp [Finding.run] at run
      · cases same
        exact ⟨call, here, .inr ⟨receives, _, b, v, attached, held, way, receiver, rfl⟩⟩

/-- A call that waits for functions is one of a node. -/
theorem Grounded.direct (grounded : u.Grounded known)
    (waits : known (.attached p (.invoke n pc .direct))) :
    known (.node n) ∧ ∃ call, u.callOf? n pc = some call ∧ p = .var n call.callee := by
  obtain ⟨call, here, ⟨node, -, place⟩ | ⟨-, q, b, v, -, -, way, -⟩⟩ := grounded.waiting waits
  · exact ⟨node, call, here, place⟩
  · cases b <;> cases way

/-- What a place holds at which a call waits, the call finds. -/
theorem Grounded.finds (grounded : u.Grounded known)
    (waits : known (.attached p (.invoke n pc d))) (held : known (.holds p o)) :
    known (.node n) ∧ ∃ call, u.callOf? n pc = some call ∧
      call.Finds u.callsReceiver (fun v x => known (.holds (.var n v) x)) d o := by
  obtain ⟨call, here, ⟨node, rfl, rfl⟩ |
      ⟨receives, q, b, v, attached, found, way, receiver, rfl⟩⟩ := grounded.waiting waits
  · exact ⟨node, call, here, .direct held⟩
  · obtain ⟨node, call', there, rfl⟩ := grounded.direct attached
    obtain rfl := Option.some.inj (here.symm.trans there)
    exact ⟨node, call, here, .receiver receives found way receiver held⟩

end Grounded

/-- The callee of a call that a node makes waits for functions. -/
theorem follows_direct_iff : u.Follows (.attached p (.invoke n pc .direct)) ↔
    u.Follows (.node n) ∧ ∃ call, u.callOf? n pc = some call ∧ p = .var n call.callee := by
  constructor
  · exact u.grounded_follows.direct
  · rintro ⟨node, call, found, rfl⟩
    refine (Derivable.closed u.Rule).of_one (.visit ?_) node
    exact (mem_visitFindings_iff rfl).mpr ⟨pc, call, found, .inr rfl⟩

/-- A call finds an object if one of the places where it waits holds the object. -/
theorem finds_iff : (∃ p, u.Follows (.attached p (.invoke n pc d)) ∧ u.Follows (.holds p o)) ↔
    u.Follows (.node n) ∧ ∃ call, u.callOf? n pc = some call ∧
      call.Finds u.callsReceiver (u.Held n) d o := by
  constructor
  · exact fun ⟨p, attached, held⟩ => u.grounded_follows.finds attached held
  · rintro ⟨node, call, here, finds⟩
    have waits := follows_direct_iff.mpr ⟨node, call, here, rfl⟩
    cases finds with
    | direct held => exact ⟨_, waits, held⟩
    | receiver receives callee way receiver held =>
        refine ⟨.var n _, (Derivable.closed u.Rule).of_two (.dispatch ?_) waits callee, held⟩
        exact (mem_dispatchFindings_iff rfl).mpr
          ⟨call, here, .inr (.inr ⟨receives, rfl, _, _, _, rfl, way, receiver, rfl⟩)⟩

/-- A call is bound to the functions of the function objects that it finds. -/
theorem follows_binding_iff : u.Follows (.binding n pc m o d) ↔
    u.Follows (.node n) ∧ ∃ call g, u.callOf? n pc = some call ∧
      call.Finds u.callsReceiver (u.Held n) d o ∧ o.function? = some g ∧
      m = u.calleeOf n pc call.kind d g := by
  constructor
  · intro follows
    cases u.grounded_follows _ follows rfl with
    | entry here member => simp [Finding.entry, Finding.run] at member
    | visit node member =>
        obtain ⟨pc', call, found, same | same⟩ := (mem_visitFindings_iff rfl).mp member
        · cases same
        · cases same
    | dispatch waits held member =>
        obtain ⟨call, here, ⟨g, runs, same | run⟩ | ⟨b, -, -, -, run⟩ |
          ⟨-, -, b, d', v, -, -, -, same⟩⟩ := (mem_dispatchFindings_iff rfl).mp member
        · cases same
          obtain ⟨node, call', there, finds⟩ := u.grounded_follows.finds waits held
          rw [here] at there
          cases there
          exact ⟨node, call, g, here, finds, runs, rfl⟩
        · simp [Finding.run] at run
        · simp [Finding.run] at run
        · cases same
  · rintro ⟨node, call, g, here, finds, runs, rfl⟩
    obtain ⟨p, waits, held⟩ := finds_iff.mpr ⟨node, call, here, finds⟩
    refine (Derivable.closed u.Rule).of_two (.dispatch ?_) waits held
    exact (mem_dispatchFindings_iff rfl).mpr ⟨call, here, .inl ⟨g, runs, .inl rfl⟩⟩

/-- What a call of a role runs when variables hold the given objects: the functions that it finds,
and the built-in functions that it does not understand as calls of the receiver. -/
def RunsGiven (u : Setup) (held : VarId → AbstractObject → Prop) (n : Role) (pc : Nat)
    (call : Invocation) (m : Role) : Prop :=
  ∃ d o, call.Finds u.callsReceiver held d o ∧
    ((∃ g, o.function? = some g ∧ m = u.calleeOf n pc call.kind d g) ∨
      ∃ b, o = .builtin b ∧ b.isCallable = true ∧ (u.callsReceiver = false ∨ d ≠ .direct) ∧
        m = (.builtin b, .everywhere))

/-- What a call of a role runs. -/
def Runs (u : Setup) (n : Role) (pc : Nat) (call : Invocation) (m : Role) : Prop :=
  u.RunsGiven (u.Held n) n pc call m

theorem mem_entry_iff : (∃ e ∈ u.program.entryPoints.zipIdx, j ∈ Finding.entry e) ↔
    ∃ e pc, u.program.entryPoints[pc]? = some e ∧
      j ∈ Finding.run .root ⟨pc, .call⟩ (.function e, .everywhere) := by
  simp only [Prod.exists, List.mem_zipIdx_iff_getElem?, Finding.entry]

theorem follows_entry {e : FunctionId} (here : u.program.entryPoints[pc]? = some e)
    (member : j ∈ Finding.run .root ⟨pc, .call⟩ (.function e, .everywhere)) : u.Follows j := by
  obtain ⟨x, entry, member⟩ := mem_entry_iff.mpr ⟨e, pc, here, member⟩
  exact .of_start (.entry entry member)

theorem follows_run {call : Invocation} (node : u.Follows (.node n))
    (here : u.callOf? n pc = some call) (runs : u.Runs n pc call m) (control : j.isControl = true)
    (member : j ∈ Finding.run n ⟨pc, call.kind⟩ m) : u.Follows j := by
  obtain ⟨d, o, finds, target⟩ := runs
  obtain ⟨p, waits, held⟩ := finds_iff.mpr ⟨node, call, here, finds⟩
  refine (Derivable.closed u.Rule).of_two (.dispatch ?_) waits held
  refine (mem_dispatchFindings_iff control).mpr ⟨call, here, ?_⟩
  rcases target with ⟨g, runs, rfl⟩ | ⟨b, same, callable, plain, rfl⟩
  · exact .inl ⟨g, runs, .inr member⟩
  · exact .inr (.inl ⟨b, same, callable, plain, member⟩)

/-- How a finding about the graph is found out from what is known: it is about the root, about a
call of an entry point or a call of a node, or about what such a call runs. -/
inductive Drawn (u : Setup) (known : Finding Role → Prop) : Finding Role → Prop
  | root : Drawn u known (.node .root)
  | entry {e pc j} : u.program.entryPoints[pc]? = some e →
      j ∈ Finding.run .root ⟨pc, .call⟩ (.function e, .everywhere) → Drawn u known j
  | site {n pc call} : known (.node n) → u.callOf? n pc = some call →
      Drawn u known (.site n ⟨pc, call.kind⟩)
  | run {n pc call m j} : known (.node n) → u.callOf? n pc = some call →
      u.RunsGiven (fun v x => known (.holds (.var n v) x)) n pc call m →
      j ∈ Finding.run n ⟨pc, call.kind⟩ m → Drawn u known j

section Grounded

variable {known : Finding Role → Prop}

theorem Grounded.drawn (grounded : u.Grounded known) (found : known j) (graph : j.isGraph = true) :
    u.Drawn known j := by
  have control := isControl_of_isGraph graph
  cases grounded j found control with
  | root => exact .root
  | entry here member =>
      obtain ⟨e, pc, here, member⟩ := mem_entry_iff.mp ⟨_, here, member⟩
      exact .entry here member
  | visit node member =>
      obtain ⟨pc, call, here, rfl | rfl⟩ := (mem_visitFindings_iff control).mp member
      · exact .site node here
      · cases graph
  | @dispatch p n pc d o _ waits held member =>
      obtain ⟨node, call, here, finds⟩ := grounded.finds waits held
      obtain ⟨call', there, ⟨g, runs, rfl | run⟩ | ⟨b, same, callable, plain, run⟩ |
        ⟨-, -, b, d', v, -, -, -, rfl⟩⟩ := (mem_dispatchFindings_iff control).mp member
      · cases graph
      · obtain rfl := Option.some.inj (here.symm.trans there)
        exact .run node here ⟨d, o, finds, .inl ⟨g, runs, rfl⟩⟩ run
      · obtain rfl := Option.some.inj (here.symm.trans there)
        exact .run node here ⟨d, o, finds, .inr ⟨b, same, callable, plain, rfl⟩⟩ run
      · cases graph

/-- An edge leads from the root to an entry point or from a call to what it runs. -/
theorem Grounded.edge (grounded : u.Grounded known) {site : CallSite}
    (edge : known (.edge n site m)) :
    (n = .root ∧ site.kind = .call ∧ ∃ e, u.program.entryPoints[site.pc]? = some e ∧
      m = (.function e, .everywhere)) ∨
    known (.node n) ∧ ∃ call, u.callOf? n site.pc = some call ∧ site.kind = call.kind ∧
      u.RunsGiven (fun v x => known (.holds (.var n v) x)) n site.pc call m := by
  cases grounded.drawn edge rfl with
  | entry here member =>
      obtain ⟨rfl, rfl, rfl⟩ := Finding.edge_mem_run_iff.mp member
      exact .inl ⟨rfl, rfl, _, here, rfl⟩
  | run node here runs member =>
      obtain ⟨rfl, rfl, rfl⟩ := Finding.edge_mem_run_iff.mp member
      exact .inr ⟨node, _, here, rfl, runs⟩

end Grounded

/-- Edges lead from the root to the entry points and from calls to what they run. -/
theorem follows_edge_iff {site : CallSite} : u.Follows (.edge n site m) ↔
    (n = .root ∧ site.kind = .call ∧ ∃ e, u.program.entryPoints[site.pc]? = some e ∧
      m = (.function e, .everywhere)) ∨
    u.Follows (.node n) ∧ ∃ call, u.callOf? n site.pc = some call ∧ site.kind = call.kind ∧
      u.Runs n site.pc call m := by
  constructor
  · exact u.grounded_follows.edge
  · rintro (⟨rfl, kind, e, here, rfl⟩ | ⟨node, call, here, kind, runs⟩)
    · refine follows_entry here ?_
      rw [← kind]
      simp [Finding.run]
    · refine follows_run node here runs rfl ?_
      rw [← kind]
      simp [Finding.run]

/-- The root has the calls of the entry points, and other roles have those of their functions. -/
theorem follows_site_iff {site : CallSite} : u.Follows (.site n site) ↔
    (n = .root ∧ site.kind = .call ∧ ∃ e, u.program.entryPoints[site.pc]? = some e) ∨
    u.Follows (.node n) ∧ ∃ call, u.callOf? n site.pc = some call ∧ site.kind = call.kind := by
  constructor
  · intro follows
    cases u.grounded_follows.drawn follows rfl with
    | entry here member =>
        obtain ⟨rfl, rfl⟩ := Finding.site_mem_run_iff.mp member
        exact .inl ⟨rfl, rfl, _, here⟩
    | site node here => exact .inr ⟨node, _, here, rfl⟩
    | run node here runs member =>
        obtain ⟨rfl, rfl⟩ := Finding.site_mem_run_iff.mp member
        exact .inr ⟨node, _, here, rfl⟩
  · rintro (⟨rfl, kind, e, here⟩ | ⟨node, call, here, kind⟩)
    · refine follows_entry here ?_
      rw [← kind]
      simp [Finding.run]
    · refine (Derivable.closed u.Rule).of_one (.visit ?_) node
      refine (mem_visitFindings_iff rfl).mpr ⟨site.pc, call, here, .inl ?_⟩
      rw [← kind]

/-- A node other than the root is run by some call. -/
theorem follows_node_iff : u.Follows (.node m) ↔
    m = .root ∨ ∃ n site, u.Follows (.edge n site m) := by
  constructor
  · intro follows
    cases u.grounded_follows.drawn follows rfl with
    | root => exact .inl rfl
    | entry here member =>
        obtain rfl := Finding.node_mem_run_iff.mp member
        exact .inr ⟨_, _, follows_entry here (Finding.edge_mem_run_iff.mpr ⟨rfl, rfl, rfl⟩)⟩
    | run node here runs member =>
        obtain rfl := Finding.node_mem_run_iff.mp member
        exact .inr ⟨_, _, follows_run node here runs rfl
          (Finding.edge_mem_run_iff.mpr ⟨rfl, rfl, rfl⟩)⟩
  · rintro (rfl | ⟨n, site, follows⟩)
    · exact .of_start .root
    · rcases follows_edge_iff.mp follows with ⟨rfl, -, e, here, rfl⟩ | ⟨node, call, here, -, runs⟩
      · exact follows_entry here (by simp [Finding.run])
      · exact follows_run node here runs rfl (by simp [Finding.run])

end Setup

end CallFlow
