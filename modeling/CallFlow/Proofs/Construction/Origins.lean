import CallFlow.Proofs.Construction.Grounds
import CallFlow.Proofs.Construction.Served
import CallFlow.Proofs.Construction.Taken
import CallFlow.Proofs.Construction.Variables

/-! Where objects come from. An instruction and a node that account for an allocated object are
there at every point of a run, and whatever a visit or a binding asks for is known from then on. -/

namespace CallFlow

/-- An instruction allocates objects of a kind. -/
inductive Instruction.Allocates : Instruction → AllocationKind → Prop
  | object {dst} : Allocates (.newObject dst) .object
  | construct {call : Invocation} : call.kind = .construct → Allocates (.invoke call) .object
  | array {dst} : Allocates (.newArray dst) .array
  | function {dst g} : Allocates (.closure dst g) (.function g)
  | prototype {dst g} : Allocates (.closure dst g) (.prototype g)

/-- An object that is allocated is accounted for by a node that is known and an instruction of the
function that it runs. -/
def Setup.Originates (u : Setup) (known : Finding Role → Prop) : Finding Role → Prop
  | .object (.allocation site context) => ∃ n f i, known (.node n) ∧ u.bodyOf? n = some f ∧
      f.id = site.function ∧ f.instructions[site.pc]? = some i ∧ i.Allocates site.kind ∧
      u.heap.allocation site n.2 = .allocation site context
  | _ => True

namespace Setup

variable {u : Setup} {known more : Finding Role → Prop} {n : Role} {f : FunctionBody} {pc : Nat}
  {i : Instruction} {j : Finding Role}

theorem Originates.mono (originates : u.Originates known j) (wider : ∀ j, known j → more j) :
    u.Originates more j := by
  unfold Originates at originates ⊢
  split at originates
  · obtain ⟨n, f, i, here, rest⟩ := originates
    exact ⟨n, f, i, wider _ here, rest⟩
  · trivial

theorem originates_allocation (here : known (.node n)) (body : u.bodyOf? n = some f)
    (stands : f.instructions[pc]? = some i) {k : AllocationKind} (allocates : i.Allocates k) :
    u.Originates known (.object (u.heap.allocation ⟨f.id, pc, k⟩ n.2)) := by
  cases same : u.heap.allocation ⟨f.id, pc, k⟩ n.2 with
  | allocation site context =>
      have named : site = ⟨f.id, pc, k⟩ := by
        unfold HeapPolicy.allocation at same
        split at same <;> cases same <;> rfl
      subst named
      exact ⟨n, f, i, here, body, rfl, stands, allocates, same⟩
  | constant value => trivial
  | constantKind kind => trivial
  | builtin b => trivial

theorem originates_constant {h : HeapPolicy} {value : Literal} {o : AbstractObject}
    (literal : h.constant? value = some o) : u.Originates known (.object o) := by
  unfold HeapPolicy.constant? at literal
  split at literal
  · cases value <;> cases literal <;> trivial
  · obtain ⟨k, -, rfl⟩ := Option.map_eq_some_iff.mp literal
    trivial

/-- What an instruction of a known node brings is accounted for by that node. -/
theorem originates_instruction (here : known (.node n)) (body : u.bodyOf? n = some f)
    (stands : f.instructions[pc]? = some i) :
    Each (u.Originates known) (i.findings u.heap n f.id pc) := by
  cases i with
  | newObject dst =>
      have object := originates_allocation here body stands .object
      simpa [Instruction.findings, Finding.inherits, Originates] using object
  | newArray dst =>
      have array := originates_allocation here body stands .array
      simpa [Instruction.findings, Finding.inherits, Originates] using array
  | closure dst g =>
      have function := originates_allocation here body stands .function
      have prototype := originates_allocation here body stands .prototype
      have both := And.intro function prototype
      simpa [Instruction.findings, Finding.named, Finding.inherits, Originates] using both
  | constant dst value =>
      have literal : ∀ o, u.heap.constant? value = some o → u.Originates known (.object o) :=
        fun o => originates_constant
      simpa [Instruction.findings, Originates] using literal
  | ret value => cases value <;> simp [Instruction.findings, Originates]
  | _ => simp [Instruction.findings, Originates]

/-- Of what is bound, only the object of a construction is new. -/
theorem originates_bind {e : Encounter} (here : known (.node e.caller)) :
    Each (u.Originates known) (u.bindFindings e) := by
  intro j member
  obtain ⟨f, call, callee, body, found, -, member⟩ := mem_bindFindings.mp member
  have stands := (callOf?_eq_some_iff body).mp found
  refine Encounter.each_findings ?_ (fun _ kind => ?_) ?_ ?_ ?_ ?_ ?_ j member
  · trivial
  · have fresh := originates_allocation here body stands (.construct kind)
    simpa [Encounter.constructFindings, Originates] using fresh
  all_goals
    simp [Encounter.pass, Encounter.argumentFindings, Encounter.elementsFindings,
      Encounter.resultFindings, Originates]

theorem originates_flow {r : Reflection} {ps : List (Finding Role)} (rule : FlowRule r ps j) :
    u.Originates known j :=
  rule.of_parts (P := u.Originates known) (fun _ => trivial) (fun _ _ => trivial)
    (fun _ _ _ => trivial) (fun _ _ _ => trivial) fun _ _ _ _ => trivial

/-- Every step of an analysis accounts for the objects that it allocates. -/
theorem explains_originates (u : Setup) : u.Explains u.Originates where
  mono grows originates := originates.mono grows
  root := trivial
  builtins := by
    simp [Finding.builtins, Finding.method, Finding.named, Originates]
  entry e _ := by
    simp [Finding.entry, Originates]
  flow rule _ := originates_flow rule
  visit node j member := by
    obtain ⟨f, body, pc, i, stands, member⟩ := mem_visitFindings.mp member
    exact originates_instruction node body stands j member
  dispatch _ _ := by
    refine each_dispatch ?_ ?_ ?_ ?_ ?_ ?_ <;> simp [Originates]
  bind caller := originates_bind caller

end Setup

namespace Construction

variable {u : Setup} {c d : Construction} {item : WorkItem} {rest : Worklist} {done : List WorkItem}

/-- What the work on an item finds out: a node that is visited has code, and a binding that is bound
stands for an encounter. -/
inductive Finds (u : Setup) (c : Construction) : WorkItem → List (Finding Role) → Prop
  | visit {id n f} : c.roles id = some n → u.bodyOf? n = some f →
      Finds u c (.visit id) (u.visitFindings n)
  | target {b e} : c.solver.Means c.roles b e → Finds u c (.target b) (u.bindFindings e)

theorem Finds.grow {js : List (Finding Role)} (finds : c.Finds u item js) (grown : c.Grows d) :
    d.Finds u item js := by
  cases finds with
  | visit here body => exact .visit (grown.roles _ _ here) body
  | target means => exact .target (grown.means means)

/-- Whatever the visits and bindings found out that were worked off is known. -/
def Informed (u : Setup) (done : List WorkItem) (c : Construction) : Prop :=
  ∀ item ∈ done, item.key? = none → ∃ js, c.Finds u item js ∧ ∀ j ∈ js, c.Knows j

theorem informed_nil : c.Informed u [] := fun _ => nofun

theorem Informed.moves (informed : c.Informed u done) (valid : c.Valid u) (moves : c.Moves u d) :
    d.Informed u done := by
  intro item worked other
  obtain ⟨js, finds, known⟩ := informed item worked other
  exact ⟨js, finds.grow moves.grows, fun j member => (known j member).mono valid moves.grows⟩

theorem Informed.popped (informed : c.Informed u done) : (c.popped rest).Informed u done := by
  intro item worked other
  obtain ⟨js, finds, known⟩ := informed item worked other
  have same : (c.popped rest).Finds u item js := by
    cases finds with
    | visit here body => exact .visit here body
    | target means => exact .target (means_popped.mpr means)
  exact ⟨js, same, fun j member => knows_popped.mpr (known j member)⟩

theorem Informed.binds (informed : c.Informed u done) {b : Binding} (bound : .target b ∈ done) :
    ∃ e, c.solver.Means c.roles b e ∧ ∀ j ∈ u.bindFindings e, c.Knows j := by
  obtain ⟨js, finds, known⟩ := informed _ bound rfl
  cases finds with
  | target means => exact ⟨_, means, known⟩

theorem ceilingHit_visit (c : Construction) (u : Setup) (id : Nat) :
    (c.visit u id).ceilingHit = c.ceilingHit := by
  unfold visit
  split
  · exact List.foldlRecOn (motive := fun d : Construction => d.ceilingHit = c.ceilingHit) _ _ rfl
      fun _ same _ _ => same
  · rfl

theorem ceilingHit_bind (c : Construction) (u : Setup) (b : Binding) :
    (c.bind u b).ceilingHit = c.ceilingHit := by
  unfold bind
  split <;> rfl

/-- Neither a visit nor a binding meets the ceiling, so all that it enacts is known. -/
theorem Reached.informed_item (wf : u.program.WellFormed) (reached : Reached u c)
    (below : c.ceilingHit = false) (tallied : c.Tallied done)
    (takes : c.solver.worklist.Takes item rest) (other : item.key? = none) :
    ∃ js, Finds u ((c.popped rest).process u item) item js ∧
      ∀ j ∈ js, ((c.popped rest).process u item).Knows j := by
  have valid := reached.valid.popped takes
  have waits : item ∈ c.solver.worklist.items := (takes.mem_iff item).mpr (.inl rfl)
  cases item with
  | propagate k => cases other
  | visit id =>
      obtain ⟨n, here, function⟩ := tallied.exists_role waits
      obtain ⟨f, body⟩ := reached.exists_body wf here function
      have enacted := enacts_visit (c := c.popped rest) valid here
      have full : ((c.popped rest).visit u id).ceilingHit = false :=
        (ceilingHit_visit ..).trans below
      exact ⟨_, .visit (enacted.grows.roles _ _ here) body, enacted.known full⟩
  | target b =>
      obtain ⟨e, means⟩ := valid.bindings b (reached.valid.queued b waits)
      have enacted := enacts_bind valid means
      have full : ((c.popped rest).bind u b).ceilingHit = false :=
        (ceilingHit_bind ..).trans below
      exact ⟨_, .target (enacted.grows.means means), enacted.known full⟩

theorem Reached.informed_process (wf : u.program.WellFormed) (reached : Reached u c)
    (below : c.ceilingHit = false) (tallied : c.Tallied done)
    (pop : c.solver.worklist.pop = some (item, rest)) (informed : c.Informed u done) :
    Informed u (done ++ [item]) ((c.popped rest).process u item) := by
  have takes := Worklist.takes_of_pop pop
  have kept := informed.popped.moves (reached.valid.popped takes)
    (reached.moves_process below takes)
  intro next worked other
  rcases List.mem_append.mp worked with earlier | now
  · exact kept next earlier other
  · obtain rfl := List.mem_singleton.mp now
    exact reached.informed_item wf below tallied takes other

/-- However long a run goes on and whatever stops it, what its visits and bindings found out is
known. -/
theorem Reached.informed_runWithin (wf : u.program.WellFormed) (monitor : Nat → Option CancelReason)
    (fuel : Nat) (reached : Reached u c) (tallied : c.Tallied done) (informed : c.Informed u done) :
    Informed u (done ++ c.taken u monitor fuel) (c.runWithin u monitor fuel).2 := by
  refine (runWithin_carries (I := fun done c => Reached u c ∧ c.Tallied done ∧ c.Informed u done) ?_
    monitor fuel done ⟨reached, tallied, informed⟩).2.2
  rintro done c item rest below pop ⟨reached, tallied, informed⟩
  exact ⟨reached.process below (Worklist.takes_of_pop pop),
    reached.tallied_process wf below tallied pop,
    reached.informed_process wf below tallied pop informed⟩

end Construction

end CallFlow
