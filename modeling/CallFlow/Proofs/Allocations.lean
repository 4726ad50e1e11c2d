import CallFlow.Proofs.Analysis
import CallFlow.Proofs.Construction.Origins

/-! One object for each allocation. Under context-sensitive keys an object also stands for one
context, and what a closure allocates is there, and linked, once its node was visited. -/

namespace CallFlow

open Construction

variable {p : Program} {o : Options} {u : Setup} {c : Construction} {done : List WorkItem}

/-- A function object and its prototype have numbers, name each other, and inherit from the objects
that all functions and all objects inherit from. -/
structure Construction.Linked (c : Construction) (x y : AbstractObject) : Prop where
  function : ∃ k, c.solver.objects.value? k = some x
  prototype : ∃ k, c.solver.objects.value? k = some y
  forth : c.Knows (.holds (.field x (.named "prototype")) y)
  back : c.Knows (.holds (.field y (.named "constructor")) x)
  functions : c.Knows (.holds (.field x .proto) (.builtin .functionPrototype))
  objects : c.Knows (.holds (.field y .proto) (.builtin .objectPrototype))

/-- The objects that are allocated are apart just as the instructions that allocate them and, if the
keys tell these apart, the contexts of the nodes that run the instructions. -/
structure Construction.Allocated (u : Setup) (done : List WorkItem) (c : Construction) : Prop where
  origin : ∀ k site context, c.solver.objects.value? k = some (.allocation site context) →
    ∃ f i n, u.program.function? site.function = some f ∧ f.instructions[site.pc]? = some i ∧
      i.Allocates site.kind ∧ c.graph.node? n.id = some n ∧ n.method = .function site.function ∧
      (u.heap.allocationKeys = .allocationSites → context = .everywhere) ∧
      (u.heap.allocationKeys = .contextAllocations → context = n.context)
  apart : ∀ k l s t a b, c.solver.objects.value? k = some (u.heap.allocation s a) →
    c.solver.objects.value? l = some (u.heap.allocation t b) →
    (k = l ↔ s = t ∧ (u.heap.allocationKeys = .contextAllocations → a = b))
  closures : ∀ id, .visit id ∈ done → ∃ g context f,
    c.graph.node? id = some ⟨id, .function g, context⟩ ∧ u.program.function? g = some f ∧
    ∀ pc dst h, f.instructions[pc]? = some (.closure dst h) →
      c.Linked (u.heap.allocation ⟨g, pc, .function h⟩ context)
        (u.heap.allocation ⟨g, pc, .prototype h⟩ context)

namespace HeapPolicy

variable {h : HeapPolicy} {s t : AllocationSite} {a b : Context}

theorem allocation_eq_iff :
    h.allocation s a = h.allocation t b ↔
      s = t ∧ (h.allocationKeys = .contextAllocations → a = b) := by
  cases keys : h.allocationKeys <;> simp [allocation, keys]

theorem context_of_allocation (same : h.allocation s a = .allocation t b) :
    (h.allocationKeys = .allocationSites → b = .everywhere) ∧
      (h.allocationKeys = .contextAllocations → b = a) := by
  unfold allocation at same
  cases keys : h.allocationKeys <;> rw [keys] at same <;> cases same <;> simp

end HeapPolicy

namespace Construction

theorem knows_object_iff {x : AbstractObject} :
    c.Knows (.object x) ↔ ∃ k, c.solver.objects.value? k = some x := by
  rw [← Numbering.mem_values_iff]
  constructor
  · intro known
    cases known with
    | solver known =>
        cases known with
        | object found => exact found
  · exact fun found => .solver (.object found)

/-- What a visit of a closure finds out links the two objects. -/
theorem linked_of_visit {n : Role} {f : FunctionBody} {pc : Nat} {dst : VarId} {h : FunctionId}
    (body : u.bodyOf? n = some f) (stands : f.instructions[pc]? = some (.closure dst h))
    (known : ∀ j ∈ u.visitFindings n, c.Knows j) :
    c.Linked (u.heap.allocation ⟨f.id, pc, .function h⟩ n.2)
      (u.heap.allocation ⟨f.id, pc, .prototype h⟩ n.2) := by
  have found : ∀ j ∈ (Instruction.closure dst h).findings u.heap n f.id pc, c.Knows j :=
    fun j member => known j (Setup.mem_visitFindings.mpr ⟨f, body, pc, _, stands, member⟩)
  have named : Slot.ofName "prototype" = .named "prototype" := by decide
  have owner : Slot.ofName "constructor" = .named "constructor" := by decide
  refine ⟨knows_object_iff.mp (found _ ?_), knows_object_iff.mp (found _ ?_), found _ ?_,
    found _ ?_, found _ ?_, found _ ?_⟩ <;>
  simp [Instruction.findings, Finding.named, Finding.inherits, Finding.stored, named, owner]

theorem allocated_of_explained (wf : u.program.WellFormed) (explained : c.Explained u.Originates)
    (informed : c.Informed u done) : c.Allocated u done where
  origin k site context here := by
    have originates := explained _ (knows_object_iff.mpr ⟨k, here⟩)
    obtain ⟨n, f, i, node, body, same, stands, allocates, object⟩ := originates
    obtain ⟨id, here⟩ := knows_node_iff.mp node
    obtain ⟨g, node, code⟩ := node?_of_body here body
    obtain rfl : g = site.function := (wf.ids g f code).symm.trans same
    exact ⟨f, i, ⟨id, .function site.function, n.2⟩, code, stands, allocates, node, rfl,
      HeapPolicy.context_of_allocation object⟩
  apart k l s t a b here there := by
    rw [← HeapPolicy.allocation_eq_iff]
    constructor
    · rintro rfl
      exact Option.some.inj (here.symm.trans there)
    · intro same
      exact Numbering.value?_inj here (same ▸ there)
  closures id visited := by
    obtain ⟨js, finds, known⟩ := informed _ visited rfl
    cases finds with
    | visit here body =>
        rename_i n f
        obtain ⟨g, node, code⟩ := node?_of_body here body
        obtain rfl := wf.ids g f code
        exact ⟨f.id, n.2, f, node, code, fun pc dst h stands => linked_of_visit body stands known⟩

end Construction

/-- At every point of every run of an accepted program, each object that is allocated stands for one
allocation, and what the closures of visited nodes allocate is linked. -/
theorem allocated_apart (program : p.validate = .ok ()) (o : Options)
    (monitor : Nat → Option CancelReason) (fuel : Nat) :
    let u := Setup.ofOptions p o
    ((start u).runWithin u monitor fuel).2.Allocated u ((start u).taken u monitor fuel) := by
  intro u
  have wf : u.program.WellFormed := Program.wellFormed_of_validate program
  have started := reached_start u
  exact allocated_of_explained wf
    (started.explained_runWithin u.explains_originates monitor fuel
      (explained_start u.explains_originates))
    (started.informed_runWithin wf monitor fuel (tallied_start u) informed_nil)

/-- After twenty steps the small program's script was visited and its construction was bound; so its
closure has two objects, and the construction has one. -/
theorem allocated_apart_tour :
    let u := Setup.ofOptions .tour .thorough
    let c := ((start u).runWithin u (fun _ => none) 20).2
    Program.tour.validate = .ok () ∧ c.Allocated u ((start u).taken u (fun _ => none) 20) ∧
    .visit 1 ∈ (start u).taken u (fun _ => none) 20 ∧
    c.graph.node? 1 = some ⟨1, .function 0, .everywhere⟩ ∧
    c.solver.objects.value? 4 = some (.allocation ⟨0, 0, .function 1⟩ .everywhere) ∧
    c.solver.objects.value? 5 = some (.allocation ⟨0, 0, .prototype 1⟩ .everywhere) ∧
    c.solver.objects.value? 9 = some (.allocation ⟨0, 9, .object⟩ .everywhere) := by
  have program : Program.tour.validate = .ok () := by rfl
  refine ⟨program, allocated_apart program _ _ 20, ?_⟩
  decide +kernel

end CallFlow
