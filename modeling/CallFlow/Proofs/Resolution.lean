import CallFlow.Proofs.Analysis
import CallFlow.Proofs.Construction.Functions

/-! How calls are resolved. In a complete answer a call runs just what it finds among the objects of
its callee and of its receiver, and the unknown if this is nothing. -/

namespace CallFlow

namespace CallGraph

/-- The nodes of a set stand for just the roles of a kind. -/
def Stand (g : CallGraph) (ks : IdSet) (P : Role → Prop) : Prop :=
  (∀ k ∈ ks.toList, ∃ m, g.node? k = some ⟨k, m.1, m.2⟩ ∧ P m) ∧
    ∀ m, P m → ∃ k ∈ ks.toList, g.node? k = some ⟨k, m.1, m.2⟩

theorem Stand.congr {g : CallGraph} {ks : IdSet} {P Q : Role → Prop} (stand : g.Stand ks P)
    (same : ∀ m, P m ↔ Q m) : g.Stand ks Q := by
  obtain rfl : P = Q := funext fun m => propext (same m)
  exact stand

theorem site?_eq_some_iff {g : CallGraph} {i pc : Nat} {site : CallSite} :
    (g.site? i pc).map (·.site) = some site ↔ site.pc = pc ∧ g.HasSite i site := by
  rw [Option.map_eq_some_iff]
  constructor
  · rintro ⟨s, found, rfl⟩
    have same := (SiteTargets.mem_of_find? found).2
    exact ⟨same, s, same ▸ found, rfl⟩
  · rintro ⟨rfl, s, found, same⟩
    exact ⟨s, found, same⟩

end CallGraph

/-- What a call of a node runs, when variables hold the given objects: the functions of the function
objects that it finds, and the built-in functions that it does not take for a way to run its
receiver. -/
inductive Invocation.Resolves (o : Options) (held : VarId → AbstractObject → Prop) (n : Node)
    (pc : Nat) (call : Invocation) : Role → Prop
  | function {d x g} (receivers : List Nat) : call.Finds o.handleCallApply held d x →
      x.function? = some g → Resolves o held n pc call
        (.function g, o.algorithm.select ⟨n, ⟨pc, call.kind⟩, d, g, receivers⟩)
  | builtin {d b} : call.Finds o.handleCallApply held d (.builtin b) → b.isCallable = true →
      (o.handleCallApply = true → d ≠ .direct) → Resolves o held n pc call (.builtin b, .everywhere)

/-- The calls of an answer run just what they should. -/
structure Analysis.Resolved (p : Program) (o : Options) (a : Analysis) : Prop where
  sites : ∀ n f, a.graph.node? n.id = some n → n.method = .function f →
    ∃ body, p.function? f = some body ∧ ∀ pc, (a.graph.site? n.id pc).map (·.site) =
      (body.callAt? pc).map fun call => ⟨pc, call.kind⟩
  targets : ∀ n body pc call, a.graph.node? n.id = some n → n.body? p = some body →
    body.callAt? pc = some call →
    ∃ ks, a.graph.targets? n.id pc = some ks ∧ a.graph.Stand ks fun m =>
      call.Resolves o (a.HeldBy n) n pc m ∨
        m = .unknown ∧ ∀ k, ¬ call.Resolves o (a.HeldBy n) n pc k
  root : a.graph.node? CallGraph.fakeRoot = some ⟨CallGraph.fakeRoot, .fakeRoot, .everywhere⟩
  entries : ∀ pc, (a.graph.site? CallGraph.fakeRoot pc).map (·.site) =
    p.entryPoints[pc]?.map fun _ => ⟨pc, .call⟩
  entered : ∀ (pc : Nat) (e : FunctionId), p.entryPoints[pc]? = some e →
    ∃ ks, a.graph.targets? CallGraph.fakeRoot pc = some ks ∧
      a.graph.Stand ks (· = (.function e, .everywhere))

section Exact

variable {u : Setup} {a : Analysis} {i : Nat} {n : Role} {f : FunctionId}

/-- A node of an exact answer has just the calls that follow. -/
theorem Analysis.Exact.site?_iff (exact : a.Exact u) (here : a.graph.methods.value? i = some n)
    {pc : Nat} {site : CallSite} : (a.graph.site? i pc).map (·.site) = some site ↔
      site.pc = pc ∧ u.Follows (.site n site) := by
  rw [CallGraph.site?_eq_some_iff, ← exact.sites]
  constructor
  · exact fun ⟨same, found⟩ => ⟨same, i, here, found⟩
  · rintro ⟨same, j, there, found⟩
    obtain rfl := Numbering.value?_inj here there
    exact ⟨same, found⟩

/-- The targets of a call of an exact answer are those that follow, or else the unknown. -/
theorem Analysis.Exact.targets_stand (exact : a.Exact u)
    (here : a.graph.methods.value? i = some n) {site : CallSite}
    (found : u.Follows (.site n site)) : ∃ ks, a.graph.targets? i site.pc = some ks ∧
      a.graph.Stand ks fun m => u.Follows (.edge n site m) ∨
        m = .unknown ∧ ∀ k, ¬ u.Follows (.edge n site k) := by
  obtain ⟨s, stands, same⟩ := Option.map_eq_some_iff.mp ((exact.site?_iff here).mpr ⟨rfl, found⟩)
  refine ⟨s.targets, Option.map_eq_some_iff.mpr ⟨s, stands, rfl⟩, fun k member => ?_,
    fun m linked => ?_⟩
  · have run : a.graph.Runs i site k := ⟨s, stands, same, member⟩
    obtain ⟨m, there⟩ :=
      (Numbering.value?_isSome_iff _ k).mpr (exact.wellFormed.lt_of_runs run)
    refine ⟨m, CallGraph.node?_eq_some_iff.mpr ⟨there, rfl⟩, ?_⟩
    exact ((exact.links n site m).mp ⟨i, k, here, run, there⟩).imp_right fun h => ⟨h.1, h.2.2⟩
  · obtain ⟨j, k, again, ⟨t, stands', -, member⟩, there⟩ :=
      (exact.links n site m).mpr (linked.imp_right fun h => ⟨h.1, found, h.2⟩)
    obtain rfl := Numbering.value?_inj here again
    rw [stands] at stands'
    cases stands'
    exact ⟨k, member, CallGraph.node?_eq_some_iff.mpr ⟨there, rfl⟩⟩

/-- The calls of a node of a function are those of the function. -/
theorem Setup.follows_site_of_function (node : u.Follows (.node n)) (function : n.1 = .function f)
    {site : CallSite} : u.Follows (.site n site) ↔
      ∃ call, u.callOf? n site.pc = some call ∧ site.kind = call.kind := by
  rw [follows_site_iff, and_iff_right node]
  refine or_iff_right fun ⟨root, _⟩ => ?_
  rw [root] at function
  cases function

theorem Setup.follows_edge_of_function (node : u.Follows (.node n)) (function : n.1 = .function f)
    {pc : Nat} {call : Invocation} (here : u.callOf? n pc = some call) {m : Role} :
    u.Follows (.edge n ⟨pc, call.kind⟩ m) ↔ u.Runs n pc call m := by
  rw [follows_edge_iff]
  constructor
  · rintro (⟨rfl, -⟩ | ⟨-, call', there, -, runs⟩)
    · cases function
    · rw [here] at there
      cases there
      exact runs
  · exact fun runs => .inr ⟨node, call, here, rfl, runs⟩

theorem Setup.callOf?_root (pc : Nat) : u.callOf? .root pc = none := rfl

theorem Setup.follows_site_root {site : CallSite} : u.Follows (.site .root site) ↔
    site.kind = .call ∧ ∃ e, u.program.entryPoints[site.pc]? = some e := by
  simp [follows_site_iff, callOf?_root]

theorem Setup.follows_edge_root {pc : Nat} {e : FunctionId}
    (here : u.program.entryPoints[pc]? = some e) {m : Role} :
    u.Follows (.edge .root ⟨pc, .call⟩ m) ↔ m = (.function e, .everywhere) := by
  simp [follows_edge_iff, callOf?_root, here]

end Exact

variable {p : Program} {o : Options} {a : Analysis}

/-- What a call runs by the rules is what it runs in an answer. -/
theorem Setup.runs_iff_resolves (n : Node) {pc : Nat} {call : Invocation} {m : Role} :
    (Setup.ofOptions p o).Runs n.role pc call m ↔
      call.Resolves o ((Setup.ofOptions p o).Held n.role) n pc m := by
  constructor
  · rintro ⟨d, x, finds, ⟨g, function, rfl⟩ | ⟨b, rfl, callable, plain, rfl⟩⟩
    · have resolved := (Invocation.Resolves.function [] finds function : call.Resolves o _ n pc _)
      rwa [Algorithm.select_eq] at resolved
    · refine .builtin finds callable fun on => plain.resolve_left fun off => ?_
      exact Bool.false_ne_true (off.symm.trans on)
  · intro resolves
    cases resolves with
    | function receivers finds function =>
        refine ⟨_, _, finds, .inl ⟨_, function, ?_⟩⟩
        rw [Algorithm.select_eq]
        rfl
    | builtin finds callable plain =>
        refine ⟨_, _, finds, .inr ⟨_, rfl, callable, ?_, rfl⟩⟩
        cases on : o.handleCallApply with
        | false => exact .inl on
        | true => exact .inr (plain on)

/-- The calls of a complete answer run just what they should. -/
theorem resolved_of_analyze {monitor : Nat → Option CancelReason}
    (run : analyze p o monitor = .ok a) (complete : a.completion = .complete) :
    a.Resolved p o := by
  obtain ⟨valid, -⟩ := exists_reached_of_analyze run
  have wf : (Setup.ofOptions p o).program.WellFormed := Program.wellFormed_of_validate valid
  have exact := exact_of_analyze run complete
  refine ⟨fun n f node function => ?_, fun n body pc call node runs found => ?_, ?_,
    fun pc => ?_, fun pc e here => ?_⟩
  · obtain ⟨here, -⟩ := CallGraph.node?_eq_some_iff.mp node
    have follows := exact.follows_function node function
    obtain ⟨body, code⟩ : ∃ body, p.function? f = some body :=
      Setup.Follows.exists_body wf follows function
    refine ⟨body, code, fun pc => Option.ext fun site => ?_⟩
    rw [exact.site?_iff here, Setup.follows_site_of_function follows function,
      Setup.callOf?_of_body? o (Node.body?_of_function function code), Option.map_eq_some_iff]
    constructor
    · rintro ⟨rfl, call, found, kind⟩
      exact ⟨call, found, by rw [← kind]⟩
    · rintro ⟨call, found, rfl⟩
      exact ⟨rfl, call, found, rfl⟩
  · obtain ⟨here, -⟩ := CallGraph.node?_eq_some_iff.mp node
    obtain ⟨f, function⟩ := Node.function_of_body? runs
    have follows := exact.follows_function node function
    have known := (Setup.callOf?_of_body? o runs).trans found
    have site : (Setup.ofOptions p o).Follows (.site n.role ⟨pc, call.kind⟩) :=
      (Setup.follows_site_of_function follows function).mpr ⟨call, known, rfl⟩
    obtain ⟨ks, targets, stand⟩ := exact.targets_stand here site
    refine ⟨ks, targets, ?_⟩
    simpa only [Setup.follows_edge_of_function follows function known, Setup.runs_iff_resolves,
      exact.heldBy_eq] using stand
  · exact CallGraph.node?_eq_some_iff.mpr ⟨exact.root, rfl⟩
  · refine Option.ext fun site => ?_
    rw [exact.site?_iff exact.root, Setup.follows_site_root, Option.map_eq_some_iff]
    constructor
    · rintro ⟨rfl, kind, e, here⟩
      exact ⟨e, here, by rw [← kind]⟩
    · rintro ⟨e, here, rfl⟩
      exact ⟨rfl, rfl, e, here⟩
  · have site : (Setup.ofOptions p o).Follows (.site .root ⟨pc, .call⟩) :=
      Setup.follows_site_root.mpr ⟨rfl, e, here⟩
    obtain ⟨ks, targets, stand⟩ := exact.targets_stand exact.root site
    refine ⟨ks, targets, stand.congr fun m => ?_⟩
    rw [Setup.follows_edge_root here]
    refine or_iff_left fun ⟨_, idle⟩ => ?_
    exact idle _ ((Setup.follows_edge_root here).mpr rfl)

theorem resolved_tour : ∃ a, analyze .tour .thorough (fun _ => none) = .ok a ∧
    a.completion = .complete ∧ a.Resolved .tour .thorough := by
  obtain ⟨a, run, complete, -⟩ := analyze_tour
  exact ⟨a, run, complete, resolved_of_analyze run complete⟩

end CallFlow
