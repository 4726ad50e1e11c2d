import CallFlow.Proofs.Construction.Functions
import CallFlow.Proofs.GraphStore
import CallFlow.Proofs.Spelling

/-! What the lines of a listing tell. Where functions are kept apart each edge has a line of its
own, and the listing of an answer tells which functions call which. -/

namespace CallFlow

namespace Setup

variable {u : Setup} {n : Role} {site : CallSite}

theorem canCall_of_callOf? {pc : Nat} {call : Invocation} (here : u.callOf? n pc = some call) :
    ∃ f b, n.1 = .function f ∧ u.program.function? f = some b := by
  obtain ⟨body, runs, -⟩ := Option.bind_eq_some_iff.mp here
  obtain ⟨f, function, known⟩ := bodyOf?_eq_some_iff.mp runs
  exact ⟨f, body, function, known⟩

theorem known_contextOf {f : FunctionId} {b : FunctionBody} (caller : n.1 = .function f)
    (here : u.program.function? f = some b) (d : Dispatch) :
    (u.algorithm.contextOf n.1 site d).Known u.program := by
  have own : (Context.callString f site.pc).Known u.program := ⟨b, here⟩
  rw [caller]
  unfold Algorithm.contextOf
  dsimp only [Method.function?]
  split
  · trivial
  · split
    · exact own
    · trivial
  · exact own

theorem Follows.known (wf : u.program.WellFormed) (follows : u.Follows (.node n)) :
    n.1.Known u.program ∧ n.2.Known u.program := by
  rcases follows_node_iff.mp follows with rfl | ⟨m, site, edge⟩
  · exact ⟨trivial, trivial⟩
  · rcases follows_edge_iff.mp edge with ⟨-, -, e, here, rfl⟩ | ⟨-, call, here, -, d, o, -, runs⟩
    · exact ⟨wf.entries e (List.mem_of_getElem? here), trivial⟩
    · rcases runs with ⟨g, -, rfl⟩ | ⟨b, -, callable, -, rfl⟩
      · obtain ⟨f, b, caller, code⟩ := canCall_of_callOf? here
        exact ⟨follows.exists_body wf rfl, known_contextOf caller code d⟩
      · exact ⟨callable, trivial⟩

theorem Follows.canCall (follows : u.Follows (.site n site)) : n.1.CanCall u.program := by
  rcases follows_site_iff.mp follows with ⟨rfl, -⟩ | ⟨-, call, here, -⟩
  · trivial
  · obtain ⟨f, b, caller, code⟩ := canCall_of_callOf? here
    rw [caller]
    exact ⟨b, code⟩

end Setup

namespace CallGraph

/-- Whatever runs in a graph has a name in a program. -/
structure Spelled (p : Program) (g : CallGraph) : Prop where
  nodes : ∀ i n, g.methods.value? i = some n → n.1.Known p ∧ n.2.Known p
  callers : ∀ i site n, g.HasSite i site → g.methods.value? i = some n → n.1.CanCall p

end CallGraph

theorem Construction.Reached.spelled_finish {u : Setup} {c : Construction}
    (reached : Construction.Reached u c) (wf : u.program.WellFormed) (ended : Completion) :
    (c.finish u ended).graph.Spelled u.program where
  nodes i n here := by
    rcases value?_finish reached.valid here with old | ⟨-, rfl, -⟩
    · exact (reached.sound _ (.node old)).known wf
    · exact ⟨trivial, trivial⟩
  callers i site n has here := by
    have found := (hasSite_finish_iff reached.valid ended).mp has
    obtain ⟨m, known⟩ := reached.valid.role_of_hasSite found
    have same := methods_finish c u ended reached.valid i m known
    obtain rfl : n = m := Option.some.inj (here.symm.trans same)
    exact (reached.sound _ (.site known found)).canCall

theorem spelled_of_analyze {p : Program} {o : Options} {monitor : Nat → Option CancelReason}
    {a : Analysis} (run : analyze p o monitor = .ok a) : a.graph.Spelled p := by
  obtain ⟨valid, -, c, reached, same, -⟩ := exists_reached_of_analyze run
  rw [same]
  exact reached.spelled_finish (Program.wellFormed_of_validate valid) _

theorem counted_of_analyze {p : Program} {o : Options} {monitor : Nat → Option CancelReason}
    {a : Analysis} (run : analyze p o monitor = .ok a) : a.graph.Counted := by
  obtain ⟨-, -, rfl⟩ := analyze_eq_ok_iff.mp run
  have evolves := (Construction.evolves_start (.ofOptions p o)).trans
    (Construction.evolves_runWithin monitor (p.stepBound + 1) (Construction.start (.ofOptions p o)))
  exact (evolves.graph.counted CallGraph.counted_new).finish _

namespace CallGraph

variable {p : Program} {g h : CallGraph} {d e : Edge} {line : String}

theorem mem_edgeKeys {key : EdgeKey} :
    key ∈ g.edgeKeys ↔ ∃ e ∈ g.edges, g.edgeKey? e = some key := by
  unfold edgeKeys
  rw [mem_eraseReps_iff, List.mem_mergeSort, List.mem_filterMap]

theorem mem_edgeLines : line ∈ g.edgeLines p false ↔
    ∃ e ∈ g.edges, g.edgeLine? p false e = some line :=
  List.mem_filterMap

theorem edgeLine?_eq_some_iff {places : Bool} : g.edgeLine? p places e = some line ↔ ∃ n m,
    g.node? e.caller = some n ∧ g.node? e.callee = some m ∧
      line = "\t".intercalate (edgeColumns p places n e.site m) := by
  unfold edgeLine?
  cases g.node? e.caller <;> cases g.node? e.callee <;> simp [eq_comm]

theorem edgeKey?_of_nodes {n m : Node} (caller : g.node? e.caller = some n)
    (callee : g.node? e.callee = some m) :
    g.edgeKey? e = some ⟨n.method, n.context, e.site.pc, m.method, m.context⟩ := by
  simp only [edgeKey?, caller, callee]

/-- What the line of an edge is made of. -/
structure Columns (p : Program) (g : CallGraph) (e : Edge) (n m : Node) : Prop where
  caller : g.node? e.caller = some n
  callee : g.node? e.callee = some m
  canCall : n.method.CanCall p
  context : n.context.Known p
  method : m.method.Known p
  inner : m.context.Known p

theorem Spelled.columns {n m : Node} (spelled : g.Spelled p) (wf : g.WellFormed)
    (member : e ∈ g.edges) (caller : g.node? e.caller = some n)
    (callee : g.node? e.callee = some m) : Columns p g e n m := by
  have run := (wf.mem_edges_iff e).mp member
  have named := spelled.nodes _ _ (node?_eq_some_iff.mp caller).1
  have called := spelled.nodes _ _ (node?_eq_some_iff.mp callee).1
  have calls := spelled.callers _ _ _ (.of_runs run) (node?_eq_some_iff.mp caller).1
  exact ⟨caller, callee, calls, named.2, called.1, called.2⟩

theorem Spelled.exists_columns {places : Bool} (spelled : g.Spelled p) (wf : g.WellFormed)
    (member : e ∈ g.edges) (listed : g.edgeLine? p places e = some line) :
    ∃ n m, Columns p g e n m ∧ line = "\t".intercalate (edgeColumns p places n e.site m) := by
  obtain ⟨n, m, caller, callee, same⟩ := edgeLine?_eq_some_iff.mp listed
  exact ⟨n, m, spelled.columns wf member caller callee, same⟩

theorem unbroken_siteText {places : Bool} (plain : p.UnbrokenFor places) (n : Node) (s : CallSite) :
    Unbroken (siteText p places n s) := by
  cases places with
  | false => exact s.unbroken_text
  | true =>
      change Unbroken (((n.method.function?.bind p.function?).bind (·.located? s.pc)).getD s.text)
      cases located : (n.method.function?.bind p.function?).bind (·.located? s.pc) with
      | none => exact s.unbroken_text
      | some text =>
          obtain ⟨f, runs, found⟩ := Option.bind_eq_some_iff.mp located
          obtain ⟨i, -, here⟩ := Option.bind_eq_some_iff.mp runs
          exact plain.located (Program.mem_functions here) found

theorem Columns.unbroken {places : Bool} {n m : Node} (columns : Columns p g e n m)
    (plain : p.UnbrokenFor places) : ∀ s ∈ edgeColumns p places n e.site m, Unbroken s := by
  simp only [edgeColumns, List.mem_cons, List.not_mem_nil, or_false]
  rintro s (rfl | rfl | rfl | rfl | rfl)
  · exact Method.unbroken_text plain.names columns.canCall
  · exact unbroken_siteText plain n e.site
  · exact Context.unbroken_text plain.names columns.context
  · exact Method.unbroken_signature plain.names columns.method
  · exact Context.unbroken_text plain.names columns.inner

theorem Columns.edgeKey?_eq {n m n' m' : Node} (first : Columns p g d n m)
    (second : Columns p h e n' m') (consistent : p.Consistent) (wf : p.WellFormed)
    (plain : p.Unbroken) (apart : p.KeptApart)
    (same : "\t".intercalate (edgeColumns p false n d.site m) =
      "\t".intercalate (edgeColumns p false n' e.site m')) : g.edgeKey? d = h.edgeKey? e := by
  have columns := intercalate_tab_inj (fun s member => (first.unbroken plain.unplaced s member).1)
    (fun s member => (second.unbroken plain.unplaced s member).1) (List.cons_ne_nil _ _)
    (List.cons_ne_nil _ _) same
  simp only [edgeColumns, siteText, List.cons.injEq, and_true] at columns
  obtain ⟨caller, site, context, callee, inner⟩ := columns
  rw [edgeKey?_of_nodes first.caller first.callee, edgeKey?_of_nodes second.caller second.callee,
    Method.text_inj consistent first.canCall second.canCall caller, CallSite.text_inj site,
    Context.text_inj wf apart first.context second.context context,
    Method.signature_inj wf apart first.method second.method callee,
    Context.text_inj wf apart first.inner second.inner inner]

theorem Columns.lacks_end {n m : Node} (columns : Columns p g e n m) (plain : p.Unbroken) :
    Lacks '\n' ("\t".intercalate (edgeColumns p false n e.site m)) :=
  lacks_intercalate (by decide) fun s member => (columns.unbroken plain.unplaced s member).2

/-- Where functions are kept apart, the line of an edge tells its key, in whatever answer it is. -/
theorem Spelled.edgeKey?_eq (hg : g.Spelled p) (hh : h.Spelled p) (wg : g.WellFormed)
    (wh : h.WellFormed) (valid : p.validate = .ok ()) (plain : p.Unbroken) (apart : p.KeptApart)
    (first : d ∈ g.edges) (second : e ∈ h.edges) (here : g.edgeLine? p false d = some line)
    (there : h.edgeLine? p false e = some line) : g.edgeKey? d = h.edgeKey? e := by
  obtain ⟨n, m, columns, rfl⟩ := hg.exists_columns wg first here
  obtain ⟨n', m', columns', same⟩ := hh.exists_columns wh second there
  exact columns.edgeKey?_eq columns' (Program.consistent_of_validate valid)
    (Program.wellFormed_of_validate valid) plain apart same

theorem WellFormed.edgeLine?_isSome {places : Bool} (wf : g.WellFormed) (member : e ∈ g.edges) :
    (g.edgeLine? p places e).isSome := by
  obtain ⟨key, named⟩ := Option.isSome_iff_exists.mp (wf.edgeKey?_isSome member)
  obtain ⟨n, m, caller, callee, -⟩ := (edgeKey?_eq_some_iff e key).mp named
  refine Option.isSome_iff_exists.mpr ⟨_, edgeLine?_eq_some_iff.mpr ⟨⟨e.caller, n.1, n.2⟩,
    ⟨e.callee, m.1, m.2⟩, ?_, ?_, rfl⟩⟩
  · exact node?_eq_some_iff.mpr ⟨caller, rfl⟩
  · exact node?_eq_some_iff.mpr ⟨callee, rfl⟩

theorem Spelled.edgeLine?_inj (spelled : g.Spelled p) (wf : g.WellFormed)
    (valid : p.validate = .ok ()) (plain : p.Unbroken) (apart : p.KeptApart) (first : d ∈ g.edges)
    (second : e ∈ g.edges) (same : g.edgeLine? p false d = g.edgeLine? p false e) : d = e := by
  obtain ⟨line, here⟩ := Option.isSome_iff_exists.mp (wf.edgeLine?_isSome (p := p) first)
  have keys := spelled.edgeKey?_eq spelled wf wf valid plain apart first second here (same ▸ here)
  obtain ⟨key, named⟩ := Option.isSome_iff_exists.mp (wf.edgeKey?_isSome first)
  exact wf.edgeKey?_inj first second named (keys ▸ named)

theorem Spelled.lacks_end (spelled : g.Spelled p) (wf : g.WellFormed) (plain : p.Unbroken) :
    ∀ line ∈ g.edgeLines p false, Lacks '\n' line := by
  intro line member
  obtain ⟨e, here, listed⟩ := mem_edgeLines.mp member
  obtain ⟨n, m, columns, rfl⟩ := spelled.exists_columns wf here listed
  exact columns.lacks_end plain

theorem Spelled.mem_edgeKeys_of_listing (hg : g.Spelled p) (hh : h.Spelled p) (wg : g.WellFormed)
    (wh : h.WellFormed) (valid : p.validate = .ok ()) (plain : p.Unbroken) (apart : p.KeptApart)
    (same : g.listing p false = h.listing p false) {key : EdgeKey} (member : key ∈ g.edgeKeys) :
    key ∈ h.edgeKeys := by
  have lines := join_lines_inj (hg.lacks_end wg plain) (hh.lacks_end wh plain) same
  obtain ⟨d, first, named⟩ := mem_edgeKeys.mp member
  obtain ⟨line, here⟩ := Option.isSome_iff_exists.mp (wg.edgeLine?_isSome (p := p) first)
  have listed : line ∈ h.edgeLines p false := lines ▸ mem_edgeLines.mpr ⟨d, first, here⟩
  obtain ⟨e, second, there⟩ := mem_edgeLines.mp listed
  have keys := hg.edgeKey?_eq hh wg wh valid plain apart first second here there
  exact mem_edgeKeys.mpr ⟨e, second, keys ▸ named⟩

end CallGraph

variable {p : Program} {o : Options} {monitor : Nat → Option CancelReason} {a : Analysis}

/-- Where functions are kept apart, different edges of an answer have different lines, there is one
line for each edge, and the listing tells which functions call which. -/
theorem lines_tell_edges (run : analyze p o monitor = .ok a) (plain : p.Unbroken)
    (apart : p.KeptApart) :
    (∀ d ∈ a.graph.edges, ∀ e ∈ a.graph.edges, d ≠ e →
      a.graph.edgeLine? p false d ≠ a.graph.edgeLine? p false e) ∧
    (a.graph.edgeLines p false).Nodup ∧
    (a.graph.edgeLines p false).length = a.graph.edgeCount ∧
    ∀ o' monitor' b, analyze p o' monitor' = .ok b →
      a.graph.listing p false = b.graph.listing p false →
      ∀ key, key ∈ a.graph.edgeKeys ↔ key ∈ b.graph.edgeKeys := by
  obtain ⟨valid, -⟩ := exists_reached_of_analyze run
  have spelled := spelled_of_analyze run
  have counted := counted_of_analyze run
  have wf := counted.wellFormed
  refine ⟨fun d first e second different same => ?_, ?_, ?_,
    fun o' monitor' b run' same key => ⟨fun member => ?_, fun member => ?_⟩⟩
  · exact different (spelled.edgeLine?_inj wf valid plain apart first second same)
  · refine nodup_filterMap counted.nodup_edges fun d first e second line here there => ?_
    exact spelled.edgeLine?_inj wf valid plain apart first second (here.trans there.symm)
  · rw [counted.count]
    exact List.filterMap_length_eq_length.mpr fun e => wf.edgeLine?_isSome
  · exact spelled.mem_edgeKeys_of_listing (spelled_of_analyze run') wf
      (counted_of_analyze run').wellFormed valid plain apart same member
  · exact (spelled_of_analyze run').mem_edgeKeys_of_listing spelled
      (counted_of_analyze run').wellFormed wf valid plain apart same.symm member

/-- The small program keeps its two functions apart. -/
theorem lines_tell_edges_tour : ∃ a, analyze .tour .thorough (fun _ => none) = .ok a ∧
    Program.tour.Unbroken ∧ Program.tour.KeptApart ∧ a.graph.edgeCount = 5 ∧
    (a.graph.edgeLines .tour false).Nodup ∧ (a.graph.edgeLines .tour false).length = 5 := by
  have plain : Program.tour.Unbroken := by
    unfold Program.Unbroken
    decide
  have apart : Program.tour.KeptApart := by
    refine Program.keptApart_of_single (by rfl) (by decide) fun b => ?_
    cases b <;> decide
  have run := analyze_eq (p := .tour) (o := .thorough) (by rfl) (by rfl) fun _ => none
  obtain ⟨-, distinct, count, -⟩ := lines_tell_edges run plain apart
  have five : ((Setup.ofOptions .tour .thorough).run fun _ => none).graph.edgeCount = 5 := by
    decide +kernel
  exact ⟨_, run, plain, apart, five, distinct, count.trans five⟩

/-- A script that calls one of two functions, whose names differ in how many letters `L` they begin
with. -/
def Program.twins : Program where
  functions :=
    [{ id := 0
       name := "Lapp.js"
       thisVar := 0
       instructions := [.closure 1 1, .closure 2 2, .phi 3 [1, 2], .invoke { callee := 3 }] },
     { id := 1, name := "Lapp.js/f", thisVar := 0 },
     { id := 2, name := "LLapp.js/f", thisVar := 0 }]
  entryPoints := [0]

/-- The calls of the two functions have one line. -/
theorem twins_listed_alike : ¬ ∀ (p : Program) (o : Options) (monitor : Nat → Option CancelReason)
    (a : Analysis), analyze p o monitor = .ok a → p.Unbroken →
    (∀ f ∈ p.functions, f.name.toList.head? = some 'L') →
    ∀ d ∈ a.graph.edges, ∀ e ∈ a.graph.edges, d ≠ e →
    a.graph.edgeLine? p false d ≠ a.graph.edgeLine? p false e := by
  intro tell
  have run := analyze_eq (p := .twins) (o := {}) (by rfl) (by rfl) fun _ => none
  have plain : Program.twins.Unbroken := by
    unfold Program.Unbroken
    decide
  have different := tell _ _ _ _ run plain (by decide) ⟨1, ⟨3, .call⟩, 2⟩ (by decide +kernel)
    ⟨1, ⟨3, .call⟩, 3⟩ (by decide +kernel) (by decide)
  apply different
  decide +kernel

end CallFlow
