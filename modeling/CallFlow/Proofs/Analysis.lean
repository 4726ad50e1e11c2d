import CallFlow.Proofs.Construction.Inversion
import CallFlow.Proofs.Construction.Run
import CallFlow.Proofs.Sealing

/-! What an analysis answers, read by name. All of it follows by the rules, but for what is led to
the unknown; and if the analysis was complete, all that follows is there. -/

namespace CallFlow

def Role.unknown : Role := (.unknown, .everywhere)

/-- What a node stands for. -/
def Node.role (n : Node) : Role := (n.method, n.context)

def Node.body? (p : Program) (n : Node) : Option FunctionBody := n.method.function?.bind p.function?

theorem CallGraph.node?_eq_some_iff {g : CallGraph} {i : Nat} {n : Node} :
    g.node? i = some n ↔ g.methods.value? i = some n.role ∧ n.id = i := by
  obtain ⟨id, m, c⟩ := n
  simp only [node?, Option.map_eq_some_iff, Prod.exists, Node.mk.injEq]
  constructor
  · rintro ⟨m, c, here, rfl, rfl, rfl⟩
    exact ⟨here, rfl⟩
  · rintro ⟨here, rfl⟩
    exact ⟨m, c, here, rfl, rfl, rfl⟩

namespace Analysis

/-- What the numbers of an answer stand for. -/
def tables (a : Analysis) : Tables Role :=
  ⟨a.graph.methods.value?, a.solution.names, a.solution.objects, a.solution.locations⟩

/-- A place may hold an object. -/
def Holds (a : Analysis) (p : Place Role) (o : AbstractObject) : Prop :=
  ∃ l, a.tables.placeOf? l = some p ∧ o ∈ a.solution.objectsAt l

/-- A variable of a node may hold an object. -/
def HeldBy (a : Analysis) (n : Node) (v : VarId) (o : AbstractObject) : Prop :=
  a.Holds (.var n.role v) o

end Analysis

variable {u : Setup} {c : Construction}

namespace Construction

theorem methods_finish (c : Construction) (u : Setup) (ended : Completion) (valid : c.Valid u) :
    c.graph.methods.Extends (c.finish u ended).graph.methods := by
  cases ended with
  | complete => exact valid.graph.sealed.methods
  | cut why => exact .refl _

theorem mem_objectsAt_iff (s : Solver) {l : Location} {o : AbstractObject} :
    o ∈ s.solution.objectsAt l ↔ ∃ k i, s.locations.value? k = some l ∧
      i ∈ s.members k ∧ s.objects.value? i = some o := by
  unfold Solution.objectsAt Solution.set?
  have tables : s.solution.locations = s.locations := rfl
  rw [tables]
  cases found : s.locations.find? l with
  | none =>
      simp only [Option.bind_none, List.not_mem_nil, false_iff]
      rintro ⟨k, i, here, -⟩
      rw [← Numbering.find?_eq_some_iff, found] at here
      cases here
  | some k =>
      have here := (Numbering.find?_eq_some_iff s.locations l k).mp found
      have unique : (∃ j i, s.locations.value? j = some l ∧ i ∈ s.members j ∧
          s.objects.value? i = some o) ↔ ∃ i, i ∈ s.members k ∧ s.objects.value? i = some o := by
        constructor
        · rintro ⟨j, i, again, rest⟩
          obtain rfl := Numbering.value?_inj here again
          exact ⟨i, rest⟩
        · exact fun ⟨i, rest⟩ => ⟨k, i, here, rest⟩
      rw [unique, Option.bind_some]
      have sets : s.solution.sets[k]? = (s.cells[k]?).map Cell.facts := Array.getElem?_map
      by_cases bound : k < s.cells.size
      · have cell : s.cells[k]? = some (s.cell k) := by simp [Solver.cell, bound]
        rw [sets, cell, Option.map_some, List.mem_filterMap]
        rfl
      · have none : s.members k = [] := by
          simp [Solver.members, Solver.facts, Solver.cell, bound, IdSet.toList_empty]
        rw [sets, Array.getElem?_eq_none (Nat.le_of_not_lt bound), none]
        simp

/-- The sets of an answer are those of the construction. -/
theorem holds_finish_iff (valid : c.Valid u) (ended : Completion) {p : Place Role}
    {o : AbstractObject} : (c.finish u ended).Holds p o ↔ c.Knows (.holds p o) := by
  have grown := methods_finish c u ended valid
  have tables : (c.finish u ended).tables =
      c.solver.tables (c.finish u ended).graph.methods.value? := rfl
  rw [knows_holds_iff, Solver.Holds]
  refine Iff.trans ?_ (valid.solver.knows_widen grown _)
  unfold Analysis.Holds
  rw [tables]
  constructor
  · rintro ⟨l, place, member⟩
    obtain ⟨k, i, here, held, object⟩ := (mem_objectsAt_iff c.solver).mp member
    exact .holds (Option.bind_eq_some_iff.mpr ⟨l, here, place⟩) object held
  · intro known
    cases known with
    | holds here object held =>
        obtain ⟨l, known, place⟩ := Option.bind_eq_some_iff.mp here
        exact ⟨l, place, (mem_objectsAt_iff c.solver).mpr ⟨_, _, known, held, object⟩⟩

theorem knows_node_iff {n : Role} : c.Knows (.node n) ↔ ∃ i, c.roles i = some n := by
  constructor
  · intro known
    cases known with
    | solver known => cases known
    | node here => exact ⟨_, here⟩
  · exact fun ⟨i, here⟩ => .node here

theorem knows_site_iff {n : Role} {site : CallSite} :
    c.Knows (.site n site) ↔ ∃ i, c.roles i = some n ∧ c.graph.HasSite i site := by
  constructor
  · intro known
    cases known with
    | solver known => cases known
    | site here found => exact ⟨_, here, found⟩
  · exact fun ⟨i, here, found⟩ => .site here found

theorem knows_edge_iff {n m : Role} {site : CallSite} :
    c.Knows (.edge n site m) ↔ c.graph.Links n site m := by
  constructor
  · intro known
    cases known with
    | solver known => cases known
    | edge here run there => exact ⟨_, _, here, run, there⟩
  · exact fun ⟨i, k, here, run, there⟩ => .edge here run there

/-- A call of a node runs nothing if no edge is known for it. -/
theorem Valid.idle_iff (valid : c.Valid u) {i : Nat} {n : Role} (here : c.roles i = some n)
    {site : CallSite} : c.graph.Idle i site ↔
      c.Knows (.site n site) ∧ ∀ m, ¬ c.Knows (.edge n site m) := by
  constructor
  · rintro ⟨found, none⟩
    refine ⟨.site here found, fun m known => ?_⟩
    obtain ⟨j, k, again, run, -⟩ := knows_edge_iff.mp known
    obtain rfl := Numbering.value?_inj here again
    exact none k run
  · rintro ⟨known, none⟩
    obtain ⟨j, again, found⟩ := knows_site_iff.mp known
    obtain rfl := Numbering.value?_inj here again
    refine ⟨found, fun k run => ?_⟩
    obtain ⟨m, there⟩ := (Numbering.value?_isSome_iff _ k).mpr (valid.graph.lt_of_runs run)
    exact none m (.edge here run there)

/-- The nodes of an answer are those of the construction, and perhaps the one for the unknown. -/
theorem value?_finish (valid : c.Valid u) {ended : Completion} {i : Nat} {n : Role}
    (here : (c.finish u ended).graph.methods.value? i = some n) : c.roles i = some n ∨
      ended = .complete ∧ n = .unknown ∧
        ∃ m site, c.Knows (.site m site) ∧ ∀ k, ¬ c.Knows (.edge m site k) := by
  cases ended with
  | cut why => exact .inl here
  | complete =>
      rcases valid.graph.sealed.nodes i n here with old | ⟨rfl, j, site, idle⟩
      · exact .inl old
      · obtain ⟨s, found, -⟩ := idle.1
        obtain ⟨m, known⟩ :=
          (Numbering.value?_isSome_iff _ j).mpr (valid.graph.bound_of_site? found)
        exact .inr ⟨rfl, rfl, m, site, (valid.idle_iff known).mp idle⟩

/-- The calls of an answer are those of the construction. -/
theorem hasSite_finish_iff (valid : c.Valid u) (ended : Completion) {i : Nat} {site : CallSite} :
    (c.finish u ended).graph.HasSite i site ↔ c.graph.HasSite i site := by
  cases ended with
  | cut why => exact .rfl
  | complete => exact valid.graph.sealed.sites i site

theorem Valid.role_of_hasSite (valid : c.Valid u) {i : Nat} {site : CallSite}
    (found : c.graph.HasSite i site) : ∃ n, c.roles i = some n := by
  obtain ⟨s, found, -⟩ := found
  exact (Numbering.value?_isSome_iff _ i).mpr (valid.graph.bound_of_site? found)

/-- The edges of an answer that was cut short are those of the construction. -/
theorem links_finish_cut {why : Termination} {n m : Role} {site : CallSite} :
    (c.finish u (.cut why)).graph.Links n site m ↔ c.Knows (.edge n site m) := by
  rw [knows_edge_iff]
  exact .rfl

/-- In a complete answer, the calls without edges are led to the unknown. -/
theorem links_finish_complete (valid : c.Valid u) {n m : Role} {site : CallSite} :
    (c.finish u .complete).graph.Links n site m ↔ c.Knows (.edge n site m) ∨
      m = .unknown ∧ c.Knows (.site n site) ∧ ∀ k, ¬ c.Knows (.edge n site k) := by
  have sealed := valid.graph.sealed
  have same : ∀ {i : Nat} {r r' : Role}, c.roles i = some r →
      (c.finish u .complete).graph.methods.value? i = some r' → r' = r := fun here there =>
    Option.some.inj (there.symm.trans (sealed.methods _ _ here))
  constructor
  · rintro ⟨i, k, here, run, there⟩
    rcases (sealed.runs i site k).mp run with run | ⟨idle, unknown⟩
    · obtain ⟨r, known⟩ := valid.role_of_hasSite (.of_runs run)
      obtain ⟨r', known'⟩ := (Numbering.value?_isSome_iff _ k).mpr (valid.graph.lt_of_runs run)
      obtain rfl := same known here
      obtain rfl := same known' there
      exact .inl (.edge known run known')
    · obtain ⟨r, known⟩ := valid.role_of_hasSite idle.1
      obtain rfl := same known here
      exact .inr ⟨Option.some.inj (there.symm.trans unknown), (valid.idle_iff known).mp idle⟩
  · rintro (known | ⟨rfl, known, none⟩)
    · obtain ⟨i, k, here, run, there⟩ := knows_edge_iff.mp known
      exact ⟨i, k, sealed.methods _ _ here, (sealed.runs i site k).mpr (.inl run),
        sealed.methods _ _ there⟩
    · obtain ⟨i, here, -⟩ := knows_site_iff.mp known
      have idle := (valid.idle_iff here).mpr ⟨known, none⟩
      obtain ⟨k, there⟩ := sealed.unknown i site idle
      exact ⟨i, k, sealed.methods _ _ here, (sealed.runs i site k).mpr (.inr ⟨idle, there⟩), there⟩

end Construction

namespace Analysis

/-- Everything in an answer follows by the rules. -/
structure Sound (u : Setup) (a : Analysis) : Prop where
  wellFormed : a.graph.WellFormed
  holds : ∀ p o, a.Holds p o → u.Follows (.holds p o)
  nodes : ∀ i n, a.graph.methods.value? i = some n → u.Follows (.node n)
  links : ∀ n site m, a.graph.Links n site m → u.Follows (.edge n site m)

/-- An answer has just what follows by the rules, and its calls without edges are led to the
unknown. -/
structure Exact (u : Setup) (a : Analysis) : Prop where
  wellFormed : a.graph.WellFormed
  root : a.graph.methods.value? CallGraph.fakeRoot = some Role.root
  holds : ∀ p o, a.Holds p o ↔ u.Follows (.holds p o)
  known : ∀ n, u.Follows (.node n) → ∃ i, a.graph.methods.value? i = some n
  nodes : ∀ i n, a.graph.methods.value? i = some n → u.Follows (.node n) ∨ n = Role.unknown ∧
    ∃ m site, u.Follows (.site m site) ∧ ∀ k, ¬ u.Follows (.edge m site k)
  sites : ∀ n site, (∃ i, a.graph.methods.value? i = some n ∧ a.graph.HasSite i site) ↔
    u.Follows (.site n site)
  links : ∀ n site m, a.graph.Links n site m ↔ u.Follows (.edge n site m) ∨
    m = Role.unknown ∧ u.Follows (.site n site) ∧ ∀ k, ¬ u.Follows (.edge n site k)

end Analysis

namespace Construction

theorem Reached.sound_finish (reached : Reached u c) (why : Termination) :
    (c.finish u (.cut why)).Sound u where
  wellFormed := ⟨reached.valid.graph.size, reached.valid.graph.ascending,
    reached.valid.graph.targets⟩
  holds _ _ held := reached.sound _ ((holds_finish_iff reached.valid _).mp held)
  nodes _ _ here := reached.sound _ (.node here)
  links _ _ _ linked := reached.sound _ (links_finish_cut.mp linked)

theorem Reached.exact_finish (reached : Reached u c) (below : c.ceilingHit = false)
    (idle : c.solver.worklist.items = []) : (c.finish u .complete).Exact u := by
  have valid := reached.valid
  have sealed := valid.graph.sealed
  have iff := reached.knows_iff below idle
  refine ⟨sealed.wellFormed, sealed.methods _ _ valid.root, fun p o => ?_, fun n follows => ?_,
    fun i n here => ?_, fun n site => ?_, fun n site m => ?_⟩
  · rw [holds_finish_iff valid, iff]
  · obtain ⟨i, here⟩ := knows_node_iff.mp ((iff _).mpr follows)
    exact ⟨i, sealed.methods _ _ here⟩
  · rcases value?_finish valid here with known | ⟨-, rfl, m, site, known, none⟩
    · exact .inl ((iff _).mp (.node known))
    · exact .inr ⟨rfl, m, site, (iff _).mp known, fun k follows => none k ((iff _).mpr follows)⟩
  · rw [← iff, knows_site_iff]
    constructor
    · rintro ⟨i, here, found⟩
      have found := (hasSite_finish_iff valid .complete).mp found
      obtain ⟨r, known⟩ := valid.role_of_hasSite found
      have again := sealed.methods _ _ known
      rw [show (c.graph.finish true).methods.value? i = some n from here] at again
      cases again
      exact ⟨i, known, found⟩
    · rintro ⟨i, here, found⟩
      exact ⟨i, sealed.methods _ _ here, (hasSite_finish_iff valid .complete).mpr found⟩
  · simp only [← iff]
    exact links_finish_complete valid

end Construction

/-- What is valid is analyzed, and nothing else; the answer is what its construction ends with. -/
theorem analyze_eq_ok_iff {p : Program} {o : Options} {monitor : Nat → Option CancelReason}
    {a : Analysis} : analyze p o monitor = .ok a ↔
      p.validate = .ok () ∧ o.validate = .ok () ∧ a = (Setup.ofOptions p o).run monitor := by
  constructor
  · intro run
    unfold analyze checkAnalysis at run
    cases options : o.validate with
    | error why => simp [options] at run
    | ok =>
        cases program : p.validate with
        | error defect => simp [options, program] at run
        | ok =>
            simp only [options, program, Except.ok.injEq] at run
            exact ⟨rfl, rfl, run.symm⟩
  · rintro ⟨program, options, rfl⟩
    simp only [analyze, checkAnalysis, program, options]

theorem analyze_eq {p : Program} {o : Options} (program : p.validate = .ok ())
    (options : o.validate = .ok ()) (monitor : Nat → Option CancelReason) :
    analyze p o monitor = .ok ((Setup.ofOptions p o).run monitor) :=
  analyze_eq_ok_iff.mpr ⟨program, options, rfl⟩

theorem exists_reached_of_analyze {p : Program} {o : Options}
    {monitor : Nat → Option CancelReason} {a : Analysis} (run : analyze p o monitor = .ok a) :
    p.validate = .ok () ∧ o.validate = .ok () ∧ ∃ c, Construction.Reached (.ofOptions p o) c ∧
      a = c.finish (.ofOptions p o) a.completion ∧
      (a.completion = .complete → c.ceilingHit = false ∧ c.solver.worklist.items = []) := by
  obtain ⟨program, options, rfl⟩ := analyze_eq_ok_iff.mp run
  have reached := (Construction.reached_start (.ofOptions p o)).runWithin monitor (p.stepBound + 1)
  exact ⟨program, options, _, reached.1, rfl, reached.2⟩

/-- What is answered to an analysis that was cut short follows by the rules. -/
theorem sound_of_analyze {p : Program} {o : Options} {monitor : Nat → Option CancelReason}
    {a : Analysis} (run : analyze p o monitor = .ok a) (cut : a.completion ≠ .complete) :
    a.Sound (.ofOptions p o) := by
  obtain ⟨-, -, c, reached, same, -⟩ := exists_reached_of_analyze run
  rw [same]
  cases ended : a.completion with
  | complete => exact absurd ended cut
  | cut why => exact reached.sound_finish why

/-- Every location of an answer that holds something has a name. -/
theorem Construction.Reached.named_finish {c : Construction} (reached : Construction.Reached u c)
    (ended : Completion) {l : Location} {x : AbstractObject}
    (member : x ∈ (c.finish u ended).solution.objectsAt l) :
    ∃ q, (c.finish u ended).tables.placeOf? l = some q := by
  obtain ⟨k, -, here, -⟩ := (mem_objectsAt_iff c.solver).mp member
  obtain ⟨q, place⟩ := reached.valid.solver.locations k l here
  have grown : (c.solver.tables c.roles).Extends (c.finish u ended).tables :=
    ⟨methods_finish c u ended reached.valid, .refl _, .refl _, .refl _⟩
  exact ⟨q, grown.placeOf? place⟩

theorem named_of_analyze {p : Program} {o : Options} {monitor : Nat → Option CancelReason}
    {a : Analysis} (run : analyze p o monitor = .ok a) {l : Location} {x : AbstractObject}
    (member : x ∈ a.solution.objectsAt l) : ∃ q, a.tables.placeOf? l = some q := by
  obtain ⟨-, -, c, reached, same, -⟩ := exists_reached_of_analyze run
  rw [same] at member ⊢
  exact reached.named_finish _ member

theorem Analysis.holds_iff_of_placeOf? {a : Analysis} {l : Location} {q : Place Role}
    {x : AbstractObject} (place : a.tables.placeOf? l = some q) :
    a.Holds q x ↔ x ∈ a.solution.objectsAt l := by
  have distinct : a.tables.NodesDistinct := fun _ _ _ here there => Numbering.value?_inj here there
  constructor
  · rintro ⟨m, same, member⟩
    obtain rfl := Tables.placeOf?_inj distinct place same
    exact member
  · exact fun member => ⟨l, place, member⟩

/-- What a variable of a node holds is what a query for it finds. -/
theorem Analysis.heldBy_iff {a : Analysis} {n : Node} (node : a.graph.node? n.id = some n)
    {v : VarId} {x : AbstractObject} : a.HeldBy n v x ↔ x ∈ a.solution.objectsOfVar n.id v :=
  holds_iff_of_placeOf? (Tables.placeOf?_eq_var_iff.mpr
    ⟨n.id, rfl, (CallGraph.node?_eq_some_iff.mp node).1⟩)

/-- A complete analysis answers just what follows by the rules. -/
theorem exact_of_analyze {p : Program} {o : Options} {monitor : Nat → Option CancelReason}
    {a : Analysis} (run : analyze p o monitor = .ok a) (complete : a.completion = .complete) :
    a.Exact (.ofOptions p o) := by
  obtain ⟨-, -, c, reached, same, idle⟩ := exists_reached_of_analyze run
  rw [same, complete]
  exact reached.exact_finish (idle complete).1 (idle complete).2

theorem Analysis.Exact.heldBy_eq {a : Analysis} (exact : a.Exact u) (n : Node) :
    a.HeldBy n = u.Held n.role :=
  funext fun v => funext fun x => propext (exact.holds (.var n.role v) x)

/-- But for the unknown, the nodes and the edges of an exact answer follow. -/
theorem Analysis.Exact.follows_node {a : Analysis} (exact : a.Exact u) {i : Nat} {n : Role}
    (here : a.graph.methods.value? i = some n) (known : n.1 ≠ .unknown) :
    u.Follows (.node n) := by
  refine (exact.nodes i n here).resolve_right fun unknown => ?_
  exact known (congrArg Prod.fst unknown.1)

theorem Analysis.Exact.follows_function {a : Analysis} (exact : a.Exact u) {n : Node}
    {f : FunctionId} (node : a.graph.node? n.id = some n) (function : n.method = .function f) :
    u.Follows (.node n.role) := by
  apply exact.follows_node (CallGraph.node?_eq_some_iff.mp node).1
  intro unknown
  cases function.symm.trans unknown

theorem Analysis.Exact.follows_edge {a : Analysis} (exact : a.Exact u) {n m : Role}
    {site : CallSite} (linked : a.graph.Links n site m) (known : m.1 ≠ .unknown) :
    u.Follows (.edge n site m) := by
  refine ((exact.links n site m).mp linked).resolve_right fun unknown => ?_
  exact known (congrArg Prod.fst unknown.1)

theorem Analysis.Exact.exists_id {a : Analysis} (exact : a.Exact u) {n : Role}
    (follows : u.Follows (.node n)) : ∃ k, a.graph.node? k = some ⟨k, n.1, n.2⟩ := by
  obtain ⟨k, here⟩ := exact.known n follows
  exact ⟨k, CallGraph.node?_eq_some_iff.mpr ⟨here, rfl⟩⟩

theorem Analysis.Exact.exists_place {a : Analysis} (exact : a.Exact u) {l : Location}
    {x : AbstractObject} (named : ∃ q, a.tables.placeOf? l = some q)
    (member : x ∈ a.solution.objectsAt l) :
    ∃ q, a.tables.placeOf? l = some q ∧ u.Follows (.holds q x) := by
  obtain ⟨q, place⟩ := named
  exact ⟨q, place, (exact.holds q x).mp ⟨l, place, member⟩⟩

section Bodies

variable {p : Program} {n : Node} {f : FunctionId} {body : FunctionBody}

theorem Node.body?_of_function (function : n.method = .function f)
    (code : p.function? f = some body) : n.body? p = some body := by
  rw [body?, function]
  exact code

theorem Node.function_of_body? (runs : n.body? p = some body) : ∃ f, n.method = .function f := by
  obtain ⟨f, means, -⟩ := Option.bind_eq_some_iff.mp runs
  cases same : n.method with
  | function g => exact ⟨g, rfl⟩
  | fakeRoot => simp [same, Method.function?] at means
  | builtin b => simp [same, Method.function?] at means
  | unknown => simp [same, Method.function?] at means

theorem Setup.callOf?_of_body? (o : Options) (runs : n.body? p = some body) {pc : Nat} :
    (Setup.ofOptions p o).callOf? n.role pc = body.callAt? pc := by
  have same : (Setup.ofOptions p o).bodyOf? n.role = some body := runs
  rw [callOf?, same, Option.bind_some]

end Bodies

/-- A script that calls a function in all ways, and calls what is no function. -/
def Program.tour : Program where
  functions :=
    [{ id := 0
       name := "Ltour.js"
       thisVar := 0
       instructions :=
        [.closure 1 1, .newObject 2, .getProperty 3 1 "call",
          .invoke { dst := some 4, callee := 3, receiver := some 1, args := [2, 1] },
          .newArray 5, .constant 6 (.string "0"), .putDynamic 5 6 2, .getProperty 7 1 "apply",
          .invoke { dst := some 8, callee := 7, receiver := some 1, args := [2, 5] },
          .invoke { dst := some 9, callee := 1, args := [5], kind := .construct },
          .invoke { callee := 2 }, .globalWrite "g" 4] },
     { id := 1
       name := "Ltour.js/f"
       thisVar := 0
       params := [1]
       instructions := [.putProperty 0 "x" 1, .globalRead 2 "g", .ret (some 1)] }]
  entryPoints := [0]

/-- The options that tell most apart. -/
def Options.thorough : Options where
  algorithm := .oneCfa
  reflection := .full
  constantSpecific := true
  allocationKeys := .contextAllocations

theorem analyze_tour : ∃ a, analyze .tour .thorough (fun _ => none) = .ok a ∧
    a.completion = .complete ∧ a.graph.node? 2 = some ⟨2, .function 1, .callString 0 9⟩ := by
  have checked : checkAnalysis .tour .thorough = .ok () := by rfl
  refine ⟨(Setup.ofOptions .tour .thorough).run fun _ => none, ?_, by decide +kernel⟩
  rw [analyze, checked]

end CallFlow
