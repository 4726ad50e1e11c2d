import Mathlib.Logic.Relation
import CallFlow.Proofs.Construction.Evolution
import CallFlow.Proofs.Interruption

/-! How nodes come to be called. Each one but the root was created for a call of an older node that
runs it, so that a path of edges leads from the root to every node. -/

namespace CallFlow

open Relation

namespace CallGraph

/-- Some call of a node runs another one. -/
def Calls (g : CallGraph) (i k : Nat) : Prop := ∃ site, g.Runs i site k

/-- Every node but the root is run by a call of an older one. -/
structure Rooted (g : CallGraph) : Prop where
  wellFormed : g.WellFormed
  called : ∀ k, 0 < k → k < g.nodeCount → ∃ i, i < k ∧ g.Calls i k

variable {u : Setup} {g h : CallGraph} {id i k : Nat}

theorem calls_of_site? {pc : Nat} {s : SiteTargets} (found : g.site? id pc = some s)
    (member : k ∈ s.targets.toList) : g.Calls id k := by
  obtain rfl := pc_of_site? found
  exact ⟨s.site, s, found, rfl, member⟩

theorem WellFormed.calls_alter (wf : g.WellFormed) (bound : id < g.nodeCount) (site : CallSite)
    {f : SiteTargets → SiteTargets} (keeps : ∀ s, (f s).site = s.site)
    (grows : ∀ s j, j ∈ s.targets.toList → j ∈ (f s).targets.toList) (calls : g.Calls i k) :
    (g.updateSites id (SiteTargets.alter site f)).Calls i k := by
  obtain ⟨other, s, found, -, member⟩ := calls
  have altered := wf.site?_alter bound site keeps i other.pc
  by_cases here : i = id ∧ other.pc = site.pc
  · obtain ⟨rfl, place⟩ := here
    rw [if_pos ⟨rfl, place⟩, found] at altered
    exact calls_of_site? altered (grows s k member)
  · rw [if_neg here, found] at altered
    exact calls_of_site? altered member

theorem WellFormed.calls_addSite (wf : g.WellFormed) (bound : id < g.nodeCount) (site : CallSite)
    (calls : g.Calls i k) : (g.addSite id site).Calls i k :=
  wf.calls_alter bound site (fun _ => rfl) (fun _ _ member => member) calls

theorem WellFormed.calls_of_addEdge (wf : g.WellFormed) (bound : id < g.nodeCount)
    (site : CallSite) (callee : Nat) (calls : g.Calls i k) :
    (g.addEdge id site callee).2.Calls i k := by
  unfold CallGraph.addEdge
  rw [if_pos bound]
  split
  · exact calls
  · refine wf.calls_alter bound site (f := SiteTargets.add callee) (fun _ => rfl) ?_ calls
    exact fun s j member => (IdSet.mem_insert s.targets callee j).mpr (.inr member)

theorem WellFormed.calls_addEdge (wf : g.WellFormed) (bound : id < g.nodeCount) (site : CallSite)
    (k : Nat) : (g.addEdge id site k).2.Calls id k := by
  unfold CallGraph.addEdge
  rw [if_pos bound]
  split
  · rename_i known
    obtain ⟨s, found, member⟩ := exists_site?_of_hasEdge known
    exact calls_of_site? found member
  · have keeps : ∀ s, (SiteTargets.add k s).site = s.site := fun _ => rfl
    have found := wf.site?_alter bound site keeps id site.pc
    rw [if_pos ⟨rfl, rfl⟩] at found
    exact calls_of_site? found ((IdSet.mem_insert _ k k).mpr (.inl rfl))

theorem calls_addNode (m : Method) (c : Context) :
    (g.addNode m c).2.Calls i k ↔ g.Calls i k := by
  unfold Calls Runs
  simp only [site?_addNode]

theorem rooted_new : new.Rooted where
  wellFormed := wellFormed_new
  called _ some bound := absurd bound (Nat.not_lt_of_le some)

theorem Rooted.addSite (rooted : g.Rooted) (bound : id < g.nodeCount) (site : CallSite) :
    (g.addSite id site).Rooted where
  wellFormed := rooted.wellFormed.addSite bound site
  called k some old := by
    obtain ⟨i, less, calls⟩ := rooted.called k some old
    exact ⟨i, less, rooted.wellFormed.calls_addSite bound site calls⟩

theorem Rooted.addEdge (rooted : g.Rooted) (bound : id < g.nodeCount) (site : CallSite)
    (callee : k < g.nodeCount) : (g.addEdge id site k).2.Rooted where
  wellFormed := rooted.wellFormed.addEdge site callee
  called j some old := by
    unfold nodeCount at old
    rw [methods_addEdge] at old
    obtain ⟨i, less, calls⟩ := rooted.called j some old
    exact ⟨i, less, rooted.wellFormed.calls_of_addEdge bound site k calls⟩

theorem Rooted.joined (rooted : g.Rooted) (bound : id < g.nodeCount) (site : CallSite) {m : Method}
    {ctx : Context} (new : g.find? m ctx = none) :
    (joined id site (g.addNode m ctx)).Rooted := by
  have added := rooted.wellFormed.addNode m ctx
  have kept : ∀ i k, (g.addNode m ctx).2.Calls i k ↔ g.Calls i k := fun i k => calls_addNode m ctx
  have fresh : g.methods.find? (m, ctx) = none := new
  have number : (g.addNode m ctx).1.1 = g.nodeCount :=
    congrArg Prod.fst (Numbering.number_of_new fresh)
  have callee := Numbering.lt_size_of_value? (value?_addNode g m ctx)
  have caller : id < (g.addNode m ctx).2.nodeCount :=
    Nat.lt_of_lt_of_le bound (Numbering.extends_number g.methods (m, ctx)).size_le
  have count := nodeCount_joined new id site
  generalize g.addNode m ctx = x at added kept number callee caller count ⊢
  refine ⟨added.addEdge site callee, fun k some old => ?_⟩
  rw [count] at old
  -- the new node is the last one, so whoever calls it is older
  by_cases last : k = g.nodeCount
  · rw [last, ← number]
    exact ⟨id, number.symm ▸ bound, added.calls_addEdge caller site x.1.1⟩
  · obtain ⟨i, less, calls⟩ := rooted.called k some (by omega)
    exact ⟨i, less, added.calls_of_addEdge caller site x.1.1 ((kept i k).mpr calls)⟩

theorem Evolves.rooted (evolves : g.Evolves u h) (rooted : g.Rooted) : h.Rooted := by
  induction evolves with
  | refl => exact rooted
  | site _ bound ih => exact ih.addSite bound _
  | edge _ bound callee ih => exact ih.addEdge bound _ callee
  | node _ bound new _ ih => exact ih.joined bound _ new

theorem Rooted.finish (rooted : g.Rooted) (complete : Bool) : (g.finish complete).Rooted := by
  have wf := rooted.wellFormed
  cases complete with
  | false => exact ⟨⟨wf.size, wf.ascending, wf.targets⟩, rooted.called⟩
  | true =>
      have sealed := wf.sealed
      refine ⟨sealed.wellFormed, fun k some bound => ?_⟩
      by_cases old : k < g.nodeCount
      · obtain ⟨i, less, site, run⟩ := rooted.called k some old
        exact ⟨i, less, site, (sealed.runs i site k).mpr (.inl run)⟩
      · obtain ⟨n, here⟩ := (Numbering.value?_isSome_iff _ k).mpr bound
        rcases sealed.nodes k n here with before | ⟨rfl, i, site, idle⟩
        · exact absurd (Numbering.lt_size_of_value? before) old
        · -- the unknown is created last, so every call that is led to it is of an older node
          obtain ⟨s, found, -⟩ := idle.1
          have caller := wf.bound_of_site? found
          exact ⟨i, by omega, site, (sealed.runs i site k).mpr (.inr ⟨idle, here⟩)⟩

/-- Each node is called as it should be: the root by nobody, and any other node by an older one. -/
structure Called (g : CallGraph) : Prop where
  root : g.node? fakeRoot = some ⟨fakeRoot, .fakeRoot, .everywhere⟩
  called : ∀ k, k ≠ fakeRoot → k < g.nodeCount → ∃ e ∈ g.edges, e.callee = k ∧ e.caller < k
  reachable : ∀ k, k < g.nodeCount →
    ReflTransGen (fun i j => ∃ e ∈ g.edges, e.caller = i ∧ e.callee = j) fakeRoot k
  uncalled : ∀ e ∈ g.edges, e.callee ≠ fakeRoot

theorem Rooted.exists_edge (rooted : g.Rooted) (some : k ≠ fakeRoot) (bound : k < g.nodeCount) :
    ∃ e ∈ g.edges, e.callee = k ∧ e.caller < k := by
  obtain ⟨i, less, site, run⟩ := rooted.called k (Nat.pos_of_ne_zero some) bound
  exact ⟨⟨i, site, k⟩, (rooted.wellFormed.mem_edges_iff _).mpr run, rfl, less⟩

theorem Rooted.reachable (rooted : g.Rooted) (bound : k < g.nodeCount) :
    ReflTransGen (fun i j => ∃ e ∈ g.edges, e.caller = i ∧ e.callee = j) fakeRoot k := by
  -- each caller is older, so the way back ends at the root
  induction k using Nat.strongRecOn with
  | ind k ih =>
      by_cases root : k = fakeRoot
      · rw [root]
      · obtain ⟨e, member, callee, less⟩ := rooted.exists_edge root bound
        exact (ih e.caller less (by omega)).tail ⟨e, member, rfl, callee⟩

end CallGraph

namespace Construction

variable {u : Setup} {c : Construction}

/-- However a run goes, the graph of its construction is rooted. -/
theorem rooted_runWithin (u : Setup) (monitor : Nat → Option CancelReason) (fuel : Nat) :
    ((start u).runWithin u monitor fuel).2.graph.Rooted := by
  have evolves := (evolves_start u).trans (evolves_runWithin monitor fuel (start u))
  exact evolves.graph.rooted CallGraph.rooted_new

/-- The edges of an answer are those of the construction, but for those to the unknown. -/
theorem Valid.links_finish (valid : c.Valid u) (ended : Completion) {n m : Role} {site : CallSite}
    (linked : (c.finish u ended).graph.Links n site m) :
    c.Knows (.edge n site m) ∨ m = .unknown := by
  cases ended with
  | cut why => exact .inl (links_finish_cut.mp linked)
  | complete => exact ((links_finish_complete valid).mp linked).imp_right And.left

/-- The edges of an answer follow by the rules, but for those to the unknown. -/
theorem Reached.links_finish (reached : Reached u c) (ended : Completion) {n m : Role}
    {site : CallSite} (linked : (c.finish u ended).graph.Links n site m) :
    u.Follows (.edge n site m) ∨ m = .unknown :=
  (reached.valid.links_finish ended linked).imp_left (reached.sound _)

theorem Reached.called_finish (reached : Reached u c) (rooted : c.graph.Rooted)
    (ended : Completion) : (c.finish u ended).graph.Called := by
  have finished : (c.finish u ended).graph.Rooted := rooted.finish ended.isComplete
  have root := methods_finish c u ended reached.valid _ _ reached.valid.root
  refine ⟨CallGraph.node?_eq_some_iff.mpr ⟨root, rfl⟩, fun k some bound => ?_, fun k bound => ?_,
    fun e member callee => ?_⟩
  · exact finished.exists_edge some bound
  · exact finished.reachable bound
  · have run := (finished.wellFormed.mem_edges_iff e).mp member
    rw [callee] at run
    have ⟨s, found, _⟩ := run
    have bound := finished.wellFormed.bound_of_site? found
    obtain ⟨n, here⟩ := (Numbering.value?_isSome_iff _ e.caller).mpr bound
    -- what follows by the rules runs code, and the root has none
    rcases reached.links_finish ended ⟨_, _, here, run, root⟩ with follows | unknown
    · cases follows.callee_isSynthetic
    · cases unknown

end Construction

variable {p : Program} {o : Options}

/-- However an analysis ends, each node but the root is called by an older one and reached from the
root, and nobody calls the root. -/
theorem nodes_called (program : p.validate = .ok ()) (options : o.validate = .ok ())
    (monitor : Nat → Option CancelReason) :
    ∃ a, analyze p o monitor = .ok a ∧ a.graph.Called := by
  have reached :=
    ((Construction.reached_start (.ofOptions p o)).runWithin monitor (p.stepBound + 1)).1
  have rooted := Construction.rooted_runWithin (.ofOptions p o) monitor (p.stepBound + 1)
  exact ⟨_, analyze_eq program options monitor, reached.called_finish rooted _⟩

/-- A request to stop the analysis before its eleventh step. -/
def stopAfterTen (done : Nat) : Option CancelReason := if done < 10 then none else some .requested

/-- The small program is stopped when one of its nodes is not visited yet. -/
theorem nodes_called_tour : Program.tour.validate = .ok () ∧ Options.thorough.validate = .ok () ∧
    ∃ a, analyze .tour .thorough stopAfterTen = .ok a ∧
      a.completion = .cut (.canceled .requested) ∧ a.graph.nodeCount = 3 ∧ a.graph.Called := by
  have program : Program.tour.validate = .ok () := by rfl
  have options : Options.thorough.validate = .ok () := by rfl
  obtain ⟨a, run, called⟩ := nodes_called program options stopAfterTen
  have stopped : a.completion = .cut (.canceled .requested) ∧ a.graph.nodeCount = 3 := by
    obtain ⟨-, -, rfl⟩ := analyze_eq_ok_iff.mp run
    decide +kernel
  exact ⟨program, options, a, run, stopped.1, stopped.2, called⟩

end CallFlow
