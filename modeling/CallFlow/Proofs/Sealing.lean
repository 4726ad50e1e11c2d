import CallFlow.Proofs.Graph

/-! Finished graphs. If everything was found, finishing a graph leads each call that runs nothing to
the node for the unknown, and adds nothing else. -/

namespace CallFlow

section Repetitions

variable {α : Type} [BEq α] [LawfulBEq α]

theorem mem_eraseRepsBy_loop (xs : List α) (a x : α) (seen : List α) :
    x ∈ List.eraseRepsBy.loop (· == ·) a xs seen ↔ x = a ∨ x ∈ xs ∨ x ∈ seen := by
  induction xs generalizing a seen with
  | nil => simp [List.eraseRepsBy.loop, or_comm]
  | cons b xs ih =>
      unfold List.eraseRepsBy.loop
      split
      · rename_i same
        rw [ih, List.mem_cons, ← eq_of_beq same]
        exact ⟨fun h => h.imp_right fun h => h.imp_left .inr, by grind⟩
      · rw [ih, List.mem_cons, List.mem_cons]
        grind

theorem mem_eraseReps_iff (xs : List α) (x : α) : x ∈ xs.eraseReps ↔ x ∈ xs := by
  cases xs with
  | nil => rfl
  | cons a xs => simp [List.eraseReps, List.eraseRepsBy, mem_eraseRepsBy_loop]

end Repetitions

namespace CallGraph

variable {g : CallGraph} {id k : Nat} {site : CallSite}

/-- A call of a node runs nothing. -/
def Idle (g : CallGraph) (id : Nat) (site : CallSite) : Prop :=
  g.HasSite id site ∧ ∀ k, ¬ g.Runs id site k

theorem mem_sites_of_site? {pc : Nat} {s : SiteTargets} (found : g.site? id pc = some s) :
    s ∈ g.sites id :=
  (SiteTargets.mem_of_find? found).1

theorem WellFormed.site?_of_mem (h : g.WellFormed) {s : SiteTargets} (member : s ∈ g.sites id) :
    g.site? id s.site.pc = some s :=
  (h.ascending id).find?_of_mem member

theorem HasSite.agrees (h : g.HasSite id site) : g.Agrees id site := by
  obtain ⟨s, found, same⟩ := h
  intro t there
  rw [found] at there
  cases there
  exact same

theorem HasSite.of_runs (run : g.Runs id site k) : g.HasSite id site := by
  obtain ⟨s, found, same, -⟩ := run
  exact ⟨s, found, same⟩

theorem WellFormed.lt_of_runs (h : g.WellFormed) (run : g.Runs id site k) : k < g.nodeCount := by
  obtain ⟨s, found, -, member⟩ := run
  exact h.targets id _ s k found member

theorem mem_calls_iff {ss : List SiteTargets} :
    (ss, id) ∈ g.calls.toList.zipIdx ↔ id < g.calls.size ∧ ss = g.sites id := by
  rw [List.mem_zipIdx_iff_getElem?, Array.getElem?_toList]
  unfold sites
  constructor
  · intro here
    obtain ⟨bound, same⟩ := Array.getElem?_eq_some_iff.mp here
    have same : g.calls[id] = ss := same
    exact ⟨bound, by simp [Array.getD, show id < g.calls.size from bound, same]⟩
  · rintro ⟨bound, rfl⟩
    simp [Array.getD, bound]

theorem WellFormed.mem_unresolved_iff (h : g.WellFormed) :
    (id, site) ∈ g.unresolved ↔ g.Idle id site := by
  unfold unresolved
  simp only [List.mem_flatMap, List.mem_map, List.mem_filter, Prod.exists, mem_calls_iff]
  constructor
  · rintro ⟨ss, i, ⟨-, rfl⟩, s, ⟨member, none⟩, same⟩
    cases same
    have found := h.site?_of_mem member
    refine ⟨⟨s, found, rfl⟩, fun k run => ?_⟩
    obtain ⟨t, there, -, target⟩ := run
    rw [found] at there
    cases there
    rw [(IdSet.isEmpty_iff _).mp none] at target
    cases target
  · rintro ⟨⟨s, found, rfl⟩, none⟩
    refine ⟨g.sites id, id, ⟨h.size ▸ h.bound_of_site? found, rfl⟩, s,
      ⟨mem_sites_of_site? found, ?_⟩, rfl⟩
    refine (IdSet.isEmpty_iff _).mpr (List.eq_nil_iff_forall_not_mem.mpr fun k member => ?_)
    exact none k ⟨s, found, rfl, member⟩

theorem WellFormed.mem_edges_iff (h : g.WellFormed) (e : Edge) :
    e ∈ g.edges ↔ g.Runs e.caller e.site e.callee := by
  unfold edges
  simp only [List.mem_flatMap, List.mem_map, Prod.exists, mem_calls_iff]
  constructor
  · rintro ⟨ss, i, ⟨-, rfl⟩, s, member, k, target, rfl⟩
    exact ⟨s, h.site?_of_mem member, rfl, target⟩
  · rintro ⟨s, found, same, target⟩
    refine ⟨g.sites e.caller, e.caller, ⟨h.size ▸ h.bound_of_site? found, rfl⟩, s,
      mem_sites_of_site? found, e.callee, target, ?_⟩
    rw [same]

/-- A call of one node may run another, by what these stand for. -/
def Links (g : CallGraph) (n : Method × Context) (site : CallSite) (m : Method × Context) : Prop :=
  ∃ i k, g.methods.value? i = some n ∧ g.Runs i site k ∧ g.methods.value? k = some m

theorem edgeKey?_eq_some_iff (e : Edge) (key : EdgeKey) :
    g.edgeKey? e = some key ↔ ∃ n m, g.methods.value? e.caller = some n ∧
      g.methods.value? e.callee = some m ∧ key = ⟨n.1, n.2, e.site.pc, m.1, m.2⟩ := by
  unfold edgeKey? node?
  cases g.methods.value? e.caller <;> cases g.methods.value? e.callee <;> simp [eq_comm]

/-- The listed edges are the calls of nodes by what these stand for. -/
theorem WellFormed.mem_edgeKeys_iff (h : g.WellFormed) (key : EdgeKey) :
    key ∈ g.edgeKeys ↔
      ∃ n site m, g.Links n site m ∧ key = ⟨n.1, n.2, site.pc, m.1, m.2⟩ := by
  unfold edgeKeys
  rw [mem_eraseReps_iff, List.mem_mergeSort, List.mem_filterMap]
  constructor
  · rintro ⟨e, member, named⟩
    obtain ⟨n, m, here, there, same⟩ := (edgeKey?_eq_some_iff e key).mp named
    exact ⟨n, e.site, m, ⟨e.caller, e.callee, here, (h.mem_edges_iff e).mp member, there⟩, same⟩
  · rintro ⟨n, site, m, ⟨i, k, here, run, there⟩, same⟩
    exact ⟨⟨i, site, k⟩, (h.mem_edges_iff _).mpr run,
      (edgeKey?_eq_some_iff _ key).mpr ⟨n, m, here, there, same⟩⟩

/-- The second graph is the first one with some of its calls led to a node. -/
structure Leads (g : CallGraph) (k : Nat) (waiting : List (Nat × CallSite)) (g' : CallGraph) :
    Prop where
  wellFormed : g'.WellFormed
  methods : g'.methods = g.methods
  sites : ∀ id site, g'.HasSite id site ↔ g.HasSite id site
  runs : ∀ id site i, g'.Runs id site i ↔ g.Runs id site i ∨ (id, site) ∈ waiting ∧ i = k

theorem WellFormed.foldl_addEdge (h : g.WellFormed) (callee : k < g.nodeCount)
    (waiting : List (Nat × CallSite)) (calls : ∀ x ∈ waiting, g.HasSite x.1 x.2) :
    g.Leads k waiting (waiting.foldl (fun g (id, site) => (g.addEdge id site k).2) g) := by
  induction waiting generalizing g with
  | nil => exact ⟨h, rfl, fun _ _ => .rfl, by simp⟩
  | cons x waiting ih =>
      obtain ⟨id, site⟩ := x
      have here := calls _ List.mem_cons_self
      have agrees := HasSite.agrees here
      have bound : id < g.nodeCount := by
        obtain ⟨s, found, -⟩ := here
        exact h.bound_of_site? found
      have added : (g.addEdge id site k).2.WellFormed := h.addEdge site callee
      have methods := methods_addEdge g id site k
      -- the calls are there already, so that each step adds a target and no call
      have sites : ∀ other site', (g.addEdge id site k).2.HasSite other site' ↔
          g.HasSite other site' := by
        intro other site'
        rw [h.hasSite_addEdge bound agrees]
        exact or_iff_left_of_imp fun ⟨same, same'⟩ => same ▸ same' ▸ here
      have count : (g.addEdge id site k).2.nodeCount = g.nodeCount := by
        unfold nodeCount
        rw [methods]
      have rest := ih added (count ▸ callee) fun y member =>
        (sites _ _).mpr (calls y (List.mem_cons_of_mem _ member))
      refine ⟨rest.wellFormed, rest.methods.trans methods,
        fun i s => (rest.sites i s).trans (sites i s), fun i s j => ?_⟩
      refine (rest.runs i s j).trans ?_
      rw [h.runs_addEdge bound agrees, List.mem_cons, Prod.mk.injEq]
      grind

/-- The second graph is the first one with its idle calls led to the unknown. -/
structure Sealed (g g' : CallGraph) : Prop where
  wellFormed : g'.WellFormed
  methods : g.methods.Extends g'.methods
  nodes : ∀ i n, g'.methods.value? i = some n → g.methods.value? i = some n ∨
    n = (.unknown, .everywhere) ∧ ∃ id site, g.Idle id site
  unknown : ∀ id site, g.Idle id site → ∃ k, g'.methods.value? k = some (.unknown, .everywhere)
  sites : ∀ id site, g'.HasSite id site ↔ g.HasSite id site
  runs : ∀ id site k, g'.Runs id site k ↔
    g.Runs id site k ∨ g.Idle id site ∧ g'.methods.value? k = some (.unknown, .everywhere)

def withUnknown (g : CallGraph) : CallGraph :=
  { (g.addNode .unknown .everywhere).2 with unknown := some (g.addNode .unknown .everywhere).1.1 }

theorem WellFormed.withUnknown (h : g.WellFormed) : g.withUnknown.WellFormed :=
  have added := h.addNode .unknown .everywhere
  ⟨added.size, added.ascending, added.targets⟩

theorem hasSite_withUnknown : g.withUnknown.HasSite id site ↔ g.HasSite id site := by
  have same : g.withUnknown.site? id site.pc = g.site? id site.pc := site?_addNode g _ _ _ _
  unfold HasSite
  rw [same]

theorem runs_withUnknown : g.withUnknown.Runs id site k ↔ g.Runs id site k := by
  have same : g.withUnknown.site? id site.pc = g.site? id site.pc := site?_addNode g _ _ _ _
  unfold Runs
  rw [same]

/-- A graph is sealed when exactly its idle calls are led to the unknown. -/
theorem Leads.sealed {g' : CallGraph} {waiting : List (Nat × CallSite)}
    (led : g.withUnknown.Leads (g.addNode .unknown .everywhere).1.1 waiting g')
    (some : waiting ≠ []) (idle : ∀ id site, (id, site) ∈ waiting ↔ g.Idle id site) :
    g.Sealed g' := by
  have methods : g'.methods = (g.methods.number (.unknown, .everywhere)).2 := led.methods
  have unknown : g'.methods.value? (g.addNode .unknown .everywhere).1.1 =
      .some (.unknown, .everywhere) := by
    rw [methods]
    exact value?_addNode g .unknown .everywhere
  refine ⟨led.wellFormed, ?_, fun i n here => ?_, fun _ _ _ => ⟨_, unknown⟩,
    fun id site => ?_, fun id site k => ?_⟩
  · rw [methods]
    exact Numbering.extends_number _ _
  · rw [methods, Numbering.value?_number_eq_some_iff] at here
    obtain ⟨x, member⟩ := List.exists_mem_of_ne_nil _ some
    exact here.imp_right fun new => ⟨new.2, x.1, x.2, (idle x.1 x.2).mp member⟩
  · exact (led.sites id site).trans hasSite_withUnknown
  · refine (led.runs id site k).trans (or_congr runs_withUnknown (and_congr (idle id site) ?_))
    constructor
    · rintro rfl
      exact unknown
    · exact fun here => Numbering.value?_inj here unknown

/-- Finishing a graph of which everything was found leads just its idle calls to the unknown. -/
theorem WellFormed.sealed (h : g.WellFormed) : g.Sealed (g.finish true) := by
  have closed : CallGraph.WellFormed { g with isComplete := true } :=
    ⟨h.size, h.ascending, h.targets⟩
  unfold finish
  simp only [↓reduceIte]
  have idle : ∀ id site, (id, site) ∈ CallGraph.unresolved { g with isComplete := true } ↔
      g.Idle id site := fun id site => closed.mem_unresolved_iff
  cases waiting : CallGraph.unresolved { g with isComplete := true } with
  | nil =>
      have busy : ∀ id site, ¬ g.Idle id site := fun id site here => by
        have member := (idle id site).mpr here
        rw [waiting] at member
        cases member
      exact ⟨closed, .refl _, fun _ _ => .inl,
        fun id site here => absurd here (busy id site), fun _ _ => .rfl,
        fun id site k => (or_iff_left_of_imp fun here => absurd here.1 (busy id site)).symm⟩
  | cons x rest =>
      rw [waiting] at idle
      have unknown := value?_addNode { g with isComplete := true } .unknown .everywhere
      have led := closed.withUnknown.foldl_addEdge (Numbering.lt_size_of_value? unknown)
        (x :: rest) fun y member => hasSite_withUnknown.mpr ((idle y.1 y.2).mp member).1
      have sealed := led.sealed (List.cons_ne_nil x rest) idle
      exact ⟨sealed.wellFormed, sealed.methods, sealed.nodes, sealed.unknown, sealed.sites,
        sealed.runs⟩

end CallGraph

end CallFlow
