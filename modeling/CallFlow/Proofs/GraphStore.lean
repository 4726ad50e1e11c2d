import CallFlow.Proofs.Ceiling
import CallFlow.Proofs.Construction.Served

/-! Call graphs as stores. A graph keeps its nodes twice and its edges three times, and all of these
always tell the same. -/

namespace CallFlow

/-- Changing one element changes a sum by what it changes for this element. -/
theorem sum_map_modify {α : Type} (h : α → Nat) (f : α → α) (d : Nat) {xs : List α} {i : Nat}
    {x : α} (here : xs[i]? = some x) (grown : h (f x) = h x + d) :
    ((xs.modify i f).map h).sum = (xs.map h).sum + d := by
  induction xs generalizing i with
  | nil => simp at here
  | cons y ys ih =>
      cases i with
      | zero =>
          obtain rfl : y = x := by simpa using here
          simp only [List.modify_zero_cons, List.map_cons, List.sum_cons, grown]
          omega
      | succ i =>
          have later := ih (i := i) (by simpa using here)
          simp only [List.modify_succ_cons, List.map_cons, List.sum_cons, later]
          omega

/-- What different elements are sent to is different, if no two elements are sent to the same. -/
theorem nodup_filterMap {α β : Type} {f : α → Option β} {xs : List α} (distinct : xs.Nodup)
    (apart : ∀ x ∈ xs, ∀ y ∈ xs, ∀ z, f x = some z → f y = some z → x = y) :
    (xs.filterMap f).Nodup := by
  refine List.Pairwise.filterMap f (R := fun x y => x ∈ xs ∧ y ∈ xs ∧ x ≠ y) ?_
    (distinct.imp_of_mem fun first second different => ⟨first, second, different⟩)
  rintro x y ⟨first, second, different⟩ z here z' there rfl
  exact different (apart x first y second z here there)

section Repetitions

variable {α : Type} [BEq α] [LawfulBEq α]

theorem eraseRepsBy_loop_of_nodup {a : α} {xs : List α} (distinct : (a :: xs).Nodup)
    (seen : List α) : List.eraseRepsBy.loop (· == ·) a xs seen = seen.reverse ++ a :: xs := by
  induction xs generalizing a seen with
  | nil => simp [List.eraseRepsBy.loop]
  | cons b xs ih =>
      have apart : (a == b) = false := by
        apply beq_false_of_ne
        intro same
        exact (List.nodup_cons.mp distinct).1 (same ▸ List.mem_cons_self)
      unfold List.eraseRepsBy.loop
      rw [apart, ih (List.nodup_cons.mp distinct).2]
      simp

theorem eraseReps_of_nodup {xs : List α} (distinct : xs.Nodup) : xs.eraseReps = xs := by
  cases xs with
  | nil => rfl
  | cons a xs => exact eraseRepsBy_loop_of_nodup distinct []

end Repetitions

namespace SiteTargets

variable {site : CallSite} {f : SiteTargets → SiteTargets} {ss : List SiteTargets} {d : Nat}

def edgeTotal (ss : List SiteTargets) : Nat := (ss.map (·.targets.size)).sum

theorem edgeTotal_alter (fresh : (f { site }).targets.size = d)
    (known : ∀ s, find? site.pc ss = some s → (f s).targets.size = s.targets.size + d) :
    edgeTotal (alter site f ss) = edgeTotal ss + d := by
  induction ss with
  | nil => simpa [alter, edgeTotal] using fresh
  | cons s rest ih =>
      unfold alter
      split
      · simp only [edgeTotal, List.map_cons, List.sum_cons, fresh]
        omega
      · split
        · rename_i same
          have grown := known s (by rw [find?_cons, if_pos same.symm])
          simp only [edgeTotal, List.map_cons, List.sum_cons, grown]
          omega
        · rename_i apart
          have later := ih fun t found =>
            known t (by rw [find?_cons, if_neg (Ne.symm apart), found])
          simp only [edgeTotal, List.map_cons, List.sum_cons] at later ⊢
          omega

theorem size_add {k : Nat} {s : SiteTargets} (new : s.targets.contains k = false) :
    (s.add k).targets.size = s.targets.size + 1 := by
  apply IdSet.size_insert
  unfold IdSet.contains at new
  unfold IdSet.insert
  split
  · rename_i found
    rw [found] at new
    cases new
  · rfl

end SiteTargets

/-- One edge stands before another: by the callers, then by the places, then by the callees. -/
def Edge.Before (d e : Edge) : Prop :=
  d.caller < e.caller ∨ d.caller = e.caller ∧
    (d.site.pc < e.site.pc ∨ d.site.pc = e.site.pc ∧ d.callee < e.callee)

theorem Edge.Before.ne {d e : Edge} (before : d.Before e) : d ≠ e := by
  rintro rfl
  unfold Edge.Before at before
  omega

namespace CallGraph

variable {g h : CallGraph} {id k : Nat} {site : CallSite}

theorem length_edges (g : CallGraph) :
    g.edges.length = (g.calls.toList.map SiteTargets.edgeTotal).sum := by
  have rows : ∀ row : List SiteTargets × Nat,
      (row.1.flatMap fun s => s.targets.toList.map fun callee =>
        (⟨row.2, s.site, callee⟩ : Edge)).length = SiteTargets.edgeTotal row.1 := by
    intro row
    simp [SiteTargets.edgeTotal, List.length_flatMap, IdSet.size_eq_length_toList]
  have firsts := congrArg (List.map SiteTargets.edgeTotal) (List.zipIdx_map_fst 0 g.calls.toList)
  rw [List.map_map] at firsts
  unfold edges
  rw [List.length_flatMap, List.map_congr_left fun row _ => rows row]
  exact congrArg List.sum firsts

theorem length_edges_updateSites {f : List SiteTargets → List SiteTargets} {d : Nat}
    (bound : id < g.calls.size)
    (grown : SiteTargets.edgeTotal (f (g.sites id)) = SiteTargets.edgeTotal (g.sites id) + d) :
    (g.updateSites id f).edges.length = g.edges.length + d := by
  have here : g.calls.toList[id]? = some (g.sites id) := by
    simp [sites, bound]
  rw [length_edges, length_edges]
  exact Array.toList_modify ▸ sum_map_modify SiteTargets.edgeTotal f d here grown

/-- A graph is well formed, its targets are in order, and it has as many edges as it says. -/
structure Counted (g : CallGraph) : Prop where
  wellFormed : g.WellFormed
  sorted : g.Sorted
  count : g.edgeCount = g.edges.length

theorem counted_new : new.Counted := ⟨wellFormed_new, sorted_new, rfl⟩

theorem Counted.addNode (counted : g.Counted) (m : Method) (c : Context) :
    (g.addNode m c).2.Counted := by
  refine ⟨counted.wellFormed.addNode m c, ?_, ?_⟩
  · intro id s member
    rw [sites_addNode] at member
    exact counted.sorted id s member
  · refine counted.count.trans ?_
    rw [length_edges, length_edges]
    unfold CallGraph.addNode
    dsimp only
    split <;> simp [SiteTargets.edgeTotal]

theorem Counted.addSite (counted : g.Counted) (bound : id < g.nodeCount) (site : CallSite) :
    (g.addSite id site).Counted := by
  refine ⟨counted.wellFormed.addSite bound site,
    counted.sorted.alter id site fun _ ascending => ascending, ?_⟩
  have kept : SiteTargets.edgeTotal (SiteTargets.alter site (fun s => s) (g.sites id)) =
      SiteTargets.edgeTotal (g.sites id) + 0 := SiteTargets.edgeTotal_alter rfl fun _ _ => rfl
  exact counted.count.trans (length_edges_updateSites (counted.wellFormed.size ▸ bound) kept).symm

theorem Counted.addEdge (counted : g.Counted) (id : Nat) (site : CallSite)
    (callee : k < g.nodeCount) : (g.addEdge id site k).2.Counted := by
  refine ⟨counted.wellFormed.addEdge site callee, counted.sorted.addEdge id site k, ?_⟩
  unfold CallGraph.addEdge
  split
  · rename_i bound
    split
    · exact counted.count
    · rename_i new
      have grown : SiteTargets.edgeTotal (SiteTargets.alter site (SiteTargets.add k) (g.sites id)) =
          SiteTargets.edgeTotal (g.sites id) + 1 := by
        refine SiteTargets.edgeTotal_alter (SiteTargets.size_add (s := { site }) rfl) fun s found =>
          SiteTargets.size_add ?_
        rw [Bool.eq_false_iff]
        intro known
        exact new ((hasEdge_iff_of_site? found k).mpr known)
      have longer := length_edges_updateSites (counted.wellFormed.size ▸ bound) grown
      exact (congrArg (· + 1) counted.count).trans longer.symm
  · exact counted.count

theorem Counted.foldl_addEdge (counted : g.Counted) (callee : k < g.nodeCount)
    (waiting : List (Nat × CallSite)) :
    (waiting.foldl (fun g (id, site) => (g.addEdge id site k).2) g).Counted := by
  induction waiting generalizing g with
  | nil => exact counted
  | cons x waiting ih =>
      apply ih (counted.addEdge x.1 x.2 callee)
      unfold nodeCount
      rwa [methods_addEdge]

theorem Counted.withUnknown (counted : g.Counted) : g.withUnknown.Counted :=
  have added := counted.addNode .unknown .everywhere
  ⟨counted.wellFormed.withUnknown, added.sorted, added.count⟩

theorem Counted.finish (counted : g.Counted) (complete : Bool) : (g.finish complete).Counted := by
  have flagged : Counted { g with isComplete := complete } :=
    ⟨⟨counted.wellFormed.size, counted.wellFormed.ascending, counted.wellFormed.targets⟩,
      counted.sorted, counted.count⟩
  unfold CallGraph.finish
  dsimp only
  split
  · split
    · exact flagged
    · have unknown := value?_addNode { g with isComplete := complete } .unknown .everywhere
      exact flagged.withUnknown.foldl_addEdge (Numbering.lt_size_of_value? unknown) _
  · exact flagged

theorem Evolves.counted {u : Setup} (evolves : g.Evolves u h) (counted : g.Counted) :
    h.Counted := by
  induction evolves with
  | refl => exact counted
  | site _ bound ih => exact ih.addSite bound _
  | edge _ _ callee ih => exact ih.addEdge _ _ callee
  | node _ _ _ _ ih =>
      exact (ih.addNode _ _).addEdge _ _ (Numbering.lt_size_of_value? (value?_addNode _ _ _))

theorem Counted.pairwise_edges (counted : g.Counted) : g.edges.Pairwise Edge.Before := by
  unfold edges
  rw [List.pairwise_flatMap]
  constructor
  · rintro ⟨ss, id⟩ member
    obtain ⟨-, rfl⟩ := mem_calls_iff.mp member
    rw [List.pairwise_flatMap]
    constructor
    · intro s here
      rw [List.pairwise_map]
      exact (counted.sorted id s here).imp fun less => .inr ⟨rfl, .inr ⟨rfl, less⟩⟩
    · refine (counted.wellFormed.ascending id).imp fun {s t} less d first e second => ?_
      obtain ⟨i, -, rfl⟩ := List.mem_map.mp first
      obtain ⟨j, -, rfl⟩ := List.mem_map.mp second
      exact .inr ⟨rfl, .inl less⟩
  · have numbers : (g.calls.toList.zipIdx.map Prod.snd).Pairwise (· < ·) := by
      rw [List.zipIdx_map_snd]
      exact List.pairwise_lt_range' 1
    refine (List.pairwise_map.mp numbers).imp fun {a b} less d first e second => ?_
    obtain ⟨s, -, member⟩ := List.mem_flatMap.mp first
    obtain ⟨i, -, rfl⟩ := List.mem_map.mp member
    obtain ⟨t, -, member⟩ := List.mem_flatMap.mp second
    obtain ⟨j, -, rfl⟩ := List.mem_map.mp member
    exact .inl less

theorem Counted.nodup_edges (counted : g.Counted) : g.edges.Nodup :=
  counted.pairwise_edges.imp Edge.Before.ne

/-- Calls at one place of a node are one call. -/
theorem Runs.site_eq {s t : CallSite} {i j : Nat} (first : g.Runs id s i) (second : g.Runs id t j)
    (place : s.pc = t.pc) : s = t := by
  obtain ⟨x, found, rfl, -⟩ := first
  obtain ⟨y, there, rfl, -⟩ := second
  rw [place, there] at found
  cases found
  rfl

theorem WellFormed.edgeKey?_inj (h : g.WellFormed) {d e : Edge} (first : d ∈ g.edges)
    (second : e ∈ g.edges) {key : EdgeKey} (here : g.edgeKey? d = some key)
    (there : g.edgeKey? e = some key) : d = e := by
  obtain ⟨n, m, caller, callee, rfl⟩ := (edgeKey?_eq_some_iff d key).mp here
  obtain ⟨n', m', caller', callee', same⟩ := (edgeKey?_eq_some_iff e _).mp there
  obtain ⟨hn, hc, place, hm, hd⟩ := EdgeKey.mk.inj same
  obtain rfl : n = n' := Prod.ext hn hc
  obtain rfl : m = m' := Prod.ext hm hd
  obtain ⟨i, site, k⟩ := d
  obtain ⟨j, site', k'⟩ := e
  obtain rfl : i = j := Numbering.value?_inj caller caller'
  obtain rfl : k = k' := Numbering.value?_inj callee callee'
  obtain rfl : site = site' :=
    ((h.mem_edges_iff _).mp first).site_eq ((h.mem_edges_iff _).mp second) place
  rfl

theorem WellFormed.edgeKey?_isSome (h : g.WellFormed) {e : Edge} (member : e ∈ g.edges) :
    (g.edgeKey? e).isSome := by
  have run := (h.mem_edges_iff e).mp member
  have ⟨s, found, _⟩ := run
  obtain ⟨n, caller⟩ := (Numbering.value?_isSome_iff _ e.caller).mpr (h.bound_of_site? found)
  obtain ⟨m, callee⟩ := (Numbering.value?_isSome_iff _ e.callee).mpr (h.lt_of_runs run)
  exact Option.isSome_iff_exists.mpr ⟨_, (edgeKey?_eq_some_iff e _).mpr ⟨n, m, caller, callee, rfl⟩⟩

theorem Counted.nodup_keys (counted : g.Counted) : (g.edges.filterMap g.edgeKey?).Nodup :=
  nodup_filterMap counted.nodup_edges fun _ first _ second _ here there =>
    counted.wellFormed.edgeKey?_inj first second here there

theorem Counted.edgeKeys_eq (counted : g.Counted) :
    g.edgeKeys = (g.edges.filterMap g.edgeKey?).mergeSort fun a b => (compare a b).isLE :=
  eraseReps_of_nodup ((List.mergeSort_perm _ _).nodup_iff.mpr counted.nodup_keys)

theorem Counted.length_edgeKeys (counted : g.Counted) : g.edgeKeys.length = g.edgeCount := by
  rw [counted.edgeKeys_eq, List.length_mergeSort, counted.count]
  exact List.filterMap_length_eq_length.mpr fun e => counted.wellFormed.edgeKey?_isSome

/-- The graphs that come of requests to a new one, as long as the kind of a call depends on its
place alone and nobody asks for the unknown. -/
inductive Built (kinds : Nat → Nat → CallKind) : CallGraph → Prop
  | new : Built kinds new
  | node {g m ctx} : Built kinds g → m ≠ .unknown → Built kinds (g.addNode m ctx).2
  | site {g id pc} : Built kinds g → id < g.nodeCount → Built kinds (g.addSite id ⟨pc, kinds id pc⟩)
  | edge {g id pc k} : Built kinds g → id < g.nodeCount → k < g.nodeCount →
      Built kinds (g.addEdge id ⟨pc, kinds id pc⟩ k).2

variable {kinds : Nat → Nat → CallKind}

theorem Built.counted (built : Built kinds g) : g.Counted := by
  induction built with
  | new => exact counted_new
  | node _ _ ih => exact ih.addNode _ _
  | site _ bound ih => exact ih.addSite bound _
  | edge _ _ callee ih => exact ih.addEdge _ _ callee

theorem Built.known (built : Built kinds g) {i : Nat} {n : Role}
    (here : g.methods.value? i = some n) : n.1 ≠ .unknown := by
  induction built with
  | new =>
      obtain rfl : n = (.fakeRoot, .everywhere) := by
        have member := (Numbering.mem_values_iff _ n).mpr ⟨i, here⟩
        exact List.mem_singleton.mp member
      exact fun same => nomatch same
  | node _ named ih =>
      rw [methods_addNode, Numbering.value?_number_eq_some_iff] at here
      rcases here with old | ⟨-, rfl⟩
      · exact ih old
      · exact named
  | site _ _ ih => exact ih here
  | edge _ _ _ ih => exact ih (methods_addEdge .. ▸ here)

/-- All calls are of the kind that their places say. -/
def OfKinds (kinds : Nat → Nat → CallKind) (g : CallGraph) : Prop :=
  ∀ id site, g.HasSite id site → site.kind = kinds id site.pc

theorem OfKinds.agrees (kind : g.OfKinds kinds) (id pc : Nat) : g.Agrees id ⟨pc, kinds id pc⟩ := by
  intro s found
  have place : s.site.pc = pc := pc_of_site? found
  have same := kind id s.site ⟨s, place ▸ found, rfl⟩
  rw [place] at same
  exact CallSite.mk.injEq .. ▸ ⟨place, same⟩

theorem Built.ofKinds (built : Built kinds g) : g.OfKinds kinds := by
  induction built with
  | new =>
      rintro id site ⟨s, found, -⟩
      rw [site?_new] at found
      cases found
  | @node g m ctx _ _ ih =>
      rintro id site ⟨s, found, same⟩
      rw [site?_addNode] at found
      exact ih id site ⟨s, found, same⟩
  | @site g id pc built bound ih =>
      intro other site has
      have added := built.counted.wellFormed.hasSite_addSite bound (ih.agrees id pc) other site
      rcases added.mp has with old | ⟨rfl, rfl⟩
      · exact ih other site old
      · rfl
  | @edge g id pc k built bound _ ih =>
      intro other site has
      have added := built.counted.wellFormed.hasSite_addEdge bound (ih.agrees id pc) k other site
      rcases added.mp has with old | ⟨rfl, rfl⟩
      · exact ih other site old
      · rfl

theorem Sorted.hasEdge_iff (sorted : g.Sorted) (agrees : g.Agrees id site) :
    g.hasEdge id site.pc k = true ↔ g.Runs id site k := by
  constructor
  · intro known
    cases found : g.site? id site.pc with
    | none => simp [hasEdge, targets?, found] at known
    | some s =>
        have member := IdSet.mem_of_contains ((hasEdge_iff_of_site? found k).mp known)
        exact ⟨s, found, agrees s found, member⟩
  · rintro ⟨s, found, -, member⟩
    have ascending := sorted id s (mem_sites_of_site? found)
    exact (hasEdge_iff_of_site? found k).mpr (ascending.contains_of_mem member)

theorem Built.addEdge_iff (built : Built kinds g) (bound : id < g.nodeCount) (pc k : Nat) :
    (g.addEdge id ⟨pc, kinds id pc⟩ k).1 = true ↔ ⟨id, ⟨pc, kinds id pc⟩, k⟩ ∉ g.edges := by
  have counted := built.counted
  have known := counted.sorted.hasEdge_iff (k := k) (built.ofKinds.agrees id pc)
  rw [counted.wellFormed.mem_edges_iff, ← known]
  unfold addEdge
  rw [if_pos bound]
  split
  · rename_i old
    simp [old]
  · rename_i new
    simp [new]

/-- What a graph keeps more than once is the same each time. -/
structure Consistent (g : CallGraph) : Prop where
  numbered : ∀ (i : Nat) (n : Node), g.nodes[i]? = some n → n.id = i
  apart : (g.nodes.map fun n => (n.method, n.context)).Nodup
  found : ∀ (m : Method) (ctx : Context) (i : Nat),
    g.find? m ctx = some i ↔ g.nodes[i]? = some ⟨i, m, ctx⟩
  ordered : g.edges.Pairwise Edge.Before
  counted : g.edgeCount = g.edges.length
  distinct : g.edgeKeys.Nodup
  keyed : g.edgeKeys.length = g.edgeCount

theorem Counted.consistent (counted : g.Counted) : g.Consistent where
  numbered i n here := by
    rw [getElem?_nodes] at here
    exact (node?_eq_some_iff.mp here).2
  apart := by
    have roles : (g.nodes.map fun n => (n.method, n.context)) = g.methods.values := nodes_map_role g
    rw [roles]
    exact g.methods.nodup
  found m ctx i := by
    rw [getElem?_nodes, node?_eq_some_iff]
    exact (g.methods.find?_eq_some_iff (m, ctx) i).trans (and_iff_left rfl).symm
  ordered := counted.pairwise_edges
  counted := counted.count
  distinct := counted.edgeKeys_eq ▸ (List.mergeSort_perm _ _).nodup_iff.mpr counted.nodup_keys
  keyed := counted.length_edgeKeys

/-- The second graph is the first one with all its idle calls, and no others, led to the unknown. -/
structure Closed (g h : CallGraph) : Prop where
  sites : ∀ id site, h.HasSite id site ↔ g.HasSite id site
  busy : ∀ id site, h.HasSite id site → ∃ k, ⟨id, site, k⟩ ∈ h.edges
  unknown : ∀ id site, (∃ k n, ⟨id, site, k⟩ ∈ h.edges ∧ h.node? k = some n ∧ n.method = .unknown) ↔
    g.Idle id site
  kept : ∀ e, (e ∈ h.edges ∧ ¬ g.Idle e.caller e.site) ↔ e ∈ g.edges

theorem WellFormed.closed (wf : g.WellFormed)
    (known : ∀ i n, g.methods.value? i = some n → n.1 ≠ .unknown) : g.Closed (g.finish true) := by
  have sealed := wf.sealed
  have listed := sealed.wellFormed.mem_edges_iff
  refine ⟨sealed.sites, fun id site has => ?_, fun id site => ⟨?_, fun idle => ?_⟩,
    fun e => ⟨?_, fun old => ?_⟩⟩
  · by_cases idle : g.Idle id site
    · obtain ⟨k, here⟩ := sealed.unknown id site idle
      exact ⟨k, (listed _).mpr ((sealed.runs id site k).mpr (.inr ⟨idle, here⟩))⟩
    · have has := (sealed.sites id site).mp has
      obtain ⟨k, run⟩ : ∃ k, g.Runs id site k := by
        apply Classical.byContradiction
        intro none
        exact idle ⟨has, fun k run => none ⟨k, run⟩⟩
      exact ⟨k, (listed _).mpr ((sealed.runs id site k).mpr (.inl run))⟩
  · rintro ⟨k, n, member, here, unknown⟩
    rcases (sealed.runs id site k).mp ((listed _).mp member) with run | ⟨idle, -⟩
    · -- a node that was there before is not the unknown
      obtain ⟨m, old⟩ := (Numbering.value?_isSome_iff _ k).mpr (wf.lt_of_runs run)
      have same :=
        Option.some.inj ((sealed.methods k m old).symm.trans (node?_eq_some_iff.mp here).1)
      exact absurd ((congrArg Prod.fst same).trans unknown) (known k m old)
    · exact idle
  · obtain ⟨k, here⟩ := sealed.unknown id site idle
    refine ⟨k, ⟨k, .unknown, .everywhere⟩, ?_, node?_eq_some_iff.mpr ⟨here, rfl⟩, rfl⟩
    exact (listed _).mpr ((sealed.runs id site k).mpr (.inr ⟨idle, here⟩))
  · rintro ⟨member, busy⟩
    rcases (sealed.runs e.caller e.site e.callee).mp ((listed e).mp member) with run | ⟨idle, -⟩
    · exact (wf.mem_edges_iff e).mpr run
    · exact absurd idle busy
  · have run := (wf.mem_edges_iff e).mp old
    exact ⟨(listed e).mpr ((sealed.runs e.caller e.site e.callee).mpr (.inl run)),
      fun idle => idle.2 e.callee run⟩

/-- However a graph is built, what it keeps more than once is the same each time, before it is
finished and after; an edge is reported as new if and only if it is; and finishing leads the idle
calls of a complete graph to the unknown, and does nothing to any other. -/
theorem built_consistent (built : Built kinds g) :
    g.Consistent ∧ (∀ complete, (g.finish complete).Consistent) ∧
      (∀ id pc k, id < g.nodeCount → k < g.nodeCount →
        ((g.addEdge id ⟨pc, kinds id pc⟩ k).1 = true ↔ ⟨id, ⟨pc, kinds id pc⟩, k⟩ ∉ g.edges)) ∧
      g.Closed (g.finish true) ∧ g.finish false = { g with isComplete := false } := by
  have counted := built.counted
  refine ⟨counted.consistent, fun complete => (counted.finish complete).consistent,
    fun id pc k bound _ => built.addEdge_iff bound pc k, ?_, rfl⟩
  exact counted.wellFormed.closed fun i n => built.known

/-- Two calls of the root, one of which runs a function that calls nothing that is known. -/
def sketch : CallGraph :=
  let g := (new.addNode (.function 0) .everywhere).2
  let g := (g.addEdge fakeRoot ⟨0, .call⟩ 1).2
  g.addSite 1 ⟨5, .call⟩

theorem built_consistent_sketch : Built (fun _ _ => .call) sketch ∧ sketch.Consistent ∧
    sketch.Closed (sketch.finish true) ∧ (sketch.addEdge 1 ⟨5, .call⟩ 0).1 = true ∧
    (sketch.finish true).edges = [⟨0, ⟨0, .call⟩, 1⟩, ⟨1, ⟨5, .call⟩, 2⟩] := by
  have node : Built (fun _ _ => .call) (new.addNode (.function 0) .everywhere).2 :=
    .node .new (by decide)
  have edge : Built (fun _ _ => .call)
      ((new.addNode (.function 0) .everywhere).2.addEdge fakeRoot ⟨0, .call⟩ 1).2 :=
    .edge node (by decide) (by decide)
  have built : Built (fun _ _ => .call) sketch := .site edge (by decide)
  obtain ⟨consistent, -, new, closed, -⟩ := built_consistent built
  exact ⟨built, consistent, closed, (new 1 5 0 (by decide) (by decide)).mpr (by decide +kernel),
    by decide +kernel⟩

end CallGraph

end CallFlow
