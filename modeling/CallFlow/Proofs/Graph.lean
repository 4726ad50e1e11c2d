import CallFlow.Graph.Basic
import CallFlow.Proofs.IdSet
import CallFlow.Proofs.Numbering

/-! What the operations on a call graph do. In a well-formed graph each place of a node has one call
at most, and adding nodes, calls and edges changes just what is asked for. -/

namespace CallFlow

namespace SiteTargets

def Ascending (ss : List SiteTargets) : Prop := ss.Pairwise fun a b => a.site.pc < b.site.pc

variable {ss : List SiteTargets} {site : CallSite} {f : SiteTargets → SiteTargets}

theorem find?_cons (pc : Nat) (s : SiteTargets) (ss : List SiteTargets) :
    find? pc (s :: ss) = if s.site.pc = pc then some s else find? pc ss := by
  by_cases here : s.site.pc = pc <;> simp [find?, here]

theorem mem_of_find? {pc : Nat} {s : SiteTargets} (found : find? pc ss = some s) :
    s ∈ ss ∧ s.site.pc = pc :=
  ⟨List.mem_of_find?_eq_some found, by simpa using List.find?_some found⟩

theorem Ascending.find?_of_mem (h : Ascending ss) {s : SiteTargets} (member : s ∈ ss) :
    find? s.site.pc ss = some s := by
  induction ss with
  | nil => cases member
  | cons a ss ih =>
      obtain ⟨least, sorted⟩ := List.pairwise_cons.mp h
      rw [find?_cons]
      rcases List.mem_cons.mp member with rfl | later
      · rw [if_pos rfl]
      · have before := least s later
        rw [if_neg (by omega), ih sorted later]

theorem mem_pc_alter (keeps : ∀ s, (f s).site = s.site) {s : SiteTargets}
    (member : s ∈ alter site f ss) :
    s.site.pc = site.pc ∨ ∃ t ∈ ss, s.site = t.site := by
  induction ss with
  | nil =>
      obtain rfl := List.mem_singleton.mp member
      exact .inl (congrArg CallSite.pc (keeps _))
  | cons a ss ih =>
      unfold alter at member
      split at member
      · rcases List.mem_cons.mp member with rfl | old
        · exact .inl (congrArg CallSite.pc (keeps _))
        · exact .inr ⟨s, old, rfl⟩
      · split at member
        · rcases List.mem_cons.mp member with rfl | old
          · exact .inr ⟨a, List.mem_cons_self, keeps a⟩
          · exact .inr ⟨s, List.mem_cons_of_mem a old, rfl⟩
        · rcases List.mem_cons.mp member with rfl | old
          · exact .inr ⟨s, List.mem_cons_self, rfl⟩
          · exact (ih old).imp_right fun ⟨t, here, same⟩ => ⟨t, List.mem_cons_of_mem a here, same⟩

theorem Ascending.alter (h : Ascending ss) (keeps : ∀ s, (f s).site = s.site) :
    Ascending (alter site f ss) := by
  induction ss with
  | nil => exact List.pairwise_singleton _ _
  | cons a ss ih =>
      obtain ⟨least, sorted⟩ := List.pairwise_cons.mp h
      unfold SiteTargets.alter
      split
      · rename_i before
        refine List.pairwise_cons.mpr ⟨fun s member => ?_, h⟩
        rw [keeps]
        rcases List.mem_cons.mp member with rfl | later
        · exact before
        · exact Nat.lt_trans before (least s later)
      · split
        · refine List.pairwise_cons.mpr ⟨fun s member => ?_, sorted⟩
          rw [keeps]
          exact least s member
        · rename_i notBefore apart
          refine List.pairwise_cons.mpr ⟨fun s member => ?_, ih sorted⟩
          rcases mem_pc_alter keeps member with same | ⟨t, here, same⟩
          · omega
          · rw [same]
            exact least t here

/-- Only the call at the given place is changed, or added if it is missing. -/
theorem Ascending.find?_alter (h : Ascending ss) (keeps : ∀ s, (f s).site = s.site) (pc : Nat) :
    find? pc (SiteTargets.alter site f ss) =
      if pc = site.pc then some (f ((find? pc ss).getD { site })) else find? pc ss := by
  induction ss with
  | nil =>
      unfold SiteTargets.alter
      rw [find?_cons, keeps]
      by_cases here : pc = site.pc
      · simp [here, find?]
      · rw [if_neg (Ne.symm here), if_neg here]
  | cons a ss ih =>
      obtain ⟨least, sorted⟩ := List.pairwise_cons.mp h
      -- nothing before the first call stands at a place before it
      have missing : ∀ q, q < a.site.pc → find? q (a :: ss) = none := by
        intro q before
        refine List.find?_eq_none.mpr fun s member => ?_
        have behind : q < s.site.pc := by
          rcases List.mem_cons.mp member with rfl | later
          · exact before
          · exact Nat.lt_trans before (least s later)
        simp only [decide_eq_true_eq]
        omega
      unfold SiteTargets.alter
      split
      · rename_i before
        rw [find?_cons, keeps]
        by_cases here : pc = site.pc
        · subst here
          rw [if_pos rfl, if_pos rfl, missing _ before]
          rfl
        · rw [if_neg (Ne.symm here), if_neg here]
      · split
        · rename_i same
          rw [find?_cons, find?_cons, keeps]
          by_cases here : pc = site.pc
          · rw [if_pos (by omega), if_pos here, if_pos (by omega)]
            rfl
          · rw [if_neg (by omega), if_neg here, if_neg (by omega)]
        · rw [find?_cons, find?_cons, ih sorted]
          by_cases here : a.site.pc = pc
          · rw [if_pos here, if_pos here, if_neg (by omega)]
          · rw [if_neg here, if_neg here]

end SiteTargets

namespace CallGraph

/-- Each node owns its calls in ascending order, and all targets are nodes. -/
structure WellFormed (g : CallGraph) : Prop where
  size : g.calls.size = g.methods.size
  ascending : ∀ id, SiteTargets.Ascending (g.sites id)
  targets : ∀ id pc s k, g.site? id pc = some s → k ∈ s.targets.toList → k < g.nodeCount

theorem sites_new (id : Nat) : new.sites id = [] := by
  unfold sites new
  cases id <;> rfl

theorem site?_new (id pc : Nat) : new.site? id pc = none := by
  simp [site?, sites_new, SiteTargets.find?]

theorem wellFormed_new : new.WellFormed where
  size := rfl
  ascending id := by
    rw [sites_new]
    exact List.Pairwise.nil
  targets id pc s k found := by simp [site?_new] at found

variable {g : CallGraph} {id pc : Nat}

theorem sites_updateSites (g : CallGraph) (id : Nat) (f : List SiteTargets → List SiteTargets)
    (bound : id < g.calls.size) (other : Nat) :
    (g.updateSites id f).sites other = if other = id then f (g.sites id) else g.sites other := by
  unfold updateSites sites
  simp only [Array.getD_eq_getD_getElem?, Array.getElem?_modify]
  by_cases here : other = id
  · subst here
    simp [bound]
  · simp [here, Ne.symm here]

theorem pc_of_site? {s : SiteTargets} (found : g.site? id pc = some s) : s.site.pc = pc :=
  (SiteTargets.mem_of_find? found).2

theorem WellFormed.bound_of_site? (h : g.WellFormed) {s : SiteTargets}
    (found : g.site? id pc = some s) : id < g.nodeCount := by
  apply Classical.byContradiction
  intro beyond
  have none : g.sites id = [] := by
    have missing : g.calls.size ≤ id := by
      rw [h.size]
      exact Nat.le_of_not_lt beyond
    simp [sites, Array.getD_eq_getD_getElem?, missing]
  simp [site?, none, SiteTargets.find?] at found

theorem methods_addNode (g : CallGraph) (m : Method) (c : Context) :
    (g.addNode m c).2.methods = (g.methods.number (m, c)).2 := rfl

theorem id_addNode (g : CallGraph) (m : Method) (c : Context) :
    (g.addNode m c).1.1 = (g.methods.number (m, c)).1 := rfl

theorem value?_addNode (g : CallGraph) (m : Method) (c : Context) :
    (g.addNode m c).2.methods.value? (g.addNode m c).1.1 = some (m, c) := by
  rw [methods_addNode, id_addNode]
  exact Numbering.value?_number g.methods (m, c)

theorem sites_addNode (g : CallGraph) (m : Method) (c : Context) (id : Nat) :
    (g.addNode m c).2.sites id = g.sites id := by
  unfold addNode
  dsimp only
  split
  · simp only [sites, Array.getD_eq_getD_getElem?, Array.getElem?_push]
    split
    · rename_i last
      simp [last]
    · rfl
  · rfl

theorem site?_addNode (g : CallGraph) (m : Method) (c : Context) (id pc : Nat) :
    (g.addNode m c).2.site? id pc = g.site? id pc := by
  unfold site?
  rw [sites_addNode]

theorem WellFormed.addNode (h : g.WellFormed) (m : Method) (c : Context) :
    (g.addNode m c).2.WellFormed where
  size := by
    cases known : g.methods.find? (m, c) with
    | some id => simpa [CallGraph.addNode, Numbering.numberNew_of_find?_eq_some known] using h.size
    | none =>
        simp only [CallGraph.addNode, Numbering.numberNew_of_find?_eq_none known]
        simp [Numbering.size_eq_length_values, h.size]
  ascending id := sites_addNode g m c id ▸ h.ascending id
  targets id pc s k found member := by
    rw [site?_addNode] at found
    have grown : g.methods.Extends (g.addNode m c).2.methods := Numbering.extends_number _ _
    exact Nat.lt_of_lt_of_le (h.targets id pc s k found member) grown.size_le

theorem WellFormed.site?_alter (h : g.WellFormed) (bound : id < g.nodeCount) (site : CallSite)
    {f : SiteTargets → SiteTargets} (keeps : ∀ s, (f s).site = s.site) (other pc : Nat) :
    (g.updateSites id (SiteTargets.alter site f)).site? other pc =
      if other = id ∧ pc = site.pc then some (f ((g.site? id pc).getD { site }))
      else g.site? other pc := by
  unfold site?
  rw [sites_updateSites g id _ (h.size ▸ bound)]
  by_cases here : other = id
  · subst here
    rw [if_pos rfl, (h.ascending other).find?_alter keeps]
    simp
  · simp [here]

theorem WellFormed.alter (h : g.WellFormed) (bound : id < g.nodeCount) (site : CallSite)
    {f : SiteTargets → SiteTargets} (keeps : ∀ s, (f s).site = s.site)
    (targets : ∀ s k, k ∈ (f s).targets.toList → k ∈ s.targets.toList ∨ k < g.nodeCount) :
    (g.updateSites id (SiteTargets.alter site f)).WellFormed where
  size := Array.size_modify.trans h.size
  ascending other := by
    rw [sites_updateSites g id _ (h.size ▸ bound)]
    split
    · exact (h.ascending id).alter keeps
    · exact h.ascending other
  targets other pc s k found member := by
    rw [h.site?_alter bound site keeps] at found
    split at found
    · cases found
      rcases targets _ k member with old | new
      · cases known : g.site? id pc with
        | none =>
            rw [known] at old
            cases old
        | some s =>
            rw [known] at old
            exact h.targets id pc s k known old
      · exact new
    · exact h.targets other pc s k found member

theorem WellFormed.addSite (h : g.WellFormed) (bound : id < g.nodeCount) (site : CallSite) :
    (g.addSite id site).WellFormed :=
  h.alter bound site (fun _ => rfl) fun _ _ => .inl

theorem WellFormed.site?_addSite (h : g.WellFormed) (bound : id < g.nodeCount) (site : CallSite)
    (other pc : Nat) :
    (g.addSite id site).site? other pc =
      if other = id ∧ pc = site.pc then some ((g.site? id pc).getD { site })
      else g.site? other pc :=
  h.site?_alter bound site (fun _ => rfl) other pc

theorem hasEdge_iff_of_site? {s : SiteTargets} (found : g.site? id pc = some s) (k : Nat) :
    g.hasEdge id pc k = true ↔ s.targets.contains k = true := by
  simp [hasEdge, targets?, found]

theorem exists_site?_of_hasEdge {k : Nat} (known : g.hasEdge id pc k = true) :
    ∃ s, g.site? id pc = some s ∧ k ∈ s.targets.toList := by
  cases found : g.site? id pc with
  | none => simp [hasEdge, targets?, found] at known
  | some s => exact ⟨s, rfl, IdSet.mem_of_contains ((hasEdge_iff_of_site? found k).mp known)⟩

theorem methods_addEdge (g : CallGraph) (id : Nat) (site : CallSite) (k : Nat) :
    (g.addEdge id site k).2.methods = g.methods := by
  unfold addEdge
  split
  · split <;> rfl
  · rfl

theorem WellFormed.addEdge (h : g.WellFormed) (site : CallSite) {k : Nat}
    (callee : k < g.nodeCount) : (g.addEdge id site k).2.WellFormed := by
  unfold CallGraph.addEdge
  split
  · rename_i bound
    split
    · exact h
    · have altered := h.alter bound site (f := SiteTargets.add k) (fun _ => rfl)
          fun s i member => by
        rcases (IdSet.mem_insert s.targets k i).mp member with rfl | old
        · exact .inr callee
        · exact .inl old
      exact ⟨altered.size, altered.ascending, altered.targets⟩
  · exact h

/-- A node has a call. -/
def HasSite (g : CallGraph) (id : Nat) (site : CallSite) : Prop :=
  ∃ s, g.site? id site.pc = some s ∧ s.site = site

/-- A call of a node may run a node. -/
def Runs (g : CallGraph) (id : Nat) (site : CallSite) (k : Nat) : Prop :=
  ∃ s, g.site? id site.pc = some s ∧ s.site = site ∧ k ∈ s.targets.toList

/-- The call at a place of a node, if there is one, is the given one. -/
def Agrees (g : CallGraph) (id : Nat) (site : CallSite) : Prop :=
  ∀ s, g.site? id site.pc = some s → s.site = site

theorem Agrees.getD_site {site : CallSite} (agrees : g.Agrees id site) :
    ((g.site? id site.pc).getD { site }).site = site := by
  cases known : g.site? id site.pc with
  | none => rfl
  | some s => exact agrees s known

theorem Agrees.mem_getD_iff {site : CallSite} (agrees : g.Agrees id site) (k : Nat) :
    k ∈ ((g.site? id site.pc).getD { site }).targets.toList ↔ g.Runs id site k := by
  unfold Runs
  cases known : g.site? id site.pc with
  | none => simp [IdSet.toList_empty]
  | some s => simp [agrees s known]

theorem WellFormed.hasSite_alter (h : g.WellFormed) (bound : id < g.nodeCount) {site : CallSite}
    {f : SiteTargets → SiteTargets} (keeps : ∀ s, (f s).site = s.site)
    (agrees : g.Agrees id site) (other : Nat) (site' : CallSite) :
    (g.updateSites id (SiteTargets.alter site f)).HasSite other site' ↔
      g.HasSite other site' ∨ other = id ∧ site' = site := by
  unfold HasSite
  simp only [h.site?_alter bound site keeps]
  by_cases here : other = id ∧ site'.pc = site.pc
  · obtain ⟨rfl, place⟩ := here
    simp only [place, and_self, ↓reduceIte, Option.some.injEq, exists_eq_left', keeps,
      agrees.getD_site, true_and]
    constructor
    · exact fun same => .inr same.symm
    · rintro (⟨s, found, same⟩ | same)
      · exact (agrees s found).symm.trans same
      · exact same.symm
  · rw [if_neg here]
    constructor
    · exact .inl
    · rintro (found | ⟨rfl, rfl⟩)
      · exact found
      · exact absurd ⟨rfl, rfl⟩ here

/-- Changing a call in a way that keeps its place changes what just this call runs. -/
theorem WellFormed.runs_alter (h : g.WellFormed) (bound : id < g.nodeCount) {site : CallSite}
    {f : SiteTargets → SiteTargets} (keeps : ∀ s, (f s).site = s.site)
    (agrees : g.Agrees id site) (other : Nat) (site' : CallSite) (k : Nat) :
    (g.updateSites id (SiteTargets.alter site f)).Runs other site' k ↔
      if other = id ∧ site' = site then
        k ∈ (f ((g.site? id site.pc).getD { site })).targets.toList
      else g.Runs other site' k := by
  have kept := (keeps _).trans agrees.getD_site
  unfold Runs
  simp only [h.site?_alter bound site keeps]
  by_cases here : other = id ∧ site'.pc = site.pc
  · obtain ⟨rfl, place⟩ := here
    simp only [place, and_self, ↓reduceIte, Option.some.injEq, exists_eq_left', kept, true_and]
    by_cases same : site' = site
    · simp [same]
    · -- the call that is already at this place is another one
      simp only [same, Ne.symm same, false_and, ↓reduceIte, false_iff, not_exists, not_and]
      intro s found named
      exact absurd (named.symm.trans (agrees s found)) same
  · have apart : ¬ (other = id ∧ site' = site) := fun ⟨same, equal⟩ => here ⟨same, equal ▸ rfl⟩
    rw [if_neg here, if_neg apart]

theorem WellFormed.runs_addSite (h : g.WellFormed) (bound : id < g.nodeCount) (site : CallSite)
    (other : Nat) (site' : CallSite) (k : Nat) :
    (g.addSite id site).Runs other site' k ↔ g.Runs other site' k := by
  unfold Runs
  simp only [h.site?_addSite bound]
  split
  · rename_i here
    obtain ⟨rfl, place⟩ := here
    cases known : g.site? other site'.pc with
    | none => simp
    | some s => simp
  · rfl

theorem WellFormed.hasSite_addSite (h : g.WellFormed) (bound : id < g.nodeCount)
    {site : CallSite} (agrees : g.Agrees id site) (other : Nat) (site' : CallSite) :
    (g.addSite id site).HasSite other site' ↔ g.HasSite other site' ∨ other = id ∧ site' = site :=
  h.hasSite_alter bound (fun _ => rfl) agrees other site'

/-- Letting a call run a node adds just the call and this target. -/
theorem WellFormed.hasSite_addEdge (h : g.WellFormed) (bound : id < g.nodeCount)
    {site : CallSite} (agrees : g.Agrees id site) (k other : Nat) (site' : CallSite) :
    (g.addEdge id site k).2.HasSite other site' ↔
      g.HasSite other site' ∨ other = id ∧ site' = site := by
  unfold CallGraph.addEdge
  rw [if_pos bound]
  split
  · rename_i known
    constructor
    · exact .inl
    · rintro (found | ⟨rfl, rfl⟩)
      · exact found
      · obtain ⟨s, there, -⟩ := exists_site?_of_hasEdge known
        exact ⟨s, there, agrees s there⟩
  · exact h.hasSite_alter (f := SiteTargets.add k) bound (fun _ => rfl) agrees other site'

theorem WellFormed.runs_addEdge (h : g.WellFormed) (bound : id < g.nodeCount) {site : CallSite}
    (agrees : g.Agrees id site) (k other : Nat) (site' : CallSite) (i : Nat) :
    (g.addEdge id site k).2.Runs other site' i ↔
      g.Runs other site' i ∨ other = id ∧ site' = site ∧ i = k := by
  unfold CallGraph.addEdge
  rw [if_pos bound]
  split
  · rename_i known
    constructor
    · exact .inl
    · rintro (found | ⟨rfl, rfl, rfl⟩)
      · exact found
      · obtain ⟨s, there, member⟩ := exists_site?_of_hasEdge known
        exact ⟨s, there, agrees s there, member⟩
  · have runs := h.runs_alter (f := SiteTargets.add k) bound (fun _ => rfl) agrees other site' i
    refine runs.trans ?_
    by_cases here : other = id ∧ site' = site
    · obtain ⟨rfl, rfl⟩ := here
      rw [if_pos ⟨rfl, rfl⟩, ← agrees.mem_getD_iff]
      simp [SiteTargets.add, IdSet.mem_insert, or_comm]
    · rw [if_neg here]
      constructor
      · exact .inl
      · rintro (run | ⟨rfl, rfl, -⟩)
        · exact run
        · exact absurd ⟨rfl, rfl⟩ here

end CallGraph

end CallFlow
