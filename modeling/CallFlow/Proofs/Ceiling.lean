import CallFlow.Proofs.Construction.Lockstep
import CallFlow.Proofs.Termination

/-! What a ceiling does: nothing if it leaves room for all nodes, and else the analysis stops at the
first node that has no room. The node for the unknown is no matter of the ceiling. -/

namespace CallFlow

/-- The same options with a ceiling. -/
def Options.limited (o : Options) (limit : UInt64) : Options := { o with maxNodes := some limit }

/-- How many nodes an answer has besides the one for the unknown. -/
def Analysis.knownCount (a : Analysis) : Nat :=
  (a.graph.nodes.filter fun n => decide (n.method ≠ .unknown)).length

namespace CallGraph

theorem getElem?_nodes (g : CallGraph) (i : Nat) : g.nodes[i]? = g.node? i := by
  simp only [nodes, Numbering.entries, node?, List.getElem?_map, List.getElem?_zipIdx,
    Numbering.value?_eq_getElem?, Option.map_map]
  cases g.methods.values[i]? <;> simp

theorem nodes_eq_take {g h : CallGraph} (extends' : g.methods.Extends h.methods) :
    g.nodes = h.nodes.take g.nodeCount := by
  apply List.ext_getElem?
  intro i
  rw [List.getElem?_take, getElem?_nodes, getElem?_nodes]
  split
  · rename_i bound
    obtain ⟨n, here⟩ := (g.methods.value?_isSome_iff i).mpr bound
    unfold node?
    rw [here, extends' i n here]
  · rename_i beyond
    cases here : g.node? i with
    | none => rfl
    | some n => exact absurd (lt_of_node? here) beyond

theorem methods_foldl_addEdge (waiting : List (Nat × CallSite)) (k : Nat) (g : CallGraph) :
    (waiting.foldl (fun g (id, site) => (g.addEdge id site k).2) g).methods = g.methods := by
  induction waiting generalizing g with
  | nil => rfl
  | cons x waiting ih => exact (ih _).trans (methods_addEdge g x.1 x.2 k)

/-- Finishing a graph adds the node for the unknown at the end, if it adds any. -/
theorem values_finish (g : CallGraph) (complete : Bool) :
    (g.finish complete).methods.values = g.methods.values ∨
      (g.finish complete).methods.values = g.methods.values ++ [Role.unknown] := by
  unfold finish
  cases complete with
  | false => exact .inl rfl
  | true =>
      simp only [↓reduceIte]
      split
      · exact .inl rfl
      · rw [methods_foldl_addEdge]
        have added := g.methods.values_number Role.unknown
        split at added
        · exact .inl added
        · exact .inr added

end CallGraph

namespace Construction

variable {u : Setup} {c : Construction}

/-- The node for the unknown is not created before the end. -/
theorem Reached.known (reached : Reached u c) {n : Role} (member : n ∈ c.graph.methods.values) :
    n.1 ≠ .unknown := by
  obtain ⟨i, here⟩ := (Numbering.mem_values_iff _ n).mp member
  rcases Setup.follows_node_iff.mp (reached.sound _ (.node here)) with rfl | ⟨m, site, follows⟩
  · exact fun same => nomatch same
  · exact follows.known_callee

theorem Reached.knownCount_finish (reached : Reached u c) (ended : Completion) :
    (c.finish u ended).knownCount = c.graph.nodeCount := by
  let known : Role → Bool := fun n => decide (n.1 ≠ .unknown)
  have counted : (c.finish u ended).knownCount =
      ((c.finish u ended).graph.methods.values.filter known).length := by
    rw [← CallGraph.nodes_map_role, List.filter_map, List.length_map]
    rfl
  have own : c.graph.methods.values.filter known = c.graph.methods.values := by
    rw [List.filter_eq_self]
    exact fun n member => decide_eq_true (reached.known member)
  have size : c.graph.methods.values.length = c.graph.nodeCount :=
    c.graph.methods.size_eq_length_values.symm
  rw [counted, ← size]
  rcases c.graph.values_finish ended.isComplete with same | more
  · rw [show (c.finish u ended).graph.methods.values = _ from same, own]
  · rw [show (c.finish u ended).graph.methods.values = _ from more, List.filter_append, own]
    simp [known, Role.unknown]

theorem nodeCount_finish_le (u : Setup) (c : Construction) (ended : Completion) :
    (c.finish u ended).graph.nodeCount ≤ c.graph.nodeCount + 1 := by
  have values := c.graph.values_finish ended.isComplete
  simp only [CallGraph.nodeCount, Numbering.size_eq_length_values]
  rcases values with same | more
  · rw [show (c.finish u ended).graph.methods.values = _ from same]
    omega
  · rw [show (c.finish u ended).graph.methods.values = _ from more, List.length_append]
    exact Nat.le_refl _

end Construction

open Construction

theorem Setup.run_eq {u : Setup} {monitor : Nat → Option CancelReason} {ended : Completion}
    {c : Construction}
    (run : (start u).runWithin u monitor (u.program.stepBound + 1) = (ended, c)) :
    u.run monitor = c.finish u ended := by
  unfold Setup.run
  rw [run]

/-- A setup is answered with a ceiling as it is without one, or at the first node that the ceiling
leaves no room for. -/
theorem Setup.run_capped (u : Setup) {limit : UInt64} (positive : 0 < limit.toNat)
    (complete : ((u.capped none).run fun _ => none).completion = .complete) :
    ∃ d, Reached (u.capped none) d ∧ ((u.capped none).run fun _ => none) = d.finish u .complete ∧
      (((u.capped (some limit)).run fun _ => none) = d.finish u .complete ∧
          d.graph.nodeCount ≤ limit.toNat ∨
        ∃ c, ((u.capped (some limit)).run fun _ => none) = c.finish u (.cut (.nodeBudget limit)) ∧
          Short limit c d) := by
  have ended : (start (u.capped none)).runWithin (u.capped none) (fun _ => none)
      (u.program.stepBound + 1) = (.complete, (u.capped none).last fun _ => none) :=
    Prod.ext complete rfl
  have reached := ((reached_start (u.capped none)).runWithin (fun _ => none)
    (u.program.stepBound + 1)).1
  rw [ended] at reached
  refine ⟨_, reached, run_eq ended, ?_⟩
  rcases (tracks_start u positive).runWithin ended with ⟨same, within⟩ | ⟨c, cut, short⟩
  · exact .inl ⟨run_eq same, within⟩
  · exact .inr ⟨c, run_eq cut, short⟩

variable {p : Program} {o : Options}

theorem Options.validate_limited {limit : UInt64} (ok : o.validate = .ok ()) (some : limit ≠ 0) :
    (o.limited limit).validate = .ok () := by
  unfold validate at ok ⊢
  split at ok
  · cases ok
  · rw [if_neg (by simpa [limited] using some)]
    exact ok

/-- A ceiling that leaves room for all nodes but the unknown changes nothing. A lower one leaves
just the first nodes, as many as it allows, and is the reason why the analysis ended. -/
theorem ceiling_exact (program : p.validate = .ok ()) (options : o.validate = .ok ())
    {limit : UInt64} (some : limit ≠ 0) :
    ∃ whole cut, analyze p o.unlimited (fun _ => none) = .ok whole ∧ whole.completion = .complete ∧
      analyze p (o.limited limit) (fun _ => none) = .ok cut ∧
      (whole.knownCount ≤ limit.toNat → cut = whole) ∧
      (limit.toNat < whole.knownCount → cut.completion = .cut (.nodeBudget limit) ∧
        cut.graph.nodeCount = limit.toNat ∧ cut.graph.nodes = whole.graph.nodes.take limit.toNat) ∧
      cut.graph.nodeCount ≤ limit.toNat + 1 := by
  have run := analyze_eq program (o.validate_unlimited options) fun _ => none
  have stopped := analyze_eq program (Options.validate_limited options some) fun _ => none
  have complete := complete_of_unlimited (o := o.unlimited) program rfl
  have positive : 0 < limit.toNat := by
    apply Nat.pos_of_ne_zero
    intro zero
    exact some (UInt64.toNat_inj.mp zero)
  refine ⟨_, _, run, complete, stopped, ?_⟩
  obtain ⟨d, reached, whole, rest⟩ := (Setup.ofOptions p o).run_capped positive complete
  have counted : (d.finish (.ofOptions p o) .complete).knownCount = d.graph.nodeCount :=
    reached.knownCount_finish .complete
  rw [show (Setup.ofOptions p o.unlimited).run (fun _ => none) = _ from whole, counted]
  rcases rest with ⟨same, within⟩ | ⟨c, cut, short⟩
  · rw [show (Setup.ofOptions p (o.limited limit)).run (fun _ => none) = _ from same]
    refine ⟨fun _ => rfl, fun less => absurd within (Nat.not_le_of_lt less), ?_⟩
    exact Nat.le_trans (nodeCount_finish_le _ d .complete) (Nat.succ_le_succ within)
  · rw [show (Setup.ofOptions p (o.limited limit)).run (fun _ => none) = _ from cut]
    have full : (c.finish (.ofOptions p o) (.cut (.nodeBudget limit))).graph.nodeCount =
        limit.toNat := short.full
    refine ⟨fun enough => absurd short.more (Nat.not_lt_of_le enough), fun _ => ⟨rfl, full, ?_⟩, ?_⟩
    · -- the complete answer keeps the nodes that both constructions have
      have kept := short.before.trans (methods_finish d _ .complete reached.valid)
      rw [← short.full]
      exact CallGraph.nodes_eq_take kept
    · omega

/-- The small program has five nodes besides the unknown: a ceiling of three leaves the first three
of them, and one of five leaves all, the unknown included. -/
theorem ceiling_exact_tour : Program.tour.validate = .ok () ∧ Options.thorough.validate = .ok () ∧
    (3 : UInt64) ≠ 0 ∧ (5 : UInt64) ≠ 0 ∧
    (∃ whole cut, analyze .tour Options.thorough.unlimited (fun _ => none) = .ok whole ∧
      whole.knownCount = 5 ∧ analyze .tour (Options.thorough.limited 3) (fun _ => none) = .ok cut ∧
      cut.completion = .cut (.nodeBudget 3) ∧ cut.graph.nodes = whole.graph.nodes.take 3) ∧
    ∃ whole cut, analyze .tour Options.thorough.unlimited (fun _ => none) = .ok whole ∧
      whole.knownCount = 5 ∧ analyze .tour (Options.thorough.limited 5) (fun _ => none) = .ok cut ∧
      cut = whole ∧ cut.graph.nodeCount ≤ 6 := by
  have program : Program.tour.validate = .ok () := by rfl
  have options : Options.thorough.validate = .ok () := by rfl
  have counted : ∀ whole, analyze .tour Options.thorough.unlimited (fun _ => none) = .ok whole →
      whole.knownCount = 5 := by
    intro whole run
    obtain ⟨-, -, rfl⟩ := analyze_eq_ok_iff.mp run
    decide +kernel
  refine ⟨program, options, by decide, by decide, ?_, ?_⟩
  · obtain ⟨whole, cut, run, -, stopped, -, low, -⟩ :=
      ceiling_exact program options (show (3 : UInt64) ≠ 0 by decide)
    obtain ⟨why, -, first⟩ := low (by rw [counted whole run]; decide)
    exact ⟨whole, cut, run, counted whole run, stopped, why, first⟩
  · obtain ⟨whole, cut, run, -, stopped, high, -, most⟩ :=
      ceiling_exact program options (show (5 : UInt64) ≠ 0 by decide)
    have same := high (by rw [counted whole run]; decide)
    exact ⟨whole, cut, run, counted whole run, stopped, same, most⟩

end CallFlow
