import CallFlow.Proofs.Analysis
import CallFlow.Proofs.Construction.Termination

/-! Analyses that are stopped. What one has found by then the same analysis finds without a ceiling
when nobody stops it, and no call is led to the unknown before everything was found. -/

namespace CallFlow

/-- Every node, edge and fact of the first answer is in the second one, under what names it. -/
structure Analysis.Within (a b : Analysis) : Prop where
  nodes : ∀ i n, a.graph.node? i = some n → ∃ k, b.graph.node? k = some { n with id := k }
  edges : ∀ key ∈ a.graph.edgeKeys, key ∈ b.graph.edgeKeys
  facts : ∀ l x, x ∈ a.solution.objectsAt l → ∃ q, a.tables.placeOf? l = some q ∧ b.Holds q x

def Options.unlimited (o : Options) : Options := { o with maxNodes := none }

variable {p : Program} {o : Options} {u v : Setup} {a b : Analysis}
variable {monitor : Nat → Option CancelReason}

/-- The ceiling is no matter of what follows. -/
theorem Setup.rule_maxNodes {limit : Option UInt64} {ps : List (Finding Role)} {j : Finding Role}
    (rule : u.Rule ps j) : Setup.Rule { u with maxNodes := limit } ps j := by
  cases rule with
  | root => exact .root
  | builtins member => exact .builtins member
  | entry here member => exact .entry here member
  | flow rule => exact .flow rule
  | visit member => exact .visit member
  | dispatch member => exact .dispatch member
  | bind member => exact .bind member

theorem Setup.follows_maxNodes (limit : Option UInt64) {j : Finding Role} (follows : u.Follows j) :
    Setup.Follows { u with maxNodes := limit } j :=
  follows.least fun _ _ rule premises => .apply (rule_maxNodes rule) premises

theorem Setup.follows_unlimited_iff (p : Program) (o : Options) (j : Finding Role) :
    (Setup.ofOptions p o.unlimited).Follows j ↔ (Setup.ofOptions p o).Follows j :=
  ⟨follows_maxNodes o.maxNodes, follows_maxNodes none⟩

theorem Options.validate_unlimited (ok : o.validate = .ok ()) : o.unlimited.validate = .ok () := by
  unfold validate at ok ⊢
  split at ok
  · cases ok
  · rw [if_neg (by simp [unlimited])]
    exact ok

/-- What a call is found to run has code: it is neither the root nor the unknown. -/
theorem Setup.Follows.callee_isSynthetic {n m : Role} {site : CallSite}
    (follows : u.Follows (.edge n site m)) : m.1.isSynthetic = false := by
  rcases follows_edge_iff.mp follows with ⟨-, -, e, -, rfl⟩ | ⟨-, call, -, -, d, x, -, target⟩
  · rfl
  · rcases target with ⟨g, -, rfl⟩ | ⟨b, -, -, -, rfl⟩ <;> rfl

/-- No call is found to run the unknown. -/
theorem Setup.Follows.known_callee {n m : Role} {site : CallSite}
    (follows : u.Follows (.edge n site m)) : m.1 ≠ .unknown := by
  intro same
  have code := follows.callee_isSynthetic
  rw [same] at code
  cases code

theorem Analysis.within_of_names (first : a.graph.WellFormed) (second : b.graph.WellFormed)
    (nodes : ∀ i n, a.graph.methods.value? i = some n → ∃ k, b.graph.methods.value? k = some n)
    (links : ∀ n site m, a.graph.Links n site m → b.graph.Links n site m)
    (facts : ∀ l x, x ∈ a.solution.objectsAt l → ∃ q, a.tables.placeOf? l = some q ∧ b.Holds q x) :
    a.Within b where
  nodes i n here := by
    obtain ⟨k, there⟩ := nodes i _ (CallGraph.node?_eq_some_iff.mp here).1
    exact ⟨k, CallGraph.node?_eq_some_iff.mpr ⟨there, rfl⟩⟩
  edges key member := by
    obtain ⟨n, site, m, linked, same⟩ := (first.mem_edgeKeys_iff key).mp member
    exact (second.mem_edgeKeys_iff key).mpr ⟨n, site, m, links n site m linked, same⟩
  facts := facts

/-- A sound answer is within an exact one to the same question. -/
theorem Analysis.Sound.within (sound : a.Sound u) (exact : b.Exact v)
    (named : ∀ l x, x ∈ a.solution.objectsAt l → ∃ q, a.tables.placeOf? l = some q)
    (same : ∀ j, v.Follows j ↔ u.Follows j) : a.Within b := by
  refine within_of_names sound.wellFormed exact.wellFormed (fun i n here => ?_)
    (fun n site m linked => ?_) fun l x member => ?_
  · exact exact.known n ((same _).mpr (sound.nodes i n here))
  · exact (exact.links n site m).mpr (.inl ((same _).mpr (sound.links n site m linked)))
  · obtain ⟨q, place⟩ := named l x member
    exact ⟨q, place, (exact.holds q x).mpr ((same _).mpr (sound.holds q x ⟨l, place, member⟩))⟩

/-- Exact answers to the same question are within each other. -/
theorem Analysis.Exact.within (first : a.Exact u) (second : b.Exact v)
    (named : ∀ l x, x ∈ a.solution.objectsAt l → ∃ q, a.tables.placeOf? l = some q)
    (same : ∀ j, v.Follows j ↔ u.Follows j) : a.Within b := by
  have links : ∀ n site m, b.graph.Links n site m ↔ a.graph.Links n site m := fun n site m => by
    rw [second.links, first.links, same, same]
    simp only [same]
  refine within_of_names first.wellFormed second.wellFormed (fun i n here => ?_)
    (fun n site m => (links n site m).mpr) fun l x member => ?_
  · rcases first.nodes i n here with follows | ⟨rfl, m, site, called, none⟩
    · exact second.known n ((same _).mpr follows)
    · -- The unknown is there because some call leads to it, which it does in both.
      have linked := (first.links m site Role.unknown).mpr (.inr ⟨rfl, called, none⟩)
      obtain ⟨-, k, -, -, there⟩ := (links m site Role.unknown).mpr linked
      exact ⟨k, there⟩
  · obtain ⟨q, place, follows⟩ := first.exists_place (named l x member) member
    exact ⟨q, place, (second.holds q x).mpr ((same _).mpr follows)⟩

/-- A sound answer leads no call to the unknown. -/
theorem Analysis.Sound.known_callees (sound : a.Sound u) :
    ∀ key ∈ a.graph.edgeKeys, key.calleeMethod ≠ .unknown := by
  intro key member
  obtain ⟨n, site, m, linked, rfl⟩ := (sound.wellFormed.mem_edgeKeys_iff key).mp member
  exact (sound.links n site m linked).known_callee

/-- An analysis without a ceiling that nobody stops is complete. -/
theorem complete_of_unlimited (program : p.validate = .ok ()) (unlimited : o.maxNodes = none) :
    ((Setup.ofOptions p o).run fun _ => none).completion = .complete :=
  (Construction.reached_start (.ofOptions p o)).completes
    (Program.wellFormed_of_validate program) unlimited _ (by simp only [Setup.ofOptions]; omega)

/-- Without a ceiling an analysis that nobody stops is answered completely. -/
theorem exists_complete (program : p.validate = .ok ()) (options : o.validate = .ok ())
    (unlimited : o.maxNodes = none) :
    ∃ a, analyze p o (fun _ => none) = .ok a ∧ a.completion = .complete :=
  ⟨_, analyze_eq program options _, complete_of_unlimited program unlimited⟩

/-- Whatever stops an analysis, the unlimited one is complete and finds all that was found; and no
call of an analysis that was stopped is led to the unknown. -/
theorem within_unlimited (program : p.validate = .ok ()) (options : o.validate = .ok ())
    (monitor : Nat → Option CancelReason) :
    ∃ cut full, analyze p o monitor = .ok cut ∧ analyze p o.unlimited (fun _ => none) = .ok full ∧
      full.completion = .complete ∧ cut.Within full ∧
      (cut.completion ≠ .complete → ∀ key ∈ cut.graph.edgeKeys, key.calleeMethod ≠ .unknown) := by
  have run := analyze_eq program options monitor
  have whole := analyze_eq program (o.validate_unlimited options) fun _ => none
  have complete := complete_of_unlimited (o := o.unlimited) program rfl
  have exact := exact_of_analyze whole complete
  have same := Setup.follows_unlimited_iff p o
  have named := fun l x => named_of_analyze run (l := l) (x := x)
  refine ⟨_, _, run, whole, complete, ?_, fun stopped => ?_⟩
  · by_cases ended : ((Setup.ofOptions p o).run monitor).completion = .complete
    · exact (exact_of_analyze run ended).within exact named same
    · exact (sound_of_analyze run ended).within exact named same
  · exact (sound_of_analyze run stopped).known_callees

/-- The small program is stopped when it reaches a function from its script. -/
theorem within_unlimited_tour : ∃ cut full,
    analyze .tour { Options.thorough with maxNodes := some 2 } (fun _ => none) = .ok cut ∧
      cut.completion = .cut (.nodeBudget 2) ∧ full.completion = .complete ∧ cut.Within full ∧
      ∀ key ∈ cut.graph.edgeKeys, key.calleeMethod ≠ .unknown := by
  have program : Program.tour.validate = .ok () := by rfl
  have options : { Options.thorough with maxNodes := some 2 }.validate = .ok () := by rfl
  obtain ⟨cut, full, run, -, complete, within, known⟩ :=
    within_unlimited program options fun _ => none
  have stopped : cut.completion = .cut (.nodeBudget 2) := by
    obtain ⟨-, -, rfl⟩ := analyze_eq_ok_iff.mp run
    decide +kernel
  exact ⟨cut, full, run, stopped, complete, within, known (by simp [stopped])⟩

end CallFlow
