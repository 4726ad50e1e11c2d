import CallFlow.Proofs.Interruption

/-! What more understanding adds: under a larger reflection mode, or with calls through `call` and
`apply` understood, whatever followed before follows still, but for the runs of built-in code. -/

namespace CallFlow

/-- The place of a reflection mode in the order of what the modes understand. -/
def Reflection.rank : Reflection → Nat
  | .none => 0
  | .stringOnly => 1
  | .full => 2

instance : LE Reflection := ⟨fun r r' => r.rank ≤ r'.rank⟩

instance (r r' : Reflection) : Decidable (r ≤ r') := inferInstanceAs (Decidable (r.rank ≤ r'.rank))

variable {r r' : Reflection}

theorem Reflection.resolvesStrings_mono (wider : r ≤ r') (resolves : r.resolvesStrings = true) :
    r'.resolvesStrings = true := by
  cases r' with
  | none =>
      cases r with
      | none => exact resolves
      | stringOnly => exact absurd wider (by decide)
      | full => exact absurd wider (by decide)
  | stringOnly => rfl
  | full => rfl

theorem Reflection.modelsUnknown_mono (wider : r ≤ r') (models : r.modelsUnknown = true) :
    r'.modelsUnknown = true := by
  cases r with
  | none => cases models
  | stringOnly => cases models
  | full =>
      cases r' with
      | none => exact absurd wider (by decide)
      | stringOnly => exact absurd wider (by decide)
      | full => rfl

/-- A key that names a slot goes on to name it. -/
theorem AbstractObject.keySlot?_mono (wider : r ≤ r') {k : AbstractObject} {s : Slot}
    (names : k.keySlot? r = some s) : k.keySlot? r' = some s := by
  have unknown : ∀ {s}, (if r.modelsUnknown then some Slot.unknownName else none) = some s →
      (if r'.modelsUnknown then some Slot.unknownName else none) = some s := by
    intro s here
    split at here
    · rename_i models
      rw [if_pos (Reflection.modelsUnknown_mono wider models)]
      exact here
    · cases here
  cases k with
  | constant value =>
      cases value with
      | string n =>
          simp only [keySlot?] at names ⊢
          split at names
          · rw [if_pos ‹_›]
            exact names
          · rw [if_neg ‹_›]
            split at names
            · rw [if_pos (Reflection.resolvesStrings_mono wider ‹_›)]
              exact names
            · cases names
      | number x => exact names
      | boolean b => exact unknown names
  | constantKind kind =>
      cases kind with
      | string => exact unknown names
      | number => exact names
      | boolean => exact unknown names
  | allocation site c => exact unknown names
  | builtin b => exact unknown names

/-- Two slots in place of one are no fewer if they stand in more cases. -/
theorem subset_of_guard {α : Type} {b b' : Bool} (wider : b = true → b' = true) (x y : α) :
    (if b then [x, y] else [x]) ⊆ if b' then [x, y] else [x] := by
  cases b with
  | true => rw [wider rfl]; exact List.Subset.refl _
  | false => cases b' <;> simp

theorem flatMap_subset {α β : Type} {xs ys : List α} (sub : xs ⊆ ys) (g : α → List β) :
    xs.flatMap g ⊆ ys.flatMap g := by
  intro j member
  obtain ⟨x, here, member⟩ := List.mem_flatMap.mp member
  exact List.mem_flatMap.mpr ⟨x, sub here, member⟩

namespace Slot

variable {ν : Type}

theorem readSet_mono (wider : r ≤ r') (s : Slot) : s.readSet r ⊆ s.readSet r' := by
  cases s with
  | named n => exact subset_of_guard (Reflection.modelsUnknown_mono wider) _ _
  | element => exact subset_of_guard (Reflection.modelsUnknown_mono wider) _ _
  | _ => exact List.Subset.refl _

theorem writeSet_mono (wider : r ≤ r') (s : Slot) : s.writeSet r ⊆ s.writeSet r' := by
  cases s with
  | named n => exact subset_of_guard (Reflection.modelsUnknown_mono wider) _ _
  | element => exact subset_of_guard (Reflection.modelsUnknown_mono wider) _ _
  | _ => exact List.Subset.refl _

theorem loadFindings_mono (wider : r ≤ r') (s : Slot) (dst : Place ν) (o : AbstractObject) :
    s.loadFindings r dst o ⊆ s.loadFindings r' dst o := by
  unfold loadFindings
  split
  · exact List.Subset.refl _
  · apply List.append_subset.mpr
    constructor
    · exact List.subset_append_of_subset_left _ (flatMap_subset (readSet_mono wider s) _)
    · exact List.subset_append_right _ _

theorem storeFindings_mono (wider : r ≤ r') (s : Slot) (src : Place ν) (o : AbstractObject) :
    s.storeFindings r src o ⊆ s.storeFindings r' src o := by
  unfold storeFindings
  split
  · exact List.Subset.refl _
  · exact flatMap_subset (writeSet_mono wider s) _

end Slot

theorem AbstractObject.keyFindings_mono {ν : Type} (wider : r ≤ r') (k : AbstractObject) :
    k.keyFindings (ν := ν) r ⊆ k.keyFindings r' := by
  unfold keyFindings
  cases names : k.keySlot? r with
  | none => exact List.nil_subset _
  | some s =>
      rw [keySlot?_mono wider names]
      exact List.Subset.refl _

/-- The rules of flow of a mode are rules of every larger mode. -/
theorem FlowRule.mono {ν : Type} (wider : r ≤ r') {ps : List (Finding ν)} {j : Finding ν}
    (rule : FlowRule r ps j) : FlowRule r' ps j := by
  cases rule with
  | self => exact .self
  | pass => exact .pass
  | load member => exact .load (Slot.loadFindings_mono wider _ _ _ member)
  | store member => exact .store (Slot.storeFindings_mono wider _ _ _ member)
  | loadKey member => exact .loadKey (AbstractObject.keyFindings_mono wider _ member)
  | storeKey member => exact .storeKey (AbstractObject.keyFindings_mono wider _ member)
  | dynamicLoad slot member =>
      apply FlowRule.dynamicLoad (AbstractObject.keySlot?_mono wider slot)
      exact Slot.loadFindings_mono wider _ _ _ member
  | dynamicStore slot member =>
      apply FlowRule.dynamicStore (AbstractObject.keySlot?_mono wider slot)
      exact Slot.storeFindings_mono wider _ _ _ member

variable {u : Setup} {j : Finding Role}

theorem Setup.Rule.reflecting (wider : u.reflection ≤ r) {ps : List (Finding Role)}
    (rule : u.Rule ps j) : Setup.Rule { u with reflection := r } ps j := by
  cases rule with
  | root => exact .root
  | builtins member => exact .builtins member
  | entry here member => exact .entry here member
  | flow rule => exact .flow (rule.mono wider)
  | visit member => exact .visit member
  | dispatch member => exact .dispatch member
  | bind member => exact .bind member

/-- What follows under a reflection mode follows under every larger one. -/
theorem Setup.Follows.reflecting (wider : u.reflection ≤ r) (follows : u.Follows j) :
    Setup.Follows { u with reflection := r } j := by
  apply follows.least
  intro ps j rule premises
  exact .apply (rule.reflecting wider) premises

/-- Whether a finding is about a call that runs built-in code, or about the node that it runs. -/
def Finding.runsBuiltin : Finding Role → Bool
  | .node (.builtin _, _) => true
  | .edge _ _ (.builtin _, _) => true
  | _ => false

theorem FlowRule.premises {ps : List (Finding Role)} (rule : FlowRule r ps j) :
    ∀ q ∈ ps, q.runsBuiltin = false := by
  cases rule <;> simp [Finding.runsBuiltin]

namespace Setup

/-- The same setup, with calls through `call` and `apply` understood. -/
def receiving (u : Setup) : Setup := { u with callsReceiver := true }

theorem visitFindings_of_runsBuiltin {n : Role} (runs : (Finding.node n).runsBuiltin = true) :
    u.visitFindings n = [] := by
  obtain ⟨m, c⟩ := n
  cases m with
  | builtin b => rfl
  | _ => cases runs

/-- What a dispatch asks for where calls through `call` and `apply` are not understood is about
runs of built-in code, or follows also where they are. -/
theorem dispatch_receiving (off : u.callsReceiver = false) {p : Place Role} {n : Role} {pc : Nat}
    {d : Dispatch} {o : AbstractObject} (waits : u.receiving.Follows (.attached p (.invoke n pc d)))
    (held : u.receiving.Follows (.holds p o)) (member : j ∈ u.dispatchFindings n pc d o) :
    u.receiving.Follows j ∨ j.runsBuiltin = true := by
  obtain ⟨node, call, called, -⟩ := finds_iff.mp ⟨p, waits, held⟩
  have here : u.callOf? n pc = some call := called
  unfold dispatchFindings at member
  simp only [here] at member
  cases means : o.classify u.callsReceiver d with
  | none => simp [means] at member
  | some k =>
      cases k with
      | function g =>
          left
          have same : o.classify u.receiving.callsReceiver d = some (.function g) :=
            AbstractObject.classify_eq_function_iff.mpr
              (AbstractObject.classify_eq_function_iff.mp means)
          refine (Derivable.closed u.receiving.Rule).of_two (.dispatch ?_) waits held
          unfold dispatchFindings
          simp only [called, same]
          simp only [means] at member
          exact member
      | builtin b =>
          -- this may be `call` or `apply`, run here but not there: only the site is common to both
          simp only [means, Finding.run, List.mem_cons, List.not_mem_nil, or_false] at member
          rcases member with rfl | rfl | rfl
          · exact .inr rfl
          · exact .inl (follows_site_iff.mpr (.inr ⟨node, call, called, rfl⟩))
          · exact .inr rfl
      | reflective d' =>
          have receives := (AbstractObject.classify_eq_reflective_iff.mp means).1
          rw [off] at receives
          cases receives

/-- What follows where calls through `call` and `apply` are not understood follows also where they
are, but for the runs of built-in code. -/
theorem Follows.receiving (off : u.callsReceiver = false) (follows : u.Follows j) :
    u.receiving.Follows j ∨ j.runsBuiltin = true := by
  refine follows.least (D := fun j => u.receiving.Follows j ∨ j.runsBuiltin = true) ?_
  intro ps j rule premises
  -- nothing is derived from the run of built-in code, so the premises in use follow
  have known : ∀ q ∈ ps, q.runsBuiltin = false → u.receiving.Follows q := by
    intro q member plain
    exact (premises q member).resolve_right (by simp [plain])
  have closed := Derivable.closed u.receiving.Rule
  cases rule with
  | root => exact .inl (.of_start .root)
  | builtins member => exact .inl (.of_start (.builtins member))
  | entry here member => exact .inl (.of_start (.entry here member))
  | flow rule =>
      exact .inl (.apply (.flow rule) fun q member => known q member (rule.premises q member))
  | visit member =>
      rcases premises _ List.mem_cons_self with follows | runs
      · exact .inl (closed.of_one (.visit member) follows)
      · rw [visitFindings_of_runsBuiltin runs] at member
        cases member
  | dispatch member =>
      have waits := known _ List.mem_cons_self rfl
      have held := known _ (List.mem_cons_of_mem _ List.mem_cons_self) rfl
      exact dispatch_receiving off waits held member
  | bind member =>
      exact .inl (closed.of_one (.bind member) (known _ List.mem_cons_self rfl))

end Setup

/-- The nodes of some kinds of methods and the edges to such nodes, and all facts of the first
answer, are in the second one. -/
structure Analysis.WithinFor (kind : Method → Prop) (a b : Analysis) : Prop where
  nodes : ∀ i n, a.graph.node? i = some n → kind n.method →
    ∃ k, b.graph.node? k = some { n with id := k }
  edges : ∀ n site m, a.graph.Links n site m → kind m.1 → b.graph.Links n site m
  facts : ∀ l x, x ∈ a.solution.objectsAt l → ∃ q, a.tables.placeOf? l = some q ∧ b.Holds q x

theorem Analysis.Exact.withinFor {v : Setup} {a b : Analysis} {kind : Method → Prop}
    (first : a.Exact u) (second : b.Exact v)
    (named : ∀ l x, x ∈ a.solution.objectsAt l → ∃ q, a.tables.placeOf? l = some q)
    (noUnknown : ¬ kind .unknown)
    (nodes : ∀ n, kind n.1 → u.Follows (.node n) → v.Follows (.node n))
    (edges : ∀ n site m, kind m.1 → u.Follows (.edge n site m) → v.Follows (.edge n site m))
    (facts : ∀ q x, u.Follows (.holds q x) → v.Follows (.holds q x)) : a.WithinFor kind b where
  nodes i n here ofKind := by
    have known : n.method ≠ .unknown := fun same => noUnknown (same ▸ ofKind)
    have follows := first.follows_node (CallGraph.node?_eq_some_iff.mp here).1 known
    exact second.exists_id (nodes _ ofKind follows)
  edges n site m linked ofKind := by
    have known : m.1 ≠ .unknown := fun same => noUnknown (same ▸ ofKind)
    exact (second.links n site m).mpr
      (.inl (edges n site m ofKind (first.follows_edge linked known)))
  facts l x member := by
    obtain ⟨q, place, follows⟩ := first.exists_place (named l x member) member
    exact ⟨q, place, (second.holds q x).mpr (facts q x follows)⟩

/-- If all that follows for one answer follows for another, only the unknown may be in the first
one alone. -/
theorem Analysis.Exact.withinFor_of_follows {v : Setup} {a b : Analysis} (first : a.Exact u)
    (second : b.Exact v)
    (named : ∀ l x, x ∈ a.solution.objectsAt l → ∃ q, a.tables.placeOf? l = some q)
    (more : ∀ j, u.Follows j → v.Follows j) : a.WithinFor (· ≠ .unknown) b :=
  first.withinFor second named (fun known => known rfl) (fun _ _ => more _) (fun _ _ _ _ => more _)
    fun _ _ => more _

variable {p : Program} {o : Options}

def Options.reflecting (o : Options) (r : Reflection) : Options := { o with reflection := r }

def Options.receiving (o : Options) (on : Bool) : Options := { o with handleCallApply := on }

/-- Understanding more never loses anything: a larger reflection mode keeps all that is known, and
so does understanding calls through `call` and `apply`, but for the runs of built-in code. -/
theorem precision_monotone (program : p.validate = .ok ()) (options : o.validate = .ok ())
    (unlimited : o.maxNodes = none) :
    (∀ r, o.reflection ≤ r → (o.reflecting r).validate = .ok () →
      ∃ a b, analyze p o (fun _ => none) = .ok a ∧ a.completion = .complete ∧
        analyze p (o.reflecting r) (fun _ => none) = .ok b ∧ b.completion = .complete ∧
        a.WithinFor (· ≠ .unknown) b) ∧
    ∃ a b, analyze p (o.receiving false) (fun _ => none) = .ok a ∧ a.completion = .complete ∧
      analyze p (o.receiving true) (fun _ => none) = .ok b ∧ b.completion = .complete ∧
      a.WithinFor (fun m => ∃ f, m = .function f) b := by
  constructor
  · intro r wider valid
    obtain ⟨a, run, complete⟩ := exists_complete program options unlimited
    obtain ⟨b, more, ended⟩ := exists_complete (o := o.reflecting r) program valid unlimited
    refine ⟨a, b, run, complete, more, ended, ?_⟩
    exact (exact_of_analyze run complete).withinFor_of_follows (exact_of_analyze more ended)
      (fun l x member => named_of_analyze run member) fun j follows => follows.reflecting wider
  · obtain ⟨a, run, complete⟩ := exists_complete (o := o.receiving false) program options unlimited
    obtain ⟨b, more, ended⟩ := exists_complete (o := o.receiving true) program options unlimited
    refine ⟨a, b, run, complete, more, ended, ?_⟩
    apply (exact_of_analyze run complete).withinFor (exact_of_analyze more ended)
    · exact fun l x member => named_of_analyze run member
    · rintro ⟨f, same⟩
      cases same
    · -- the findings that are lost are about runs of built-in code, and this node runs a function
      rintro ⟨m, c⟩ ⟨f, rfl⟩ follows
      exact (follows.receiving rfl).resolve_right (by simp [Finding.runsBuiltin])
    · rintro n site ⟨m, c⟩ ⟨f, rfl⟩ follows
      exact (follows.receiving rfl).resolve_right (by simp [Finding.runsBuiltin])
    · intro q x follows
      exact (follows.receiving rfl).resolve_right (by simp [Finding.runsBuiltin])

/-- Options that tell most apart, but understand known strings only and no calls of receivers. -/
def Options.guarded : Options :=
  { Options.thorough with reflection := .stringOnly, handleCallApply := false }

/-- The function of the small program is constructed in one place, and called through `call` and
`apply` in two more. -/
theorem precision_monotone_tour : Program.tour.validate = .ok () ∧
    Options.guarded.validate = .ok () ∧ Options.guarded.maxNodes = none ∧
    (∃ a b, analyze .tour .guarded (fun _ => none) = .ok a ∧ a.completion = .complete ∧
      analyze .tour (Options.guarded.reflecting .full) (fun _ => none) = .ok b ∧
      b.completion = .complete ∧ a.WithinFor (· ≠ .unknown) b) ∧
    ∃ a b, analyze .tour (Options.guarded.receiving false) (fun _ => none) = .ok a ∧
      analyze .tour (Options.guarded.receiving true) (fun _ => none) = .ok b ∧
      (a.graph.nodesOf 1).length = 1 ∧ (b.graph.nodesOf 1).length = 3 ∧
      a.WithinFor (fun m => ∃ f, m = .function f) b := by
  have program : Program.tour.validate = .ok () := by rfl
  have options : Options.guarded.validate = .ok () := by rfl
  obtain ⟨reflection, a, b, run, -, more, -, within⟩ := precision_monotone program options rfl
  refine ⟨program, options, rfl, reflection .full (by decide) rfl, a, b, run, more, ?_, ?_, within⟩
  · obtain ⟨-, -, rfl⟩ := analyze_eq_ok_iff.mp run
    decide +kernel
  · obtain ⟨-, -, rfl⟩ := analyze_eq_ok_iff.mp more
    decide +kernel

end CallFlow
