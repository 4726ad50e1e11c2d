import CallFlow.Proofs.Construction.Rules

/-! Properties of all findings of the lists that the rules name, from the properties of their parts.
-/

namespace CallFlow

variable {P Q : Finding Role → Prop}

@[simp]
theorem each_linked (p q : Place Role) :
    Each P (Finding.linked p q) ↔ P (.place p) ∧ P (.place q) ∧ P (.flows p q) := by
  simp [Finding.linked]

@[simp]
theorem each_stored (p : Place Role) (o : AbstractObject) :
    Each P (Finding.stored p o) ↔ P (.place p) ∧ P (.holds p o) := by
  simp [Finding.stored]

@[simp]
theorem each_run (n : Role) (site : CallSite) (m : Role) :
    Each P (Finding.run n site m) ↔ P (.node m) ∧ P (.site n site) ∧ P (.edge n site m) := by
  simp [Finding.run]

namespace Finding

variable {n m a b : Role} {site s : CallSite}

theorem node_mem_run_iff : .node m ∈ run a s b ↔ m = b := by simp [run]

theorem site_mem_run_iff : .site n site ∈ run a s b ↔ n = a ∧ site = s := by simp [run]

theorem edge_mem_run_iff : .edge n site m ∈ run a s b ↔ n = a ∧ site = s ∧ m = b := by simp [run]

end Finding

theorem each_dispatch {u : Setup} {n : Role} {pc : Nat} {d : Dispatch} {o : AbstractObject}
    (bindings : ∀ m, P (.binding n pc m o d)) (nodes : ∀ m, P (.node m))
    (sites : ∀ s, P (.site n s)) (edges : ∀ s m, P (.edge n s m)) (places : ∀ p, P (.place p))
    (waiting : ∀ p d, P (.attached p (.invoke n pc d))) :
    Each P (u.dispatchFindings n pc d o) := by
  unfold Setup.dispatchFindings
  split
  · simp
  · dsimp only
    split <;> simp [*]

namespace Setup

variable {u : Setup} {j : Finding Role}

theorem mem_visitFindings {n : Role} :
    j ∈ u.visitFindings n ↔ ∃ f, u.bodyOf? n = some f ∧ ∃ (pc : Nat) (i : Instruction),
      f.instructions[pc]? = some i ∧ j ∈ i.findings u.heap n f.id pc := by
  unfold Setup.visitFindings
  cases u.bodyOf? n with
  | none => simp
  | some f =>
      simp only [Option.elim_some, List.mem_flatMap, Prod.exists, List.mem_zipIdx_iff_getElem?,
        Option.some.injEq, exists_eq_left']
      exact exists_comm

theorem mem_bindFindings {e : Encounter} :
    j ∈ u.bindFindings e ↔ ∃ f call callee, u.bodyOf? e.caller = some f ∧
      u.callOf? e.caller e.pc = some call ∧ u.bodyOf? e.callee = some callee ∧
      j ∈ e.findings u.heap f.id call callee := by
  unfold Setup.bindFindings
  cases u.bodyOf? e.caller <;> cases u.callOf? e.caller e.pc <;> cases u.bodyOf? e.callee <;> simp

end Setup

/-- Connecting a call asks for a fresh object if it is a construction, and else only for flow
between variables of the caller and of the callee, or for loads of the elements of an array. -/
theorem Encounter.each_findings {h : HeapPolicy} {e : Encounter} {f : FunctionId}
    {call : Invocation} {callee : FunctionBody}
    (receiver : P (.place (.var e.callee callee.thisVar)))
    (construct : e.dispatch = .direct → call.kind = .construct →
      Each P (e.constructFindings h f (.var e.callee callee.thisVar) call.dst))
    (pass : ∀ v, call.receiver = some v ∨ v ∈ call.args →
      Each P (e.pass (.var e.callee callee.thisVar) v))
    (argument : ∀ a ∈ call.args, ∀ p ∈ callee.params, Each P (e.argumentFindings (a, p)))
    (array : ∀ a ∈ call.args, P (.place (.var e.caller a)))
    (elements : ∀ a ∈ call.args, ∀ p ∈ callee.params, Each P (e.elementsFindings a p))
    (result : Each P (e.resultFindings call)) : Each P (e.findings h f call callee) := by
  have zipped : ∀ as : List VarId, (∀ a ∈ as, a ∈ call.args) →
      Each P ((as.zip callee.params).flatMap e.argumentFindings) := by
    intro as passed
    rw [each_flatMap]
    rintro ⟨a, p⟩ member
    obtain ⟨given, param⟩ := List.of_mem_zip member
    exact argument a (passed a given) p param
  simp only [findings, List.cons_append, each_cons, each_append]
  refine ⟨receiver, ⟨?_, ?_⟩, result⟩
  · unfold receiverFindings
    split
    · rename_i direct kind
      exact construct direct kind
    · exact (each_elim _ _).mpr fun v known => pass v (.inl known)
    · exact (each_elim _ _).mpr fun v known => pass v (.inr (List.mem_of_head? known))
  · unfold argumentsFindings
    split
    · exact zipped _ fun a member => member
    · exact zipped _ fun a member => List.mem_of_mem_drop member
    · refine (each_elim _ _).mpr fun a known => ?_
      have given := List.mem_of_getElem? known
      exact (each_cons _ _).mpr ⟨array a given, (each_flatMap _ _).mpr (elements a given)⟩

end CallFlow
