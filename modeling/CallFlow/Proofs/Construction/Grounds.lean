import CallFlow.Proofs.Construction.Inversion
import CallFlow.Proofs.Construction.Run

/-! Why things are known. Whatever a construction knows at any point, it knows for a reason that it
still knows: an entry point, a visited node, an object at a place where a call waits, or a binding.
-/

namespace CallFlow

/-- A reason for findings, in terms of what is known, which every step of an analysis gives for what
it finds out. -/
structure Setup.Explains (u : Setup) (S : (Finding Role → Prop) → Finding Role → Prop) : Prop where
  mono : ∀ {known later : Finding Role → Prop} {j}, (∀ j, known j → later j) → S known j → S later j
  root : ∀ {known}, S known (.node .root)
  builtins : ∀ {known}, Each (S known) Finding.builtins
  entry : ∀ {known}, ∀ e ∈ u.program.entryPoints.zipIdx, Each (S known) (Finding.entry e)
  flow : ∀ {known r ps j}, FlowRule r ps j → (∀ q ∈ ps, S known q) → S known j
  visit : ∀ {known n}, known (.node n) → Each (S known) (u.visitFindings n)
  dispatch : ∀ {known p n pc d o}, known (.attached p (.invoke n pc d)) → known (.holds p o) →
    Each (S known) (u.dispatchFindings n pc d o)
  bind : ∀ {known} {e : Encounter}, known (.node e.caller) → Each (S known) (u.bindFindings e)

/-- Nodes and calls are known because of an entry point, a visit or a dispatch. -/
theorem Setup.explains_grounds (u : Setup) :
    u.Explains fun known j => j.isControl = true → u.Grounds known j where
  mono grows grounds control := (grounds control).mono grows
  root _ := .root
  builtins j member control := absurd (isControl_of_builtins j member) (by simp [control])
  entry _ here _ member _ := .entry here member
  flow rule _ control := absurd (isControl_of_flow rule) (by simp [control])
  visit node _ member _ := .visit node member
  dispatch attached held _ member _ := .dispatch attached held member
  bind _ j member control := absurd (isControl_of_bind _ j member) (by simp [control])

namespace Construction

variable {u : Setup} {S : (Finding Role → Prop) → Finding Role → Prop} {c d : Construction}
  {js : List (Finding Role)} {item : WorkItem} {rest : Worklist}

/-- There is a reason, of one kind, for all that is known. -/
def Explained (S : (Finding Role → Prop) → Finding Role → Prop) (c : Construction) : Prop :=
  ∀ j, c.Knows j → S c.Knows j

section Explains

variable (explains : u.Explains S)

include explains

/-- Enacting what there is a reason for keeps the reasons for all that is known. -/
theorem Enacts.explained (enacted : Enacts u c d js) (valid : c.Valid u)
    (explained : c.Explained S) (brought : Each (S c.Knows) js) : d.Explained S := by
  have kept : ∀ j, c.Knows j → d.Knows j := fun j known => known.mono valid enacted.grows
  have passing : Solver.Passing (S d.Knows) := by
    refine ⟨fun p place => explains.flow (r := u.reflection) .self ?_, fun p q o flows held =>
      explains.flow (r := u.reflection) (.pass (p := p)) ?_⟩
    · simpa using place
    · simpa using ⟨flows, held⟩
  refine enacted.sound _ passing (fun j known => ?_) fun j member => ?_
  · exact explains.mono kept (explained j known)
  · exact explains.mono kept (brought j member)

theorem explained_start : (start u).Explained S := by
  refine (enacts_start u).explained explains (valid_blank u) (fun j known => ?_) fun j member => ?_
  · rw [knows_blank known]
    exact explains.root
  · rcases List.mem_append.mp member with builtin | entry
    · exact explains.builtins j builtin
    · obtain ⟨e, here, member⟩ := List.mem_flatMap.mp entry
      exact explains.entry e here j member

theorem explained_popped (explained : c.Explained S) : (c.popped rest).Explained S := by
  intro j known
  exact explains.mono (fun _ => knows_popped.mpr) (explained j (knows_popped.mp known))

theorem Ready.explained_visit {i : Nat} (ready : Ready u c (.visit i)) (explained : c.Explained S) :
    (c.visit u i).Explained S := by
  cases here : c.roles i with
  | none =>
      unfold Construction.visit
      rw [node?_eq, here]
      exact explained
  | some n =>
      exact (enacts_visit ready.valid here).explained explains ready.valid explained
        (explains.visit (.node here))

theorem Ready.explained_bind {b : Binding} (ready : Ready u c (.target b))
    (found : c.bindings.contains b = true) (explained : c.Explained S) :
    (c.bind u b).Explained S := by
  obtain ⟨x, means⟩ := ready.valid.bindings b found
  exact (enacts_bind ready.valid means).explained explains ready.valid explained
    (explains.bind (.node means.caller))

theorem Ready.explained_propagate {k : Nat} (ready : Ready u c (.propagate k))
    (some : c.solver.members k ≠ []) (explained : c.Explained S) :
    (c.propagate u k).Explained S := by
  obtain ⟨p, here, -⟩ := ready.valid.solver.exists_holds some
  obtain ⟨os, handed⟩ := ready.valid.solver.objects_of_members k
  obtain ⟨sent, passed, flows, -⟩ :=
    Solver.enacts_propagate ready.valid.solver c.nodesDistinct here
  rcases turn : c.solver.propagate k with ⟨calls, t⟩
  rw [turn] at passed
  have whole := (Enacts.of_solver (u := u) ready.valid passed).trans
    (enacts_propagate ready.valid turn passed handed)
  have flowing : Solver.Flowing c.solver.reflection (S c.Knows) :=
    Solver.flowing_of_closed fun ps j rule premises => explains.flow rule premises
  refine whole.explained explains ready.valid explained fun j member => ?_
  rcases List.mem_append.mp member with moved | called
  · exact flows _ flowing (fun j known => explained j (.solver known)) j moved
  · obtain ⟨n, pc, a, o, attached, held, member⟩ := dispatched_of_calls here turn handed called
    exact explains.dispatch attached held j member

/-- Working off an item keeps the reasons for all that is known. -/
theorem Reached.explained_process (reached : Reached u c) (below : c.ceilingHit = false)
    (takes : c.solver.worklist.Takes item rest) (explained : c.Explained S) :
    ((c.popped rest).process u item).Explained S := by
  have ready := reached.ready below takes
  have waits : item ∈ c.solver.worklist.items := (takes.mem_iff item).mpr (.inl rfl)
  have before : (c.popped rest).Explained S := explained_popped explains explained
  cases item with
  | propagate k =>
      exact ready.explained_propagate explains ((reached.settled below).flow.waits k waits) before
  | visit i => exact ready.explained_visit explains before
  | target b => exact ready.explained_bind explains (reached.valid.queued b waits) before

/-- However long a run goes on and whatever stops it, there is a reason for all that is known. -/
theorem Reached.explained_runWithin (monitor : Nat → Option CancelReason) (fuel : Nat)
    (reached : Reached u c) (explained : c.Explained S) :
    (c.runWithin u monitor fuel).2.Explained S := by
  refine (runWithin_carries (I := fun _ c => Reached u c ∧ c.Explained S) ?_ monitor fuel []
    ⟨reached, explained⟩).2
  rintro - c item rest below pop ⟨reached, explained⟩
  have takes := Worklist.takes_of_pop pop
  exact ⟨reached.process below takes, reached.explained_process explains below takes explained⟩

end Explains

theorem grounded_start (u : Setup) : u.Grounded (start u).Knows :=
  explained_start u.explains_grounds

/-- What is known at any point of a run is grounded. -/
theorem Reached.grounded_runWithin (monitor : Nat → Option CancelReason) (fuel : Nat)
    (reached : Reached u c) (grounded : u.Grounded c.Knows) :
    u.Grounded (c.runWithin u monitor fuel).2.Knows :=
  reached.explained_runWithin u.explains_grounds monitor fuel grounded

end Construction

end CallFlow
