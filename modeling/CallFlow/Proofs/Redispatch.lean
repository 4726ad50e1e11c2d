import CallFlow.Proofs.Construction.Served
import CallFlow.Proofs.Lookups

/-! Dispatching a call again. What a call was dispatched to once is of no effect later on, whatever
happened since and though no more nodes may be created by now. -/

namespace CallFlow

namespace Construction

/-- The calls that are dispatched when an item is worked off, with what their callees hold. -/
def calls (c : Construction) : WorkItem → List (PendingCall × IdSet)
  | .propagate k => (c.solver.propagate k).1
  | .visit _ | .target _ => []

/-- A construction at a point of a run, with the calls that were dispatched up to there, and those
that are left in the turn of a location. -/
inductive History (u : Setup) :
    List (PendingCall × IdSet) → List (PendingCall × IdSet) → Construction → Prop
  | start : History u [] [] (start u)
  | work {log c item rest} : History u log [] c → c.ceilingHit = false →
      c.solver.worklist.pop = some (item, rest) → item.key? = none →
      History u log [] ((c.popped rest).process u item)
  | turn {log c k rest} : History u log [] c → c.ceilingHit = false →
      c.solver.worklist.pop = some (.propagate k, rest) →
      History u log ((c.popped rest).calls (.propagate k))
        { c.popped rest with solver := ((c.popped rest).solver.propagate k).2 }
  | dispatch {log x pending c} : History u log (x :: pending) c →
      History u (log ++ [x]) pending (c.dispatch u x)

def dispatches (u : Setup) (monitor : Nat → Option CancelReason) (fuel : Nat) (c : Construction) :
    List (PendingCall × IdSet) :=
  match fuel with
  | 0 => []
  | fuel + 1 =>
    match c.advance u (monitor c.iterations), c.solver.worklist.pop with
    | (none, d), some (item, rest) => (c.popped rest).calls item ++ d.dispatches u monitor fuel
    | _, _ => []

variable {u : Setup} {c d : Construction} {n : Role} {call : PendingCall} {code : Invocation}
  {x : PendingCall × IdSet} {log pending : List (PendingCall × IdSet)} {item : WorkItem}
  {rest : Worklist}

theorem History.foldl (history : History u log pending c) :
    History u (log ++ pending) [] (pending.foldl (Construction.dispatch u) c) := by
  induction pending generalizing log c with
  | nil =>
      rw [List.append_nil]
      exact history
  | cons x pending ih =>
      have rest := ih history.dispatch
      rwa [List.append_assoc, List.singleton_append] at rest

theorem History.process (history : History u log [] c) (below : c.ceilingHit = false)
    (pop : c.solver.worklist.pop = some (item, rest)) :
    History u (log ++ (c.popped rest).calls item) [] ((c.popped rest).process u item) := by
  cases item with
  | propagate k => exact (history.turn below pop).foldl
  | visit i =>
      have none : (c.popped rest).calls (.visit i) = [] := rfl
      rw [none, List.append_nil]
      exact history.work below pop rfl
  | target b =>
      have none : (c.popped rest).calls (.target b) = [] := rfl
      rw [none, List.append_nil]
      exact history.work below pop rfl

/-- The states of a run are points of it. -/
theorem History.runWithin (monitor : Nat → Option CancelReason) (fuel : Nat)
    (history : History u log [] c) :
    History u (log ++ c.dispatches u monitor fuel) [] (c.runWithin u monitor fuel).2 := by
  induction fuel generalizing log c with
  | zero =>
      unfold dispatches
      rw [List.append_nil]
      exact history
  | succ fuel ih =>
      unfold Construction.runWithin dispatches
      rcases step : c.advance u (monitor c.iterations) with ⟨_ | ended, d⟩
      · obtain ⟨below, item, rest, pop, rfl⟩ := advance_eq_none step
        have next := ih (history.process below pop)
        rw [pop]
        rwa [List.append_assoc] at next
      · obtain ⟨rfl, -⟩ := advance_eq_some step
        dsimp only
        rw [List.append_nil]
        exact history

/-- A call that is to be dispatched is one of a node, and its objects are known. -/
structure Asked (c : Construction) (x : PendingCall × IdSet) : Prop where
  caller : ∃ n, c.roles x.1.caller = some n
  objects : ∀ i ∈ x.2.toList, ∃ o, c.solver.objects.value? i = some o

/-- A call that was dispatched has done what its objects mean. -/
structure Answered (u : Setup) (c : Construction) (x : PendingCall × IdSet) : Prop extends
    c.Asked x where
  served : ∀ code, c.call? u x.1.caller x.1.pc = some code →
    ∀ target ∈ c.solver.dispatchTargets u.callsReceiver x.1.dispatch x.2, c.Serves u x.1 code target

theorem mem_dispatchTargets_iff {s : Solver} {receives : Bool} {way : Dispatch} {facts : IdSet}
    {target : DispatchTarget} : target ∈ s.dispatchTargets receives way facts ↔
      ∃ i ∈ facts.toList, ∃ o k, s.objects.value? i = some o ∧ o.classify receives way = some k ∧
        target = k.target i := by
  unfold Solver.dispatchTargets
  rw [List.mem_filterMap]
  constructor
  · rintro ⟨i, member, means⟩
    obtain ⟨k, classified, rfl⟩ := Option.map_eq_some_iff.mp means
    obtain ⟨o, handed, classified⟩ := Option.bind_eq_some_iff.mp classified
    exact ⟨i, member, o, k, handed, classified, rfl⟩
  · rintro ⟨i, member, o, k, handed, classified, rfl⟩
    exact ⟨i, member, by simp [handed, classified]⟩

theorem Asked.move (asked : c.Asked x) (moves : c.Moves u d) : d.Asked x := by
  obtain ⟨n, here⟩ := asked.caller
  refine ⟨⟨n, moves.grows.roles _ _ here⟩, fun i member => ?_⟩
  obtain ⟨o, handed⟩ := asked.objects i member
  exact ⟨o, moves.grows.solver.objects _ _ handed⟩

/-- The targets of objects that are known stay the same. -/
theorem Asked.mem_dispatchTargets_iff (asked : c.Asked x) (moves : c.Moves u d) (receives : Bool)
    (target : DispatchTarget) : target ∈ d.solver.dispatchTargets receives x.1.dispatch x.2 ↔
      target ∈ c.solver.dispatchTargets receives x.1.dispatch x.2 := by
  simp only [Construction.mem_dispatchTargets_iff]
  constructor
  · rintro ⟨i, member, o, k, handed, rest⟩
    obtain ⟨o', known⟩ := asked.objects i member
    obtain rfl := Option.some.inj ((moves.grows.solver.objects _ _ known).symm.trans handed)
    exact ⟨i, member, o', k, known, rest⟩
  · rintro ⟨i, member, o, k, handed, rest⟩
    exact ⟨i, member, o, k, moves.grows.solver.objects _ _ handed, rest⟩

theorem Answered.move (answered : c.Answered u x) (moves : c.Moves u d) : d.Answered u x := by
  obtain ⟨n, here⟩ := answered.caller
  refine ⟨answered.toAsked.move moves, fun code found target member => ?_⟩
  have before := (answered.toAsked.mem_dispatchTargets_iff moves _ target).mp member
  rw [call?_eq (moves.grows.roles _ _ here), ← call?_eq here] at found
  exact (answered.served code found target before).move moves

theorem moves_dispatchTarget (valid : c.Valid u) (here : c.roles call.caller = some n)
    (found : u.callOf? n call.pc = some code) {i : Nat} {o : AbstractObject} {k : CalleeKind}
    (handed : c.solver.objects.value? i = some o)
    (means : o.classify u.callsReceiver call.dispatch = some k) :
    c.Moves u (dispatchTarget u call code c (k.target i)) := by
  have enacted := enacts_dispatchTarget valid here found handed means
  exact ⟨enacted.valid, enacted.grows,
    (evolves_dispatchTarget (Valid.lt_of_roles here) code _).graph⟩

/-- A call does for all its objects what they mean. -/
theorem serves_dispatchTargets (valid : c.Valid u) (here : c.roles call.caller = some n)
    (found : u.callOf? n call.pc = some code) {targets : List DispatchTarget}
    (each : ∀ target ∈ targets, ∃ i o k, c.solver.objects.value? i = some o ∧
      o.classify u.callsReceiver call.dispatch = some k ∧ target = k.target i) :
    c.Moves u (targets.foldl (dispatchTarget u call code) c) ∧
      ∀ target ∈ targets,
        (targets.foldl (dispatchTarget u call code) c).Serves u call code target := by
  induction targets generalizing c with
  | nil => exact ⟨.refl valid, fun _ member => nomatch member⟩
  | cons first targets ih =>
      -- What the first target takes is done now, and the later ones only add to it.
      obtain ⟨i, o, k, handed, means, rfl⟩ := each first List.mem_cons_self
      have moves := moves_dispatchTarget valid here found handed means
      have serves := serves_dispatchTarget valid here found (k.target i)
      obtain ⟨after, all⟩ := ih moves.valid (moves.grows.roles _ _ here) fun target member => by
        obtain ⟨i, o, k, handed, rest⟩ := each target (List.mem_cons_of_mem _ member)
        exact ⟨i, o, k, moves.grows.solver.objects _ _ handed, rest⟩
      refine ⟨moves.trans after, fun target member => ?_⟩
      rcases List.mem_cons.mp member with rfl | later
      · exact serves.move after
      · exact all target later

theorem answered_dispatch (valid : c.Valid u) (asked : c.Asked x) :
    c.Moves u (c.dispatch u x) ∧ (c.dispatch u x).Answered u x := by
  obtain ⟨n, here⟩ := asked.caller
  unfold dispatch
  rw [call?_eq here]
  cases found : u.callOf? n x.1.pc with
  | none =>
      refine ⟨.refl valid, asked, fun code known => ?_⟩
      rw [call?_eq here, found] at known
      cases known
  | some code =>
      have each : ∀ target ∈ c.solver.dispatchTargets u.callsReceiver x.1.dispatch x.2,
          ∃ i o k, c.solver.objects.value? i = some o ∧
            o.classify u.callsReceiver x.1.dispatch = some k ∧ target = k.target i := by
        intro target member
        obtain ⟨i, -, o, k, rest⟩ := mem_dispatchTargets_iff.mp member
        exact ⟨i, o, k, rest⟩
      obtain ⟨moves, serves⟩ := serves_dispatchTargets valid here found each
      refine ⟨moves, asked.move moves, fun code' known target member => ?_⟩
      rw [call?_eq (moves.grows.roles _ _ here), found] at known
      cases known
      exact serves target ((asked.mem_dispatchTargets_iff moves _ target).mp member)

theorem foldl_eq_self {σ α : Type} {f : σ → α → σ} {s : σ} (xs : List α)
    (each : ∀ x ∈ xs, f s x = s) : xs.foldl f s = s := by
  induction xs with
  | nil => rfl
  | cons x xs ih =>
      rw [List.foldl_cons, each x List.mem_cons_self]
      exact ih fun y member => each y (List.mem_cons_of_mem x member)

/-- A call that was dispatched to some objects has nothing to do for any of them. -/
theorem Answered.dispatch_eq (answered : c.Answered u x) (sorted : c.graph.Sorted) {facts : IdSet}
    (within : ∀ i ∈ facts.toList, i ∈ x.2.toList) : c.dispatch u (x.1, facts) = c := by
  unfold dispatch
  split
  · rfl
  · rename_i code found
    refine foldl_eq_self _ fun target member => ?_
    obtain ⟨i, here, means⟩ := mem_dispatchTargets_iff.mp member
    have before := mem_dispatchTargets_iff.mpr ⟨i, within i here, means⟩
    exact (answered.served code found target before).dispatchTarget_eq sorted

/-- What holds at each point of a run. -/
structure Recorded (u : Setup) (log pending : List (PendingCall × IdSet)) (c : Construction) :
    Prop where
  valid : c.Valid u
  sorted : c.graph.Sorted
  busy : ∀ k, c.solver.Waits k → c.solver.members k ≠ []
  asked : ∀ x ∈ pending, c.Asked x
  answered : ∀ x ∈ log, c.Answered u x

theorem Recorded.move (recorded : c.Recorded u log pending) (moves : c.Moves u d) :
    d.Recorded u log pending where
  valid := moves.valid
  sorted := moves.evolves.sorted recorded.sorted
  busy := moves.grows.solver.occupied recorded.busy
  asked x member := (recorded.asked x member).move moves
  answered x member := (recorded.answered x member).move moves

theorem Serves.popped {target : DispatchTarget} (serves : c.Serves u call code target) :
    (c.popped rest).Serves u call code target := by
  cases target with
  | function f i => exact serves
  | builtin b => exact serves
  | reflective way => exact serves

theorem Recorded.popped (recorded : c.Recorded u log pending)
    (takes : c.solver.worklist.Takes item rest) : (c.popped rest).Recorded u log pending where
  valid := recorded.valid.popped takes
  sorted := recorded.sorted
  busy k waits := recorded.busy k ((takes.mem_iff _).mpr (.inr waits))
  asked x member := ⟨(recorded.asked x member).caller, (recorded.asked x member).objects⟩
  answered x member := by
    have before := recorded.answered x member
    exact ⟨⟨before.caller, before.objects⟩, fun code found target here =>
      (before.served code found target here).popped⟩

theorem recorded_start (u : Setup) : (start u).Recorded u [] [] where
  valid := (reached_start u).valid
  sorted := (evolves_start u).graph.sorted CallGraph.sorted_new
  busy := (start?_eq u).2.busy
  asked _ member := nomatch member
  answered _ member := nomatch member

/-- At each point of a run, what was dispatched is answered. -/
theorem History.recorded (history : History u log pending c) : c.Recorded u log pending := by
  induction history with
  | start => exact recorded_start u
  | @work log c item rest _ below pop other ih =>
      have takes := Worklist.takes_of_pop pop
      have taken := ih.popped takes
      have waits : item ∈ c.solver.worklist.items := (takes.mem_iff item).mpr (.inl rfl)
      refine taken.move ?_
      cases item with
      | propagate k => cases other
      | visit i => exact moves_visit taken.valid i
      | target b =>
          obtain ⟨y, means⟩ := taken.valid.bindings b (ih.valid.queued b waits)
          exact moves_bind taken.valid means
  | @turn log c k rest _ below pop ih =>
      have takes := Worklist.takes_of_pop pop
      have taken := ih.popped takes
      have waits : .propagate k ∈ c.solver.worklist.items := (takes.mem_iff _).mpr (.inl rfl)
      obtain ⟨p, here⟩ :=
        taken.valid.solver.place (ih.valid.solver.lt_size_of_members (ih.busy k waits))
      obtain ⟨sent, passed, -⟩ :=
        Solver.enacts_propagate taken.valid.solver (c.popped rest).nodesDistinct here
      have enacted := Enacts.of_solver (u := u) taken.valid passed
      have moves : (c.popped rest).Moves u
          { c.popped rest with solver := ((c.popped rest).solver.propagate k).2 } :=
        ⟨enacted.valid, enacted.grows, .refl⟩
      have after := taken.move moves
      refine ⟨after.valid, after.sorted, after.busy, ?_, after.answered⟩
      -- A call of the turn is asked for the objects that the location held when it was taken.
      rintro ⟨call, facts⟩ member
      obtain ⟨rfl, imposed⟩ := Solver.mem_calls_of_propagate member
      obtain ⟨-, a, meant⟩ := taken.valid.solver.constraints k _ imposed
      obtain ⟨n, caller, -⟩ := Option.map_eq_some_iff.mp meant
      have asked : (c.popped rest).Asked (call, (c.popped rest).solver.facts k) := by
        refine ⟨⟨n, caller⟩, fun i held => ?_⟩
        exact (Numbering.value?_isSome_iff _ i).mpr (taken.valid.solver.members k i held).2
      exact asked.move moves
  | @dispatch log x pending c _ ih =>
      obtain ⟨moves, answered⟩ := answered_dispatch ih.valid (ih.asked x List.mem_cons_self)
      have after := ih.move moves
      refine ⟨after.valid, after.sorted, after.busy, fun y member => ?_, fun y member => ?_⟩
      · exact after.asked y (List.mem_cons_of_mem x member)
      · rcases List.mem_append.mp member with old | new
        · exact after.answered y old
        · rw [List.mem_singleton.mp new]
          exact answered

end Construction

open Construction

/-- At each point of a run, also within the turn of a location, a call may be dispatched again to
any objects that it was dispatched to before, and nothing changes. The states that a run passes
through are such points. -/
theorem dispatch_again (p : Program) (o : Options) :
    let u := Setup.ofOptions p o
    (∀ monitor fuel, History u ((start u).dispatches u monitor fuel) []
      ((start u).runWithin u monitor fuel).2) ∧
    ∀ log pending c, History u log pending c → ∀ call facts, (call, facts) ∈ log →
      ∀ within : IdSet, (∀ i ∈ within.toList, i ∈ facts.toList) →
        c.dispatch u (call, within) = c := by
  intro u
  refine ⟨fun monitor fuel => History.start.runWithin monitor fuel, ?_⟩
  intro log pending c history call facts member within inside
  have recorded := history.recorded
  exact (recorded.answered _ member).dispatch_eq recorded.sorted inside

/-- The small program's call of `apply` finds no room for a node, and still finds none when it is
dispatched again. -/
theorem dispatch_again_tour :
    let u := Setup.ofOptions .tour { Options.thorough with maxNodes := some 4 }
    let log := (start u).dispatches u (fun _ => none) 100
    let c := ((start u).runWithin u (fun _ => none) 100).2
    History u log [] c ∧ c.ceilingHit = true ∧ (⟨1, 8, .apply⟩, .singleton 4) ∈ log ∧
      (∀ i ∈ (IdSet.singleton 4).toList, i ∈ (IdSet.singleton 4).toList) ∧
      c.dispatch u (⟨1, 8, .apply⟩, .singleton 4) = c := by
  intro u log c
  obtain ⟨runs, again⟩ := dispatch_again .tour { Options.thorough with maxNodes := some 4 }
  have history : History u log [] c := runs (fun _ => none) 100
  have dispatched : (⟨1, 8, .apply⟩, .singleton 4) ∈ log := by decide +kernel
  exact ⟨history, by decide +kernel, dispatched, fun _ member => member,
    again log [] c history _ _ dispatched _ fun _ member => member⟩

end CallFlow
