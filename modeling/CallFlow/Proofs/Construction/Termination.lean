import CallFlow.Proofs.Construction.Bound
import CallFlow.Proofs.Construction.Connecting

/-! Runs that nobody stops. Each step is counted once and paid for by what was found, which is
bounded, so that a run without a ceiling ends long before its steps are used up. -/

namespace CallFlow.Construction

variable {u : Setup} {c d : Construction}

theorem iterations_foldl {α : Type} {f : Construction → α → Construction}
    (each : ∀ c x, (f c x).iterations = c.iterations) (xs : List α) (c : Construction) :
    (xs.foldl f c).iterations = c.iterations := by
  induction xs generalizing c with
  | nil => rfl
  | cons x xs ih => exact (ih (f c x)).trans (each c x)

theorem iterations_nodeFor (c : Construction) (m : Method) (ctx : Context) :
    (c.nodeFor u m ctx).2.iterations = c.iterations := by
  cases found : c.graph.find? m ctx with
  | some k => rw [nodeFor_of_known found]
  | none =>
      cases full : c.isFull u with
      | true => rw [nodeFor_of_full found full]
      | false =>
          obtain ⟨t, same⟩ := nodeFor_of_new found full
          rw [same]

theorem iterations_connect (c : Construction) (caller : Nat) (site : CallSite) (m : Method)
    (ctx : Context) : (c.connect u caller site m ctx).2.iterations = c.iterations := by
  have node := iterations_nodeFor (u := u) c m ctx
  rcases called : c.nodeFor u m ctx with ⟨_ | k, d⟩
  · rw [called] at node
    rw [connect_of_none called]
    exact node
  · rw [called] at node
    rw [connect_of_some called]
    exact node

theorem iterations_addBinding (c : Construction) (b : Binding) :
    (c.addBinding b).iterations = c.iterations := by
  unfold addBinding
  split <;> rfl

theorem iterations_noteBinding (call : PendingCall) (object : Nat)
    (x : Option Nat × Construction) : (noteBinding call object x).iterations = x.2.iterations := by
  obtain ⟨id, c⟩ := x
  cases id with
  | none => rfl
  | some id => exact iterations_addBinding c _

theorem iterations_dispatchFunction (call : PendingCall) (code : Invocation) (f : FunctionId)
    (object : Nat) (c : Construction) :
    (c.dispatchFunction u call code f object).iterations = c.iterations := by
  cases here : c.graph.node? call.caller with
  | none => rw [dispatchFunction_of_none here]
  | some caller =>
      rw [dispatchFunction_eq here, iterations_noteBinding]
      exact iterations_connect ..

theorem iterations_dispatchReceiver (call : PendingCall) (code : Invocation) (d : Dispatch)
    (c : Construction) : (c.dispatchReceiver call code d).iterations = c.iterations := by
  unfold dispatchReceiver
  split <;> rfl

theorem iterations_dispatchTarget (call : PendingCall) (code : Invocation) (c : Construction)
    (x : DispatchTarget) : (dispatchTarget u call code c x).iterations = c.iterations := by
  cases x with
  | function f object => exact iterations_dispatchFunction call code f object c
  | builtin b =>
      rw [dispatchTarget]
      exact iterations_connect ..
  | reflective d => exact iterations_dispatchReceiver call code d c

theorem iterations_dispatch (c : Construction) (found : PendingCall × IdSet) :
    (c.dispatch u found).iterations = c.iterations := by
  unfold dispatch
  split
  · rfl
  · exact iterations_foldl (iterations_dispatchTarget found.1 _) _ c

theorem iterations_visit (c : Construction) (id : Nat) :
    (c.visit u id).iterations = c.iterations := by
  unfold visit
  split
  · rename_i n f _ _
    exact iterations_foldl (f := addInstruction u n f) (fun _ _ => rfl) _ _
  · rfl

theorem iterations_bind (c : Construction) (b : Binding) :
    (c.bind u b).iterations = c.iterations := by
  unfold bind
  split <;> rfl

/-- Work that is done does not count as a step of its own. -/
theorem iterations_process (c : Construction) (item : WorkItem) :
    (c.process u item).iterations = c.iterations := by
  cases item with
  | propagate k => exact iterations_foldl iterations_dispatch _ _
  | visit id => exact iterations_visit c id
  | target b => exact iterations_bind c b

theorem iterations_addEntry (c : Construction) (e : FunctionId × Nat) :
    (c.addEntry u e).iterations = c.iterations := by
  rw [addEntry]
  exact iterations_connect ..

theorem iterations_start (u : Setup) : (start u).iterations = 0 :=
  iterations_foldl iterations_addEntry _ (seeded u)

/-- A step that does not end a run is counted. -/
theorem iterations_advance {answer : Option CancelReason} (on : c.advance u answer = (none, d)) :
    d.iterations = c.iterations + 1 := by
  obtain ⟨-, item, rest, -, rfl⟩ := advance_eq_none on
  exact iterations_process (c.popped rest) item

/-- A run that comes to its end takes the steps that it counts. It comes to the same end whenever it
may take more than these. -/
theorem runWithin_of_complete {monitor : Nat → Option CancelReason} {fuel : Nat}
    (ended : c.runWithin u monitor fuel = (.complete, d)) :
    c.iterations ≤ d.iterations ∧ ∀ more, d.iterations < c.iterations + more →
      c.runWithin u monitor more = (.complete, d) := by
  -- both runs ask the monitor the same, since each step knows how many there were before it
  induction fuel generalizing c with
  | zero =>
      unfold Construction.runWithin at ended
      cases ended
  | succ fuel ih =>
      unfold Construction.runWithin at ended
      rcases step : c.advance u (monitor c.iterations) with ⟨_ | why, e⟩
      · rw [step] at ended
        obtain ⟨least, same⟩ := ih ended
        rw [iterations_advance step] at least same
        refine ⟨by omega, fun more enough => ?_⟩
        obtain ⟨more, rfl⟩ := Nat.exists_eq_add_one_of_ne_zero (n := more) (by omega)
        unfold Construction.runWithin
        rw [step]
        exact same more (by omega)
      · rw [step] at ended
        obtain ⟨rfl, -⟩ := advance_eq_some step
        cases ended
        refine ⟨Nat.le_refl _, fun more enough => ?_⟩
        obtain ⟨more, rfl⟩ := Nat.exists_eq_add_one_of_ne_zero (n := more) (by omega)
        unfold Construction.runWithin
        rw [step]

/-- How a run comes to an end: nothing is left to do, a node was refused at the ceiling, or the
monitor stops it. -/
inductive Ends (u : Setup) (monitor : Nat → Option CancelReason) : Completion × Construction → Prop
  | complete {c : Construction} : c.ceilingHit = false → c.solver.worklist.items = [] →
      Ends u monitor (.complete, c)
  | nodeBudget {c : Construction} {limit} : c.ceilingHit = true → u.maxNodes = some limit →
      Ends u monitor (.cut (.nodeBudget limit), c)
  | canceled {c : Construction} {why} : monitor c.iterations = some why →
      Ends u monitor (.cut (.canceled why), c)

variable {monitor : Nat → Option CancelReason} {ended : Completion}

theorem Ends.ne_stepLimit (ends : Ends u monitor (ended, c)) : ended ≠ .cut .stepLimit := by
  rintro rfl
  cases ends

/-- Without a ceiling and when nobody stops it, a run can only be complete. -/
theorem Ends.eq_complete (ends : Ends u (fun _ => none) (ended, c))
    (unlimited : u.maxNodes = none) : ended = .complete := by
  cases ends with
  | complete => rfl
  | nodeBudget _ limited =>
      rw [unlimited] at limited
      cases limited
  | canceled stopped => cases stopped

theorem Reached.ends_of_advance (reached : Reached u c)
    (stop : c.advance u (monitor c.iterations) = (some ended, d)) : Ends u monitor (ended, d) := by
  obtain ⟨rfl, idle⟩ := advance_eq_some stop
  unfold advance at stop
  split at stop
  · rename_i hit
    cases stop
    cases limit : u.maxNodes with
    | none => exact absurd hit (Bool.eq_false_iff.mp (reached.accounted.below limit))
    | some limit => exact .nodeBudget hit limit
  · split at stop
    · cases stop
      exact .complete (idle rfl).1 (idle rfl).2
    · cases answer : monitor d.iterations with
      | none =>
          rw [answer] at stop
          cases stop
      | some why =>
          rw [answer] at stop
          cases stop
          exact .canceled answer

/-- Enough steps bring a run to its end, whatever the ceiling and whatever stops it. -/
theorem Reached.ends (wf : u.program.WellFormed) (monitor : Nat → Option CancelReason) (fuel : Nat)
    (reached : Reached u c) (enough : u.program.stepBound < c.iterations + fuel) :
    Ends u monitor (c.runWithin u monitor fuel) := by
  induction fuel generalizing c with
  | zero =>
      -- The steps that were done are paid for, so they cannot be that many.
      have paid := reached.spent_le wf
      unfold spent at paid
      omega
  | succ fuel ih =>
      unfold Construction.runWithin
      rcases step : c.advance u (monitor c.iterations) with ⟨_ | ended, d⟩
      · obtain ⟨below, item, rest, pop, rfl⟩ := advance_eq_none step
        refine ih (reached.process below (Worklist.takes_of_pop pop)) ?_
        rw [iterations_advance step]
        omega
      · exact reached.ends_of_advance step

/-- Enough steps complete a run, if there is no ceiling and nobody stops it. -/
theorem Reached.completes (wf : u.program.WellFormed) (unlimited : u.maxNodes = none) (fuel : Nat)
    (reached : Reached u c) (enough : u.program.stepBound < c.iterations + fuel) :
    (c.runWithin u (fun _ => none) fuel).1 = .complete :=
  (reached.ends wf (fun _ => none) fuel enough).eq_complete unlimited

end CallFlow.Construction
