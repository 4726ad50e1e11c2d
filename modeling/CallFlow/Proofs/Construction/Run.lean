import CallFlow.Proofs.Construction.Settled

/-! Whole runs. Every construction that is reached knows only what follows by the rules, and while
no node is refused it is settled but for what waits. One with nothing left to do knows just what
follows. -/

namespace CallFlow.Construction

variable {u : Setup} {c d : Construction}

/-- What holds of every construction that is reached. -/
structure Reached (u : Setup) (c : Construction) : Prop where
  valid : c.Valid u
  reflection : c.solver.reflection = u.reflection
  sound : ∀ j, c.Knows j → u.Follows j
  started : c.ceilingHit = false → ∀ j, u.Rule [] j → c.Knows j
  settled : c.ceilingHit = false → c.Settled u c.Queued
  accounted : c.Accounted u

theorem flowing_of_closed {D : Finding Role → Prop} (closed : Closed u.Rule D) :
    Solver.Flowing u.reflection D :=
  Solver.flowing_of_closed fun ps j rule premises => closed ps j (.flow rule) premises

theorem passing_follows (u : Setup) : Solver.Passing u.Follows :=
  (flowing_of_closed (Derivable.closed u.Rule)).toPassing

def blank (u : Setup) : Construction := { solver := .new u.reflection }

theorem roles_blank (u : Setup) (i : Nat) (n : Role) :
    (blank u).roles i = some n ↔ i = 0 ∧ n = .root := by
  unfold roles blank CallGraph.new
  rw [Numbering.value?_number_eq_some_iff]
  have zero : (Numbering.empty.number ((.fakeRoot, .everywhere) : Role)).1 = 0 := by
    rw [Numbering.number_of_new (by simp [Numbering.find?_eq_none_iff])]
    rfl
  simp only [zero]
  constructor
  · rintro (nothing | here)
    · simp [Numbering.empty, Numbering.value?] at nothing
    · exact here
  · exact .inr

theorem valid_blank (u : Setup) : (blank u).Valid u where
  solver := Solver.valid_new u.reflection _
  graph := CallGraph.wellFormed_new
  root := (roles_blank u 0 .root).mpr ⟨rfl, rfl⟩
  kinds i n site _ found := by
    obtain ⟨s, found, -⟩ := found
    exact absurd found (by simp [CallGraph.site?_new, blank])
  bindings b found := by simp [blank] at found
  queued b waits := by
    have none : (blank u).solver.worklist.items = [] := rfl
    rw [none] at waits
    cases waits

/-- The root alone is all that is known. -/
theorem knows_blank {j : Finding Role} (known : (blank u).Knows j) : j = .node .root := by
  cases known with
  | solver known => exact absurd known Solver.not_knows_new
  | node here =>
      obtain ⟨-, rfl⟩ := (roles_blank u _ _).mp here
      rfl
  | site _ found =>
      obtain ⟨s, found, -⟩ := found
      exact absurd found (by simp [CallGraph.site?_new, blank])
  | edge _ run _ =>
      obtain ⟨s, found, -⟩ := run
      exact absurd found (by simp [CallGraph.site?_new, blank])
  | binding found _ => simp [blank] at found

theorem enacts_start (u : Setup) :
    Enacts u (blank u) (start u)
      (Finding.builtins ++ u.program.entryPoints.zipIdx.flatMap Finding.entry) := by
  have blank := valid_blank u
  have seeded := Enacts.of_solver (u := u) blank (Solver.enacts_seed blank.solver)
  exact seeded.trans (Enacts.foldl (P := fun _ => True) (fun _ _ _ _ => trivial) _
    (fun _ valid _ e _ => enacts_addEntry valid e) seeded.valid trivial)

theorem paired_start (u : Setup) :
    Paired (Finding.builtins ++ u.program.entryPoints.zipIdx.flatMap Finding.entry) := by
  refine .append (.of_single ?_) (.flatMap fun e _ => .of_single ?_)
  · simp [Finding.builtins, Finding.stored, Finding.method, Finding.named]
  · simp [Finding.entry, Finding.run]

/-- A rule without premises is one of the start. -/
theorem mem_start_of_rule {j : Finding Role} (rule : u.Rule [] j) :
    j = .node .root ∨
      j ∈ Finding.builtins ++ u.program.entryPoints.zipIdx.flatMap Finding.entry := by
  cases rule with
  | root => exact .inl rfl
  | builtins member => exact .inr (List.mem_append_left _ member)
  | entry here member =>
      exact .inr (List.mem_append_right _ (List.mem_flatMap.mpr ⟨_, here, member⟩))
  | flow rule => cases rule

theorem settled_blank (u : Setup) (todo : WorkItem → Prop) : (blank u).Settled u todo where
  twinned p a known := by cases knows_blank (.solver known)
  flow := Solver.settled_new u.reflection _ _
  called p n pc a o attached _ := by cases knows_blank attached
  visited i n here function := by
    obtain ⟨-, rfl⟩ := (roles_blank u i n).mp here
    cases function
  bound b x found _ := by simp [blank] at found

theorem accounted_blank (u : Setup) : (blank u).Accounted u where
  counted := ⟨rfl, rfl⟩
  paid := ⟨[], ⟨.nil, by simp [blank]⟩, Nat.zero_le _⟩
  below _ := rfl

theorem reached_start (u : Setup) : Reached u (start u) := by
  have started := enacts_start u
  have blank := valid_blank u
  refine ⟨started.valid, started.grows.solver.reflection, ?_, fun below j rule => ?_,
    fun below => ?_, started.accounts.accounted (accounted_blank u)⟩
  · refine started.sound _ (passing_follows u) ?_ ?_
    · intro j known
      rw [knows_blank known]
      exact .of_start .root
    · intro j member
      rcases List.mem_append.mp member with builtin | entry
      · exact .of_start (.builtins builtin)
      · obtain ⟨e, here, member⟩ := List.mem_flatMap.mp entry
        exact .of_start (.entry here member)
  · rcases mem_start_of_rule rule with rfl | member
    · exact .node started.valid.root
    · exact started.known below j member
  · have settled := settled_blank u fun _ => False
    exact settled.grow blank started.grows
      (started.twinned blank below settled.twinned (paired_start u)) (fun _ => nofun)
      fun _ waits => waits

def popped (c : Construction) (rest : Worklist) : Construction :=
  { c with solver := { c.solver with worklist := rest }, iterations := c.iterations + 1 }

variable {item : WorkItem} {rest : Worklist}

theorem means_popped {b : Binding} {x : Encounter} :
    (c.popped rest).solver.Means (c.popped rest).roles b x ↔ c.solver.Means c.roles b x := by
  constructor
  · exact fun means => ⟨means.caller, means.callee, means.function, means.pc, means.dispatch⟩
  · exact fun means => ⟨means.caller, means.callee, means.function, means.pc, means.dispatch⟩

theorem knows_popped {j : Finding Role} : (c.popped rest).Knows j ↔ c.Knows j := by
  constructor
  · intro known
    cases known with
    | solver known => exact .solver (Solver.knows_worklist.mp known)
    | node here => exact .node here
    | site here found => exact .site here found
    | edge here run there => exact .edge here run there
    | binding found means => exact .binding found (means_popped.mp means)
  · intro known
    cases known with
    | solver known => exact .solver (Solver.knows_worklist.mpr known)
    | node here => exact .node here
    | site here found => exact .site here found
    | edge here run there => exact .edge here run there
    | binding found means => exact .binding found (means_popped.mpr means)

theorem Valid.popped (valid : c.Valid u) (takes : c.solver.worklist.Takes item rest) :
    (c.popped rest).Valid u where
  solver := valid.solver.worklist (takes.coherent valid.solver.coherent)
  graph := valid.graph
  root := valid.root
  kinds := valid.kinds
  bindings b found := by
    obtain ⟨x, means⟩ := valid.bindings b found
    exact ⟨x, means_popped.mpr means⟩
  queued b waits := by
    exact valid.queued b ((takes.mem_iff _).mpr (.inr waits))

theorem Accounted.popped (before : c.Accounted u)
    (takes : c.solver.worklist.Takes item rest) : (c.popped rest).Accounted u where
  counted := ⟨before.counted.facts, before.counted.constraints⟩
  paid := by
    obtain ⟨bs, lists, paid⟩ := before.paid
    refine ⟨bs, ⟨lists.nodup, lists.mem⟩, ?_⟩
    have spent : (c.popped rest).spent = c.spent := by
      have size := takes.size
      simp only [Construction.spent, Construction.popped, Solver.pending]
      omega
    rw [spent]
    exact paid
  below := before.below

/-- What was taken off the queue is all that is left out. -/
theorem Settled.popped (settled : c.Settled u c.Queued)
    (takes : c.solver.worklist.Takes item rest) :
    (c.popped rest).Settled u fun other => other = item ∨ (c.popped rest).Queued other := by
  have wider : ∀ other, c.Queued other → other = item ∨ (c.popped rest).Queued other :=
    fun other => (takes.mem_iff other).mp
  have turns : ∀ p, c.Turns c.Queued p → (c.popped rest).Turns
      (fun other => other = item ∨ (c.popped rest).Queued other) p :=
    fun p ⟨k, here, waits⟩ => ⟨k, here, wider _ waits⟩
  refine ⟨?_, ?_, ?_, ?_, ?_⟩
  · intro p a
    rw [show (c.popped rest).solver.Knows (c.popped rest).roles = c.solver.Knows c.roles from
      Solver.knows_worklist_eq c.solver c.roles rest]
    exact settled.twinned p a
  · exact (settled.flow.mono turns).worklist fun other waits =>
      (takes.mem_iff other).mpr (.inr waits)
  · intro p n pc a o
    rw [knows_popped, knows_popped]
    refine fun attached held => (settled.called p n pc a o attached held).imp (turns p) ?_
    exact fun known j member => knows_popped.mpr (known j member)
  · intro i n here function
    refine (settled.visited i n here function).imp (wider _) ?_
    exact fun known j member => knows_popped.mpr (known j member)
  · intro b x found means
    refine (settled.bound b x found (means_popped.mp means)).imp (wider _) ?_
    exact fun known j member => knows_popped.mpr (known j member)

theorem Settled.discharge (settled : c.Settled u fun other => other = item ∨ c.Queued other)
    (other : item.key? = none)
    (visited : ∀ i n, item = .visit i → c.roles i = some n → ∀ j ∈ u.visitFindings n, c.Knows j)
    (bound : ∀ b x, item = .target b → c.solver.Means c.roles b x →
      ∀ j ∈ u.bindFindings x, c.Knows j) : c.Settled u c.Queued := by
  have turns : ∀ p, c.Turns (fun other => other = item ∨ c.Queued other) p →
      c.Turns c.Queued p := by
    rintro p ⟨k, here, same | waits⟩
    · rw [← same] at other
      cases other
    · exact ⟨k, here, waits⟩
  refine ⟨settled.twinned, settled.flow.mono turns, ?_, ?_, ?_⟩
  · intro p n pc a o attached held
    exact (settled.called p n pc a o attached held).imp_left (turns p)
  · intro i n here function
    rcases settled.visited i n here function with (same | waits) | known
    · exact .inr (visited i n same.symm here)
    · exact .inl waits
    · exact .inr known
  · intro b x found means
    rcases settled.bound b x found means with (same | waits) | known
    · exact .inr (bound b x same.symm means)
    · exact .inl waits
    · exact .inr known

/-- What is left of a construction is to be found out about one that has some item left out. -/
structure Ready (u : Setup) (c : Construction) (item : WorkItem) : Prop where
  valid : c.Valid u
  reflection : c.solver.reflection = u.reflection
  sound : ∀ j, c.Knows j → u.Follows j
  started : ∀ j, u.Rule [] j → c.Knows j
  settled : c.Settled u fun other => other = item ∨ c.Queued other
  accounted : c.Accounted u

theorem Reached.ready (reached : Reached u c) (below : c.ceilingHit = false)
    (takes : c.solver.worklist.Takes item rest) : Ready u (c.popped rest) item where
  valid := reached.valid.popped takes
  reflection := reached.reflection
  sound j known := reached.sound j (knows_popped.mp known)
  started j rule := knows_popped.mpr (reached.started below j rule)
  settled := (reached.settled below).popped takes
  accounted := reached.accounted.popped takes

/-- Enacting what follows, and nothing left out after it, leads on. -/
theorem Ready.reached {js : List (Finding Role)} (ready : Ready u c item)
    (enacted : Enacts u c d js) (follows : ∀ j ∈ js, u.Follows j)
    (settled : d.ceilingHit = false → d.Settled u d.Queued) : Reached u d where
  valid := enacted.valid
  reflection := enacted.grows.solver.reflection.trans ready.reflection
  sound := enacted.sound _ (passing_follows u) ready.sound follows
  started _ j rule := (ready.started j rule).mono ready.valid enacted.grows
  settled := settled
  accounted := enacted.accounts.accounted ready.accounted

theorem Ready.visit {i : Nat} (ready : Ready u c (.visit i)) : Reached u (c.visit u i) := by
  cases here : c.roles i with
  | none =>
      have same : c.visit u i = c := by
        unfold Construction.visit
        rw [node?_eq, here]
        rfl
      rw [same]
      refine ready.reached (.refl ready.valid) (by simp) fun below => ?_
      refine ready.settled.discharge rfl (fun j n same there => ?_) fun _ _ same => nomatch same
      cases same
      rw [here] at there
      cases there
  | some n =>
      have enacted := enacts_visit ready.valid here
      refine ready.reached enacted ?_ fun below => ?_
      · intro j member
        have node := ready.sound _ (.node here)
        exact (Derivable.closed u.Rule).of_one (.visit member) node
      · have twinned := enacted.twinned ready.valid below ready.settled.twinned (paired_visit u n)
        have settled := ready.settled.grow ready.valid enacted.grows twinned
          (fun _ => Or.imp_right (enacted.grows.solver.items _)) fun _ => .inr
        refine settled.discharge rfl (fun j m same there => ?_) fun _ _ same => nomatch same
        cases same
        obtain rfl := Option.some.inj ((enacted.grows.roles _ _ here).symm.trans there)
        exact enacted.known below

theorem Ready.bind {b : Binding} (ready : Ready u c (.target b))
    (found : c.bindings.contains b = true) : Reached u (c.bind u b) := by
  obtain ⟨x, means⟩ := ready.valid.bindings b found
  have enacted := enacts_bind ready.valid means
  refine ready.reached enacted ?_ fun below => ?_
  · intro j member
    have binding := ready.sound _ (.binding found means)
    exact (Derivable.closed u.Rule).of_one (.bind member) binding
  · have twinned := enacted.twinned ready.valid below ready.settled.twinned (paired_bind u x)
    have settled := ready.settled.grow ready.valid enacted.grows twinned
      (fun _ => Or.imp_right (enacted.grows.solver.items _)) fun _ => .inr
    refine settled.discharge rfl (fun _ _ same => nomatch same) fun b' y same stands => ?_
    cases same
    obtain rfl := (enacted.grows.means means).unique stands
    exact enacted.known below

section Turn

variable {k : Nat} {p : Place Role} {t : Solver} {calls : List (PendingCall × IdSet)}
  {os : List AbstractObject}

/-- What the calls of a turn ask for, they ask for because of what their place holds. -/
theorem dispatched_of_calls (here : (c.solver.tables c.roles).place? k = some p)
    (turn : c.solver.propagate k = (calls, t))
    (handed : (c.solver.members k).map c.solver.objects.value? = os.map some) {j : Finding Role}
    (member : j ∈ calls.flatMap (callFindings u c os)) :
    ∃ n pc a o, c.Knows (.attached p (.invoke n pc a)) ∧ c.Knows (.holds p o) ∧
      j ∈ u.dispatchFindings n pc a o := by
  obtain ⟨⟨call, facts⟩, asked, member⟩ := List.mem_flatMap.mp member
  have imposed : .invoke call ∈ c.solver.constraints k := by
    have member : (call, facts) ∈ (c.solver.propagate k).1 := by
      rw [turn]
      exact asked
    exact (Solver.mem_calls_of_propagate member).2
  cases caller : c.roles call.caller with
  | none => simp [callFindings, caller] at member
  | some n =>
      simp only [callFindings, caller, Option.elim_some] at member
      obtain ⟨o, held, member⟩ := List.mem_flatMap.mp member
      refine ⟨n, call.pc, call.dispatch, o, ?_, ?_, member⟩
      · exact .solver (.attached here (Tables.demand?_invoke call.pc call.dispatch caller) imposed)
      · exact .solver ((Solver.mem_objects_iff c.nodesDistinct here handed o).mp held)

theorem Ready.follows_calls (ready : Ready u c item)
    (here : (c.solver.tables c.roles).place? k = some p)
    (turn : c.solver.propagate k = (calls, t))
    (handed : (c.solver.members k).map c.solver.objects.value? = os.map some) :
    ∀ j ∈ calls.flatMap (callFindings u c os), u.Follows j := by
  intro j member
  obtain ⟨n, pc, a, o, attached, held, member⟩ := dispatched_of_calls here turn handed member
  exact (Derivable.closed u.Rule).of_two (.dispatch member) (ready.sound _ attached)
    (ready.sound _ held)

theorem mem_callFindings {n : Role} {pc : Nat} {a : Dispatch} {o : AbstractObject}
    (here : (c.solver.tables c.roles).place? k = some p)
    (turn : c.solver.propagate k = (calls, t))
    (handed : (c.solver.members k).map c.solver.objects.value? = os.map some)
    (attached : c.Knows (.attached p (.invoke n pc a))) (held : c.Knows (.holds p o))
    {j : Finding Role} (member : j ∈ u.dispatchFindings n pc a o) :
    j ∈ calls.flatMap (callFindings u c os) := by
  have object := (Solver.mem_objects_iff c.nodesDistinct here handed o).mpr
    (knows_holds_iff.mp held)
  have some : c.solver.members k ≠ [] := by
    intro none
    rw [none] at handed
    obtain rfl : os = [] := by simpa using handed.symm
    cases object
  cases knows_attached_iff.mp attached with
  | attached again meant imposed =>
      obtain rfl := Tables.place?_inj c.nodesDistinct here again
      obtain ⟨call, rfl, caller, rfl, rfl⟩ := Tables.call_of_demand?_eq_invoke meant
      have asked := Solver.mem_calls_propagate some imposed
      rw [turn] at asked
      refine List.mem_flatMap.mpr ⟨_, asked, ?_⟩
      have known : c.roles call.caller = .some n := caller
      simp only [callFindings, known, Option.elim_some]
      exact List.mem_flatMap.mpr ⟨o, object, member⟩

theorem paired_calls (u : Setup) (c : Construction) (os : List AbstractObject)
    (calls : List (PendingCall × IdSet)) : Paired (calls.flatMap (callFindings u c os)) := by
  refine .flatMap fun x _ => ?_
  unfold callFindings
  cases c.roles x.1.caller with
  | none => exact .of_single (by simp)
  | some n => exact .flatMap fun o _ => paired_dispatch u n _ _ o

/-- After its turn nothing is left out for a place that holds something. -/
theorem Ready.propagate (ready : Ready u c (.propagate k)) (some : c.solver.members k ≠ []) :
    Reached u (c.propagate u k) := by
  have distinct := c.nodesDistinct
  obtain ⟨p, here, holds⟩ := ready.valid.solver.exists_holds some
  obtain ⟨os, handed⟩ := ready.valid.solver.objects_of_members k
  obtain ⟨sent, passed, follows, -⟩ := Solver.enacts_propagate ready.valid.solver distinct here
  have paired := Solver.Twinned.propagate ready.valid.solver distinct here ready.settled.twinned
  have calm : ∀ q, c.Turns (fun other => other = .propagate k ∨ c.Queued other) q →
      q = p ∨ c.solver.Waiting c.roles q := by
    rintro q ⟨l, there, same | waits⟩
    · cases same
      exact .inl (Option.some.inj (there.symm.trans here))
    · exact .inr ⟨l, there, waits⟩
  -- the solver has its turn first, and the calls are dispatched in what it leaves behind
  have flow := Solver.Settled.propagate ready.valid.solver distinct here holds
    (ready.settled.flow.mono calm)
  rcases turn : c.solver.propagate k with ⟨calls, t⟩
  rw [turn] at passed paired flow
  have moved := Enacts.of_solver (u := u) ready.valid passed
  have called := enacts_propagate ready.valid turn passed handed
  have whole := moved.trans called
  refine ready.reached whole ?_ fun below => ?_
  · intro j member
    rcases List.mem_append.mp member with member | member
    · refine follows u.Follows ?_ (fun j known => ready.sound j (.solver known)) j member
      rw [ready.reflection]
      exact flowing_of_closed (Derivable.closed u.Rule)
    · exact ready.follows_calls here turn handed j member
  · have twinned := called.twinned moved.valid below paired (paired_calls u c os calls)
    have after := ready.settled.grow ready.valid whole.grows twinned
      (fun _ => Or.imp_right (whole.grows.solver.items _)) fun _ => .inr
    refine ⟨twinned, ?_, ?_, ?_, ?_⟩
    · refine (flow.widen called.grows.roles moved.valid.solver).grow
        (moved.valid.widened called.grows) called.grows.solver (nodesDistinct _)
        (fun q waits => ?_) fun q waits => waits
      obtain ⟨l, there, waits⟩ := waits
      exact Turns.mono called.grows (fun item => called.grows.solver.items item) ⟨l, there, waits⟩
    · intro q n pc a o attached held
      rcases after.called q n pc a o attached held with ⟨l, there, same | waits⟩ | known
      · cases same
        have place := (whole.grows.solver.tables _).place?
          ((Solver.tables_extends whole.grows.roles c.solver).place? here)
        obtain rfl := Option.some.inj (there.symm.trans place)
        -- the turn has dispatched the call to the object, unless one of them came during the turn,
        -- and then the place waits again
        rcases whole.grows.holds ready.valid held with before | waits
        · rcases whole.grows.attached ready.valid attached with old | waits | none
          · refine .inr fun j member => called.known below j ?_
            exact mem_callFindings here turn handed old before member
          · exact .inl waits
          · exact absurd held (none o)
        · exact .inl waits
      · exact .inl ⟨l, there, waits⟩
      · exact .inr known
    · intro i n there function
      exact (after.visited i n there function).imp_left fun waits =>
        waits.resolve_left fun same => nomatch same
    · intro b x found means
      exact (after.bound b x found means).imp_left fun waits =>
        waits.resolve_left fun same => nomatch same

end Turn

/-- Working off an item leads on, whichever it is. -/
theorem Reached.process (reached : Reached u c) (below : c.ceilingHit = false)
    (takes : c.solver.worklist.Takes item rest) :
    Reached u ((c.popped rest).process u item) := by
  have ready := reached.ready below takes
  have waits : item ∈ c.solver.worklist.items := (takes.mem_iff item).mpr (.inl rfl)
  cases item with
  | propagate k => exact ready.propagate ((reached.settled below).flow.waits k waits)
  | visit i => exact ready.visit
  | target b => exact ready.bind (reached.valid.queued b waits)

/-- A step that does not end a run works off the first item that waits. -/
theorem advance_eq_none {answer : Option CancelReason} (on : c.advance u answer = (none, d)) :
    c.ceilingHit = false ∧ ∃ item rest, c.solver.worklist.pop = some (item, rest) ∧
      d = (c.popped rest).process u item := by
  unfold advance at on
  split at on
  · cases on
  · rename_i below
    split at on
    · cases on
    · rename_i item t next
      obtain ⟨rest, pop, rfl⟩ := Solver.next?_eq_some next
      cases answer with
      | some why => cases on
      | none =>
          cases on
          exact ⟨Bool.eq_false_iff.mpr below, item, rest, pop, rfl⟩

/-- A step that ends a run changes nothing, and only a run that has nothing left to do is
complete. -/
theorem advance_eq_some {answer : Option CancelReason} {ended : Completion}
    (stop : c.advance u answer = (some ended, d)) :
    d = c ∧ (ended = .complete → c.ceilingHit = false ∧ c.solver.worklist.items = []) := by
  unfold advance at stop
  split at stop
  · cases stop
    exact ⟨rfl, fun complete => nomatch complete⟩
  · rename_i below
    split at stop
    · rename_i next
      cases stop
      refine ⟨rfl, fun _ => ⟨Bool.eq_false_iff.mpr below, ?_⟩⟩
      exact (Worklist.pop_eq_none_iff _).mp (Option.map_eq_none_iff.mp next)
    · cases answer with
      | some why =>
          cases stop
          exact ⟨rfl, fun complete => nomatch complete⟩
      | none => cases stop

/-- The items that a run works off, in their order. -/
def taken (u : Setup) (monitor : Nat → Option CancelReason) (fuel : Nat) (c : Construction) :
    List WorkItem :=
  match fuel with
  | 0 => []
  | fuel + 1 =>
    match c.advance u (monitor c.iterations), c.solver.worklist.pop with
    | (none, c), some (item, _) => item :: c.taken u monitor fuel
    | _, _ => []

/-- What the work on one item keeps, given what was worked off before, a whole run keeps. -/
theorem runWithin_carries {I : List WorkItem → Construction → Prop}
    (step : ∀ {done : List WorkItem} {c : Construction} {item rest}, c.ceilingHit = false →
      c.solver.worklist.pop = some (item, rest) → I done c →
      I (done ++ [item]) ((c.popped rest).process u item))
    (monitor : Nat → Option CancelReason) (fuel : Nat) (done : List WorkItem) (here : I done c) :
    I (done ++ c.taken u monitor fuel) (c.runWithin u monitor fuel).2 := by
  induction fuel generalizing c done with
  | zero =>
      unfold taken
      rw [List.append_nil]
      exact here
  | succ fuel ih =>
      unfold Construction.runWithin taken
      rcases next : c.advance u (monitor c.iterations) with ⟨_ | ended, d⟩
      · obtain ⟨below, item, rest, pop, rfl⟩ := advance_eq_none next
        have later := ih _ (step below pop here)
        rw [pop]
        rwa [List.append_assoc, List.singleton_append] at later
      · obtain ⟨rfl, -⟩ := advance_eq_some next
        dsimp only
        rw [List.append_nil]
        exact here

/-- However long a run goes on and whatever stops it, what it reaches is reached. -/
theorem Reached.runWithin (monitor : Nat → Option CancelReason) (fuel : Nat)
    (reached : Reached u c) :
    Reached u (c.runWithin u monitor fuel).2 ∧
      ((c.runWithin u monitor fuel).1 = .complete →
        (c.runWithin u monitor fuel).2.ceilingHit = false ∧
          (c.runWithin u monitor fuel).2.solver.worklist.items = []) := by
  induction fuel generalizing c with
  | zero => exact ⟨reached, fun complete => nomatch complete⟩
  | succ fuel ih =>
      unfold Construction.runWithin
      rcases step : c.advance u (monitor c.iterations) with ⟨_ | ended, d⟩
      · obtain ⟨below, item, rest, pop, rfl⟩ := advance_eq_none step
        exact ih (reached.process below (Worklist.takes_of_pop pop))
      · obtain ⟨rfl, idle⟩ := advance_eq_some step
        exact ⟨reached, idle⟩

/-- What a rule of flow looks at is known to the solver. -/
theorem knows_solver_of_flow {ps : List (Finding Role)} {j : Finding Role}
    (rule : FlowRule u.reflection ps j) (premises : ∀ p ∈ ps, c.Knows p) :
    ∀ p ∈ ps, c.solver.Knows c.roles p := by
  intro p member
  cases premises p member with
  | solver known => exact known
  | node here => cases rule <;> simp at member
  | site here found => cases rule <;> simp at member
  | edge here run there => cases rule <;> simp at member
  | binding found means => cases rule <;> simp at member

/-- A visit asks for something only if the node runs a function. -/
theorem function_of_visit {n : Role} {j : Finding Role} (member : j ∈ u.visitFindings n) :
    n.1.function?.isSome := by
  unfold Setup.visitFindings at member
  cases body : u.bodyOf? n with
  | none => simp [body] at member
  | some f =>
      obtain ⟨g, runs, -⟩ := Option.bind_eq_some_iff.mp body
      simp [runs]

/-- What is known when nothing is left to do is closed under the rules. -/
theorem Reached.closed (reached : Reached u c) (below : c.ceilingHit = false)
    (idle : c.solver.worklist.items = []) : Closed u.Rule c.Knows := by
  have settled := reached.settled below
  have queued : ∀ item, ¬ c.Queued item := by
    intro item waits
    unfold Queued at waits
    rw [idle] at waits
    cases waits
  have turns : ∀ p, ¬ c.Turns c.Queued p := fun p ⟨k, _, waits⟩ => queued _ waits
  intro ps j rule premises
  -- whatever has yet to be found out has an item that waits, and no item waits
  cases rule with
  | root => exact reached.started below _ .root
  | builtins member => exact reached.started below _ (.builtins member)
  | entry here member => exact reached.started below _ (.entry here member)
  | flow rule =>
      have inner := knows_solver_of_flow rule premises
      rw [← reached.reflection] at rule
      exact .solver (((settled.flow.mono turns).flowing settled.twinned).closed ps j rule inner)
  | visit member =>
      cases premises _ List.mem_cons_self with
      | solver known => cases known
      | node here =>
          refine (settled.visited _ _ here ?_).resolve_left (queued _) j member
          exact function_of_visit member
  | dispatch member =>
      have attached := premises _ List.mem_cons_self
      have held := premises _ (List.mem_cons_of_mem _ List.mem_cons_self)
      exact (settled.called _ _ _ _ _ attached held).resolve_left (turns _) j member
  | bind member =>
      cases premises _ List.mem_cons_self with
      | solver known => cases known
      | binding found means =>
          exact (settled.bound _ _ found means).resolve_left (queued _) j member

/-- A construction in which nothing is left to do knows exactly what follows. -/
theorem Reached.knows_iff (reached : Reached u c) (below : c.ceilingHit = false)
    (idle : c.solver.worklist.items = []) (j : Finding Role) : c.Knows j ↔ u.Follows j :=
  ⟨reached.sound j, fun follows => follows.least (reached.closed below idle)⟩

end CallFlow.Construction
