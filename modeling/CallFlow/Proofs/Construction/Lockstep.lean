import CallFlow.Proofs.Construction.Evolution

/-! Constructions with a ceiling beside those without. They are the same until a node is refused;
from then on the one gets no node, and the other keeps those that both have. -/

namespace CallFlow

def Setup.capped (u : Setup) (ceiling : Option UInt64) : Setup := { u with maxNodes := ceiling }

namespace Construction

/-- A construction was refused a node that another one has; the nodes that it has are the first ones
of the other. -/
structure Short (limit : UInt64) (b w : Construction) : Prop where
  refused : b.ceilingHit = true
  full : b.graph.nodeCount = limit.toNat
  before : b.graph.methods.Extends w.graph.methods
  more : limit.toNat < w.graph.nodeCount

/-- A construction with a ceiling goes along with one without: they are the same, or the first one
was refused a node. -/
inductive Tracks (limit : UInt64) : Construction → Construction → Prop
  | same {c} : c.graph.nodeCount ≤ limit.toNat → Tracks limit c c
  | short {b w} : Short limit b w → Tracks limit b w

variable {u v : Setup} {limit : UInt64} {b b' c d w w' : Construction}

/-- After a refusal the nodes are settled, whatever else is done. -/
theorem Short.evolve (short : Short limit b w) (bounded : b.Evolves (u.capped (some limit)) b')
    (whole : w.Evolves v w') : Short limit b' w' where
  refused := bounded.refused short.refused
  full := by
    have least := bounded.graph.nodeCount_le
    have most := bounded.graph.bounded rfl (Nat.le_of_eq short.full)
    have full := short.full
    omega
  before i n here := by
    -- there is no room for a node that was not there at the refusal
    have most := bounded.graph.bounded rfl (Nat.le_of_eq short.full)
    have bound := Nat.lt_of_lt_of_le (Numbering.lt_size_of_value? here) most
    rw [← short.full] at bound
    have old : b.graph.methods.value? i = some n := roles_of_lt bounded.graph.extends bound here
    exact whole.graph.extends i n (short.before i n old)
  more := Nat.lt_of_lt_of_le short.more whole.graph.nodeCount_le

theorem Tracks.of_eq (within : c.graph.nodeCount ≤ limit.toNat)
    (bounded : c.Evolves (u.capped (some limit)) b) (same : b = w) : Tracks limit b w := by
  subst same
  exact .same (bounded.graph.bounded rfl within)

theorem Tracks.foldl {α : Type} {f g : Construction → α → Construction} {P : Construction → Prop}
    (stable : ∀ (v : Setup) (c d : Construction), c.Evolves v d → P c → P d)
    (bounded : ∀ c, P c → ∀ x, c.Evolves (u.capped (some limit)) (f c x))
    (whole : ∀ c, P c → ∀ x, c.Evolves (u.capped none) (g c x))
    (each : ∀ c, P c → c.graph.nodeCount ≤ limit.toNat → ∀ x, Tracks limit (f c x) (g c x))
    (xs : List α) (tracks : Tracks limit b w) (here : P b) (there : P w) :
    Tracks limit (xs.foldl f b) (xs.foldl g w) := by
  induction xs generalizing b w with
  | nil => exact tracks
  | cons x xs ih =>
      refine ih ?_ (stable _ _ _ (bounded b here x) here) (stable _ _ _ (whole w there x) there)
      cases tracks with
      | same within => exact each b here within x
      | short short => exact .short (short.evolve (bounded b here x) (whole w there x))

section Parts

variable (within : c.graph.nodeCount ≤ limit.toNat)

include within

/-- A call runs the same node in both, or the one with a ceiling is refused a node. -/
theorem connect_capped {id : Nat} (bound : id < c.graph.nodeCount) (site : CallSite) (m : Method)
    (ctx : Context) :
    c.connect (u.capped (some limit)) id site m ctx = c.connect (u.capped none) id site m ctx ∨
      Short limit (c.connect (u.capped (some limit)) id site m ctx).2
        (c.connect (u.capped none) id site m ctx).2 := by
  have whole := evolves_connect (u := u.capped none) bound site m ctx
  cases found : c.graph.find? m ctx with
  | some k =>
      left
      rw [connect_of_some (nodeFor_of_known found), connect_of_some (nodeFor_of_known found)]
  | none =>
      have free : c.isFull (u.capped none) = false := rfl
      cases full : c.isFull (u.capped (some limit)) with
      | false =>
          left
          rw [connect, connect, nodeFor, nodeFor, found, full, free]
      | true =>
          right
          -- the nodes are at the ceiling, so that the one with no room falls one node behind
          have most : limit.toNat ≤ c.graph.nodeCount := by simpa [isFull, Setup.capped] using full
          obtain ⟨t, node⟩ := nodeFor_of_new found free
          have grown := CallGraph.nodeCount_joined found id site
          rw [connect_of_some node] at whole ⊢
          rw [connect_of_none (nodeFor_of_full found full)]
          refine ⟨rfl, Nat.le_antisymm within most, whole.graph.extends, ?_⟩
          have more :
              limit.toNat < (CallGraph.joined id site (c.graph.addNode m ctx)).nodeCount := by
            omega
          exact more

theorem tracks_connect {id : Nat} (bound : id < c.graph.nodeCount) (site : CallSite) (m : Method)
    (ctx : Context) :
    Tracks limit (c.connect (u.capped (some limit)) id site m ctx).2
      (c.connect (u.capped none) id site m ctx).2 := by
  rcases connect_capped (u := u) within bound site m ctx with same | short
  · exact .of_eq within (evolves_connect bound site m ctx) (congrArg Prod.snd same)
  · exact .short short

theorem tracks_addEntry (root : CallGraph.fakeRoot < c.graph.nodeCount) (e : FunctionId × Nat) :
    Tracks limit (c.addEntry (u.capped (some limit)) e) (c.addEntry (u.capped none) e) := by
  have site := evolves_addSite (u := u.capped (some limit)) root ⟨e.2, .call⟩
  rw [addEntry, addEntry]
  exact tracks_connect (site.graph.bounded rfl within) (site.lt_nodeCount root) _ _ _

theorem tracks_dispatchFunction (call : PendingCall) (code : Invocation) (f : FunctionId)
    (object : Nat) :
    Tracks limit (c.dispatchFunction (u.capped (some limit)) call code f object)
      (c.dispatchFunction (u.capped none) call code f object) := by
  have evolves := evolves_dispatchFunction (u := u.capped (some limit)) call code f object c
  cases here : c.graph.node? call.caller with
  | none =>
      rw [dispatchFunction_of_none here, dispatchFunction_of_none here]
      exact .same within
  | some caller =>
      rw [dispatchFunction_eq here] at evolves ⊢
      rw [dispatchFunction_eq here]
      rcases connect_capped (u := u) within (CallGraph.lt_of_node? here) ⟨call.pc, code.kind⟩
        (.function f) (u.algorithm.contextOf caller.method ⟨call.pc, code.kind⟩ call.dispatch) with
        same | short
      · exact .of_eq within evolves (congrArg (noteBinding call object) same)
      · have bounded := evolves_noteBinding (u := u.capped (some limit)) call object
        have whole := evolves_noteBinding (u := u) call object
        exact .short (short.evolve (bounded _) (whole _))

theorem tracks_dispatchTarget {call : PendingCall} (bound : call.caller < c.graph.nodeCount)
    (code : Invocation) (target : DispatchTarget) :
    Tracks limit (dispatchTarget (u.capped (some limit)) call code c target)
      (dispatchTarget (u.capped none) call code c target) := by
  cases target with
  | function f object => exact tracks_dispatchFunction within call code f object
  | builtin builtin =>
      rw [dispatchTarget, dispatchTarget]
      exact tracks_connect within bound _ _ _
  | reflective d =>
      exact .of_eq within (evolves_dispatchReceiver (u := u.capped (some limit)) call code d c) rfl

theorem tracks_dispatch (found : PendingCall × IdSet) :
    Tracks limit (c.dispatch (u.capped (some limit)) found) (c.dispatch (u.capped none) found) := by
  have same : c.call? (u.capped (some limit)) = c.call? (u.capped none) := rfl
  unfold dispatch
  rw [same]
  cases here : c.call? (u.capped none) found.1.caller found.1.pc with
  | none => exact .same within
  | some code =>
      have bound := lt_of_call? here
      apply Tracks.foldl (u := u) (P := fun c => found.1.caller < c.graph.nodeCount)
      · exact fun v c d evolves bound => evolves.lt_nodeCount bound
      · exact fun c bound target => evolves_dispatchTarget bound code target
      · exact fun c bound target => evolves_dispatchTarget bound code target
      · exact fun c bound within target => tracks_dispatchTarget within bound code target
      · exact .same within
      · exact bound
      · exact bound

theorem tracks_propagate (k : Nat) :
    Tracks limit (c.propagate (u.capped (some limit)) k) (c.propagate (u.capped none) k) := by
  unfold propagate
  apply Tracks.foldl (u := u) (P := fun _ => True)
  · exact fun _ _ _ _ _ => trivial
  · exact fun c _ found => evolves_dispatch c found
  · exact fun c _ found => evolves_dispatch c found
  · exact fun c _ within found => tracks_dispatch within found
  · exact .same within
  · trivial
  · trivial

theorem tracks_process (item : WorkItem) :
    Tracks limit (c.process (u.capped (some limit)) item) (c.process (u.capped none) item) := by
  cases item with
  | propagate k => exact tracks_propagate within k
  | visit id => exact .of_eq within (evolves_visit (u := u.capped (some limit)) c id) rfl
  | target b => exact .of_eq within (evolves_bind (u := u.capped (some limit)) c b) rfl

end Parts

theorem advance_of_pop {item : WorkItem} {rest : Worklist} (below : c.ceilingHit = false)
    (pop : c.solver.worklist.pop = some (item, rest)) :
    c.advance u none = (none, (c.popped rest).process u item) := by
  unfold advance Solver.next?
  simp only [below, pop, Bool.false_eq_true, ↓reduceIte, Option.map_some]
  unfold popped
  rw [below]

theorem advance_of_idle {answer : Option CancelReason} (below : c.ceilingHit = false)
    (idle : c.solver.worklist.items = []) : c.advance u answer = (some .complete, c) := by
  unfold advance Solver.next?
  rw [(Worklist.pop_eq_none_iff _).mpr idle, below]
  rfl

theorem tracks_start (u : Setup) (positive : 0 < limit.toNat) :
    Tracks limit (start (u.capped (some limit))) (start (u.capped none)) := by
  apply Tracks.foldl (u := u) (P := fun c => CallGraph.fakeRoot < c.graph.nodeCount)
  · exact fun v c d evolves root => evolves.lt_nodeCount root
  · exact fun c root e => evolves_addEntry root e
  · exact fun c root e => evolves_addEntry root e
  · exact fun c root within e => tracks_addEntry within root e
  · exact .same positive
  · exact Nat.zero_lt_one
  · exact Nat.zero_lt_one

/-- A run with a ceiling beside a complete one without: it is the same, or it ends at its first
refusal. -/
theorem Tracks.runWithin {fuel : Nat} (tracks : Tracks limit b w)
    (ended : w.runWithin (u.capped none) (fun _ => none) fuel = (.complete, d)) :
    (b.runWithin (u.capped (some limit)) (fun _ => none) fuel = (.complete, d) ∧
        d.graph.nodeCount ≤ limit.toNat) ∨
      ∃ c, b.runWithin (u.capped (some limit)) (fun _ => none) fuel =
        (.cut (.nodeBudget limit), c) ∧ Short limit c d := by
  induction fuel generalizing b w with
  | zero => cases ended
  | succ fuel ih =>
      cases tracks with
      | short short =>
          -- the bounded run ends before its next item, however the other one goes on
          right
          refine ⟨b, ?_, ?_⟩
          · simp only [Construction.runWithin, advance, short.refused]
            rfl
          · have rest := evolves_runWithin (u := u.capped none) (fun _ => none) (fuel + 1) w
            rw [ended] at rest
            exact short.evolve (u := u) (.refl _ b) rest
      | same within =>
          unfold Construction.runWithin at ended ⊢
          rcases step : b.advance (u.capped none) none with ⟨_ | why, e⟩
          · obtain ⟨below, item, rest, pop, rfl⟩ := advance_eq_none step
            rw [step] at ended
            rw [advance_of_pop below pop]
            exact ih (tracks_process (c := b.popped rest) within item) ended
          · obtain ⟨rfl, idle⟩ := advance_eq_some step
            rw [step] at ended
            cases ended
            rw [advance_of_idle (idle rfl).1 (idle rfl).2]
            exact .inl ⟨rfl, within⟩

end Construction

end CallFlow
