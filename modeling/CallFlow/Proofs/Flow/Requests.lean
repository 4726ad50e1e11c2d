import Mathlib.Data.List.Sort
import CallFlow.Proofs.Flow.Cost
import CallFlow.Proofs.Flow.Propagation

/-! A solver in use. Whatever the order of the requests, what waits makes up for all that was not
passed on yet, and a call was last answered with all that its callee holds, unless the callee waits.
-/

namespace CallFlow

/-- What a solver may be asked to do. The locations of variables, of results and of fields are asked
for as they are; those of globals and of shared variables are asked for by their names. -/
inductive Request where
  | name (n : String)
  | object (o : AbstractObject)
  | location (l : Location)
  | global (n : String)
  | lexical (definer : FunctionId) (n : String)
  | addFact (k object : Nat)
  | addEdge (src dst : Nat)
  | addConstraint (k : Nat) (c : Constraint)
  /-- The next item of the worklist has its turn. -/
  | work
deriving DecidableEq

/-- The turns that were taken, the first one first, with the calls that each of them answered. -/
abbrev TurnLog := List (WorkItem × List (PendingCall × IdSet))

namespace Solver

def serve (s : Solver) : Request → TurnLog × Solver
  | .name n => ([], (s.name n).2)
  | .object o => ([], (s.object o).2)
  | .location l => ([], (s.location l).2)
  | .global n => ([], (s.global n).2)
  | .lexical definer n => ([], (s.lexical definer n).2)
  | .addFact k object => ([], (s.addFact k object).2)
  | .addEdge src dst => ([], (s.addEdge src dst).2)
  | .addConstraint k c => ([], (s.addConstraint k c).2)
  | .work => s.drainWithin 1

def serveAll (s : Solver) : List Request → TurnLog × Solver
  | [] => ([], s)
  | q :: qs =>
    let first := s.serve q
    let rest := first.2.serveAll qs
    (first.1 ++ rest.1, rest.2)

/-- Whether all numbers of a request were handed out. Nodes stand for themselves. -/
def allows (s : Solver) : Request → Bool
  | .location l => ((s.tables some).placeOf? l).isSome
  | .addFact k object => (s.locations.value? k).isSome && (s.objects.value? object).isSome
  | .addEdge src dst => (s.locations.value? src).isSome && (s.locations.value? dst).isSome
  | .addConstraint k c => (s.locations.value? k).isSome && ((s.tables some).demand? c).isSome
  | .name _ | .object _ | .global _ | .lexical _ _ | .work => true

/-- Whether all numbers of each request were handed out when its turn comes. -/
def allowsAll (s : Solver) : List Request → Bool
  | [] => true
  | q :: qs => s.allows q && (s.serve q).2.allowsAll qs

end Solver

namespace Request

def numbered (t : Tables Nat) : Request → List (Finding Nat)
  | name n => [.name n]
  | object o => [.object o]
  | location l => (t.placeOf? l).toList.map .place
  | global n => [.name n, .place (.global n)]
  | lexical definer n => [.name n, .place (.lexical definer n)]
  | addFact _ _ | addEdge _ _ | addConstraint _ _ | work => []

/-- The fact, the edge or the constraint that is added. -/
def addition? (t : Tables Nat) : Request → Option (Finding Nat)
  | addFact k i => (t.place? k).bind fun p => (t.objects.value? i).map (.holds p)
  | addEdge src dst => (t.place? src).bind fun p => (t.place? dst).map (.flows p)
  | addConstraint k c => (t.place? k).bind fun p => (t.demand? c).map (.attached p)
  | name _ | object _ | location _ | global _ | lexical _ _ | work => none

theorem addition?_of_extends {t u : Tables Nat} (extended : t.Extends u) {q : Request}
    {j : Finding Nat} (here : q.addition? t = some j) : q.addition? u = some j := by
  cases q with
  | addFact k i =>
      obtain ⟨p, place, here⟩ := Option.bind_eq_some_iff.mp here
      obtain ⟨o, object, rfl⟩ := Option.map_eq_some_iff.mp here
      simp [addition?, extended.place? place, extended.objects i o object]
  | addEdge a b =>
      obtain ⟨p, place, here⟩ := Option.bind_eq_some_iff.mp here
      obtain ⟨p', place', rfl⟩ := Option.map_eq_some_iff.mp here
      simp [addition?, extended.place? place, extended.place? place']
  | addConstraint k c =>
      obtain ⟨p, place, here⟩ := Option.bind_eq_some_iff.mp here
      obtain ⟨d, meant, rfl⟩ := Option.map_eq_some_iff.mp here
      simp [addition?, extended.place? place, extended.demand? meant]
  | _ => cases here

/-- Whether a fact, an edge or a constraint is added. -/
def adds : Request → Bool
  | addFact _ _ | addEdge _ _ | addConstraint _ _ => true
  | name _ | object _ | location _ | global _ | lexical _ _ | work => false

def findings (t : Tables Nat) (q : Request) : List (Finding Nat) :=
  q.numbered t ++ (q.addition? t).toList

end Request

/-- The sets that were handed back for a call when a location had its turn, the last one last. -/
def handed (k : Nat) (call : PendingCall) (log : TurnLog) : List IdSet :=
  log.flatMap fun turn =>
    if turn.1 = .propagate k then (turn.2.filter fun x => x.1 = call).map (·.2) else []

def lastHanded (k : Nat) (call : PendingCall) (log : TurnLog) : Option IdSet :=
  (handed k call log).getLast?

section Handed

variable {k j : Nat} {call : PendingCall} {log : TurnLog} {calls : List (PendingCall × IdSet)}

theorem lastHanded_of_ne (other : j ≠ k) :
    lastHanded k call (log ++ [(.propagate j, calls)]) = lastHanded k call log := by
  simp [lastHanded, handed, other]

/-- A turn that answers a call with one set only hands back this set. -/
theorem lastHanded_turn {facts : IdSet} (answered : (call, facts) ∈ calls)
    (same : ∀ other, (call, other) ∈ calls → other = facts) :
    lastHanded k call (log ++ [(.propagate k, calls)]) = some facts := by
  have all : ∀ x ∈ (calls.filter fun x => x.1 = call).map (·.2), x = facts := by
    intro x member
    obtain ⟨⟨call', other⟩, kept, rfl⟩ := List.mem_map.mp member
    obtain ⟨found, is⟩ := List.mem_filter.mp kept
    obtain rfl : call' = call := by simpa using is
    exact same other found
  have member : facts ∈ (calls.filter fun x => x.1 = call).map (·.2) :=
    List.mem_map.mpr ⟨(call, facts), List.mem_filter.mpr ⟨answered, by simp⟩, rfl⟩
  have own : handed k call [(.propagate k, calls)] =
      (calls.filter fun x => x.1 = call).map (·.2) := by
    simp [handed]
  have split : handed k call (log ++ [(.propagate k, calls)]) =
      handed k call log ++ (calls.filter fun x => x.1 = call).map (·.2) := by
    rw [← own, handed, List.flatMap_append]
    rfl
  rw [lastHanded, split, List.getLast?_append_of_ne_nil _ (List.ne_nil_of_mem member)]
  rw [List.getLast?_eq_getLast_of_ne_nil (List.ne_nil_of_mem member)]
  exact congrArg some (all _ (List.getLast_mem _))

end Handed

namespace Solver

variable {s t u : Solver} {log : TurnLog} {js ks : List (Finding Nat)}

/-- All that a call asks about was handed back with its last answer, unless its callee waits. -/
def Answered (s : Solver) (log : TurnLog) : Prop :=
  ∀ k call, .invoke call ∈ s.constraints k → s.members k ≠ [] →
    s.Waits k ∨ lastHanded k call log = some (s.facts k)

/-- What is true of a solver in use and of the turns that were taken, at any time. -/
structure Orderly (s : Solver) (log : TurnLog) : Prop where
  valid : s.Valid some
  keys : ∀ item ∈ s.worklist.items, item.key? ≠ none
  settled : s.Settled some (s.Waiting some)
  counted : s.Counted
  answered : s.Answered log

/-- The second solver is what the first one becomes when findings are added and locations take their
turns. -/
structure Serves (s t : Solver) (js : List (Finding Nat)) : Prop where
  reflection : t.reflection = s.reflection
  tables : (s.tables some).Extends (t.tables some)
  kept : ∀ j, s.Knows some j → t.Knows some j
  known : ∀ j ∈ js, t.Knows some j
  sound : ∀ D, Flowing s.reflection D → (∀ j, s.Knows some j → D j) → (∀ j ∈ js, D j) →
    ∀ j, t.Knows some j → D j

theorem Serves.refl (s : Solver) : Serves s s [] :=
  ⟨rfl, .refl _, fun _ known => known, by simp, fun _ _ before _ => before⟩

theorem Serves.trans (first : Serves s t js) (second : Serves t u ks) : Serves s u (js ++ ks) where
  reflection := second.reflection.trans first.reflection
  tables := first.tables.trans second.tables
  kept j known := second.kept j (first.kept j known)
  known j member := by
    rcases List.mem_append.mp member with member | member
    · exact second.kept j (first.known j member)
    · exact second.known j member
  sound D flowing before all := by
    refine second.sound D (first.reflection ▸ flowing) ?_ fun j member =>
      all j (List.mem_append_right _ member)
    exact first.sound D flowing before fun j member => all j (List.mem_append_left _ member)

theorem nodesDistinct (s : Solver) : (s.tables some).NodesDistinct := fun _ _ _ here there =>
  Option.some.inj (here.trans there.symm)

theorem Enacts.serves (enacted : Enacts some s t js) : Serves s t js where
  reflection := enacted.grows.reflection
  tables := enacted.grows.tables some
  kept _ known := known.mono enacted.grows
  known := enacted.known
  sound D flowing := enacted.sound D flowing.toPassing

/-- A location that does not wait after growth holds what it held. -/
theorem Grows.facts_eq (grown : s.Grows t) (before : s.Valid some) (after : t.Valid some) {k : Nat}
    (calm : ¬ t.Waits k) : t.facts k = s.facts k := by
  have same : ∀ i, i ∈ (t.facts k).toList ↔ i ∈ (s.facts k).toList := fun i =>
    ⟨fun held => (grown.gained k i held).resolve_right calm, grown.members k i⟩
  have lists := (after.ascending k).eq_of_mem_iff (before.ascending k) same
  generalize t.facts k = a at lists
  generalize s.facts k = b at lists
  cases a
  cases b
  exact congrArg IdSet.mk (Array.toList_inj.mp lists)

theorem Answered.grow (answered : s.Answered log) (before : s.Valid some) (after : t.Valid some)
    (grown : s.Grows t) : t.Answered log := by
  intro k call imposed some
  by_cases waits : t.Waits k
  · exact .inl waits
  · -- it holds what it held, so the last answer is as good as it was
    have facts := grown.facts_eq before after waits
    have old := ((grown.imposed k _ imposed).resolve_right fun other => other.elim waits some)
    have members : t.members k = s.members k := congrArg IdSet.toList facts
    rw [facts]
    exact (answered k call old (members ▸ some)).imp_left grown.waits

/-- Whatever is added leaves a solver in order. -/
theorem Orderly.enacts (orderly : s.Orderly log) (enacted : Enacts some s t js) :
    t.Orderly log where
  valid := enacted.valid
  keys item waits other :=
    orderly.keys item (enacted.builds.queues.mem_of_mem other waits) other
  settled := orderly.settled.grow orderly.valid enacted.grows t.nodesDistinct
    (fun _ => enacted.grows.waiting) fun _ => id
  counted := (enacted.builds.accounts orderly.valid.ascending).counted orderly.counted
  answered := orderly.answered.grow orderly.valid enacted.valid enacted.grows

theorem Valid.place_of_handed (valid : s.Valid some) {k : Nat}
    (handed : (s.locations.value? k).isSome = true) : ∃ p, (s.tables some).place? k = some p := by
  obtain ⟨l, known⟩ := Option.isSome_iff_exists.mp handed
  exact valid.place (valid.size ▸ Numbering.lt_size_of_value? known)

/-- A request that is allowed enacts all that it asks for, a turn aside. -/
theorem enacts_serve (valid : s.Valid some) {q : Request} (allowed : s.allows q = true)
    (adds : q ≠ .work) :
    (s.serve q).1 = [] ∧ Enacts some s (s.serve q).2 (q.findings (s.tables some)) := by
  cases q with
  | work => exact absurd rfl adds
  | name n => exact ⟨rfl, enacts_name valid n⟩
  | object o => exact ⟨rfl, enacts_object valid o⟩
  | location l =>
      obtain ⟨p, meant⟩ := Option.isSome_iff_exists.mp allowed
      have enacted := enacts_location valid meant
      exact ⟨rfl, by simpa [Request.findings, Request.numbered, Request.addition?, meant]⟩
  | global n =>
      have named := enacts_name valid n
      have meant : ((s.name n).2.tables some).placeOf? (.global (s.name n).1) =
          some (.global n) := by
        simp [Tables.placeOf?, tables, value?_name]
      exact ⟨rfl, named.trans (enacts_location named.valid meant)⟩
  | lexical definer n =>
      have named := enacts_name valid n
      have meant : ((s.name n).2.tables some).placeOf? (.lexical definer (s.name n).1) =
          some (.lexical definer n) := by
        simp [Tables.placeOf?, tables, value?_name]
      exact ⟨rfl, named.trans (enacts_location named.valid meant)⟩
  | addFact k i =>
      obtain ⟨handed, object⟩ := Bool.and_eq_true_iff.mp allowed
      obtain ⟨p, here⟩ := valid.place_of_handed handed
      obtain ⟨o, known⟩ := Option.isSome_iff_exists.mp object
      have meant : (s.tables some).objects.value? i = some o := known
      have enacted := enacts_addFact valid here known
      exact ⟨rfl, by simpa [Request.findings, Request.numbered, Request.addition?, here, meant]⟩
  | addEdge a b =>
      obtain ⟨src, dst⟩ := Bool.and_eq_true_iff.mp allowed
      obtain ⟨p, here⟩ := valid.place_of_handed src
      obtain ⟨q, there⟩ := valid.place_of_handed dst
      have enacted := enacts_addEdge valid here there
      exact ⟨rfl, by simpa [Request.findings, Request.numbered, Request.addition?, here, there]⟩
  | addConstraint k c =>
      obtain ⟨handed, means⟩ := Bool.and_eq_true_iff.mp allowed
      obtain ⟨p, here⟩ := valid.place_of_handed handed
      obtain ⟨d, meant⟩ := Option.isSome_iff_exists.mp means
      have enacted := enacts_addConstraint valid here meant
      exact ⟨rfl, by simpa [Request.findings, Request.numbered, Request.addition?, here, meant]⟩

theorem addition?_of_allows (valid : s.Valid some) {q : Request} (allowed : s.allows q = true)
    (adds : q.adds = true) : ∃ j, q.addition? (s.tables some) = some j := by
  cases q with
  | addFact k i =>
      obtain ⟨handed, object⟩ := Bool.and_eq_true_iff.mp allowed
      obtain ⟨p, here⟩ := valid.place_of_handed handed
      obtain ⟨o, known⟩ := Option.isSome_iff_exists.mp object
      have meant : (s.tables some).objects.value? i = some o := known
      exact ⟨.holds p o, by simp [Request.addition?, here, meant]⟩
  | addEdge a b =>
      obtain ⟨src, dst⟩ := Bool.and_eq_true_iff.mp allowed
      obtain ⟨p, here⟩ := valid.place_of_handed src
      obtain ⟨q, there⟩ := valid.place_of_handed dst
      exact ⟨.flows p q, by simp [Request.addition?, here, there]⟩
  | addConstraint k c =>
      obtain ⟨handed, means⟩ := Bool.and_eq_true_iff.mp allowed
      obtain ⟨p, here⟩ := valid.place_of_handed handed
      obtain ⟨d, meant⟩ := Option.isSome_iff_exists.mp means
      exact ⟨.attached p d, by simp [Request.addition?, here, meant]⟩
  | _ => cases adds

/-- What an allowed request asks for is the same whatever is numbered later. -/
theorem findings_of_extends (valid : s.Valid some) {q : Request} (allowed : s.allows q = true)
    {later : Tables Nat} (extended : (s.tables some).Extends later) :
    q.findings later = q.findings (s.tables some) := by
  have added : q.adds = true → q.addition? later = q.addition? (s.tables some) := by
    intro adds
    obtain ⟨j, here⟩ := addition?_of_allows valid allowed adds
    rw [here, Request.addition?_of_extends extended here]
  cases q with
  | location l =>
      obtain ⟨p, meant⟩ := Option.isSome_iff_exists.mp allowed
      simp [Request.findings, Request.numbered, Request.addition?, meant, extended.placeOf? meant]
  | addFact k i => rw [Request.findings, added rfl]; rfl
  | addEdge a b => rw [Request.findings, added rfl]; rfl
  | addConstraint k c => rw [Request.findings, added rfl]; rfl
  | _ => rfl

def withWork (s : Solver) (rest : Worklist) : Solver := { s with worklist := rest }

def turn (s : Solver) (k : Nat) (rest : Worklist) : Solver := ((s.withWork rest).propagate k).2

/-- An item that is no location is dropped, and a location has its turn, if anything waits. -/
theorem serve_work_cases (s : Solver) :
    s.worklist.items = [] ∧ s.serve .work = ([], s) ∨
      (∃ item rest, s.worklist.Takes item rest ∧ item.key? = none ∧
        s.serve .work = ([(item, [])], s.withWork rest)) ∨
      ∃ k rest, s.worklist.Takes (.propagate k) rest ∧
        s.serve .work = ([(.propagate k, ((s.withWork rest).propagate k).1)], s.turn k rest) := by
  unfold serve drainWithin
  cases next : s.next? with
  | none =>
      have popped : s.worklist.pop = none := by simpa [next?] using next
      exact .inl ⟨(Worklist.pop_eq_none_iff _).mp popped, rfl⟩
  | some found =>
      obtain ⟨item, t⟩ := found
      obtain ⟨rest, popped, rfl⟩ := next?_eq_some next
      have takes := Worklist.takes_of_pop popped
      cases item with
      | propagate k => exact .inr (.inr ⟨k, rest, takes, rfl⟩)
      | visit node => exact .inr (.inl ⟨_, rest, takes, rfl, rfl⟩)
      | target b => exact .inr (.inl ⟨_, rest, takes, rfl, rfl⟩)

/-- A turn is that of a location that waits, or there is none. -/
theorem serve_work (keys : ∀ item ∈ s.worklist.items, item.key? ≠ none) :
    s.worklist.items = [] ∧ s.serve .work = ([], s) ∨
      ∃ k rest, s.worklist.Takes (.propagate k) rest ∧
        s.serve .work = ([(.propagate k, ((s.withWork rest).propagate k).1)], s.turn k rest) := by
  refine s.serve_work_cases.imp_right fun taken => taken.resolve_left ?_
  rintro ⟨item, rest, takes, other, -⟩
  exact keys item ((takes.mem_iff item).mpr (.inl rfl)) other

section Turn

variable {k : Nat} {rest : Worklist}

/-- What waited waits still, but for the location that has its turn. -/
theorem Settled.withWork {p : Place Nat} (settled : s.Settled some (s.Waiting some))
    (takes : s.worklist.Takes (.propagate k) rest) (here : (s.tables some).place? k = some p) :
    (s.withWork rest).Settled some fun q => q = p ∨ (s.withWork rest).Waiting some q := by
  refine Settled.worklist (settled.mono ?_) fun item waits => (takes.mem_iff item).mpr (.inr waits)
  rintro q ⟨l, there, waits⟩
  rcases (takes.mem_iff _).mp waits with same | waits
  · cases same
    exact .inl (Option.some.inj (there.symm.trans here))
  · exact .inr ⟨l, there, waits⟩

/-- A turn answers all calls whose callee the location is. -/
theorem Answered.turn (answered : s.Answered log) (takes : s.worklist.Takes (.propagate k) rest)
    (before : (s.withWork rest).Valid some) (after : (s.turn k rest).Valid some)
    (grown : (s.withWork rest).Grows (s.turn k rest)) :
    (s.turn k rest).Answered (log ++ [(.propagate k, ((s.withWork rest).propagate k).1)]) := by
  intro j call imposed some
  by_cases waits : (s.turn k rest).Waits j
  · exact .inl waits
  · have facts : (s.turn k rest).facts j = s.facts j := grown.facts_eq before after waits
    have members : (s.turn k rest).members j = s.members j := congrArg IdSet.toList facts
    have old : .invoke call ∈ s.constraints j :=
      (grown.imposed j _ imposed).resolve_right fun other => other.elim waits some
    rw [members] at some
    rw [facts]
    by_cases own : k = j
    · subst own
      exact .inr (lastHanded_turn (mem_calls_propagate (s := s.withWork rest) some old)
        fun other found => (mem_calls_of_propagate found).1)
    · -- what waits besides the location that has its turn waits afterwards too
      rw [lastHanded_of_ne own]
      refine .inr ((answered j call old some).resolve_left fun waited => waits (grown.waits ?_))
      refine ((takes.mem_iff _).mp waited).resolve_left fun same => own ?_
      cases same
      rfl

/-- What a turn does to a solver whose item was taken off. -/
theorem Orderly.enacts_turn (orderly : s.Orderly log)
    (takes : s.worklist.Takes (.propagate k) rest) :
    (s.withWork rest).Valid some ∧ ∃ p js, (s.tables some).place? k = some p ∧
      (∃ o, s.Holds some p o) ∧ Enacts some (s.withWork rest) (s.turn k rest) js ∧
      ∀ D, Flowing s.reflection D → (∀ j, s.Knows some j → D j) → ∀ j ∈ js, D j := by
  have valid : (s.withWork rest).Valid some :=
    orderly.valid.worklist (takes.coherent orderly.valid.coherent)
  have waits : s.Waits k := (takes.mem_iff _).mpr (.inl rfl)
  obtain ⟨p, here, held⟩ := orderly.valid.exists_holds (orderly.settled.waits k waits)
  obtain ⟨js, enacted, follows, -⟩ := enacts_propagate valid (s.withWork rest).nodesDistinct here
  refine ⟨valid, p, js, here, held, enacted, fun D flowing before => ?_⟩
  exact follows D flowing fun j known => before j (knows_worklist.mp known)

/-- A turn adds only what follows, and leaves a solver in order. -/
theorem Orderly.turn (orderly : s.Orderly log) (takes : s.worklist.Takes (.propagate k) rest) :
    Serves s (s.turn k rest) [] ∧
      (s.turn k rest).Orderly (log ++ [(.propagate k, ((s.withWork rest).propagate k).1)]) := by
  obtain ⟨valid, p, js, here, ⟨o, held⟩, enacted, follows⟩ := orderly.enacts_turn takes
  have grown := enacted.grows
  refine ⟨⟨grown.reflection, grown.tables some, ?_, by simp, ?_⟩, ⟨enacted.valid, ?_, ?_, ?_, ?_⟩⟩
  · exact fun j known => (knows_worklist.mpr known).mono grown
  · intro D flowing before _
    exact enacted.sound D flowing.toPassing (fun j known => before j (knows_worklist.mp known))
      (follows D flowing before)
  · intro item waits other
    refine orderly.keys item ((takes.mem_iff item).mpr (.inr ?_)) other
    exact enacted.builds.queues.mem_of_mem other waits
  · exact Settled.propagate valid (s.withWork rest).nodesDistinct here ⟨o, knows_worklist.mpr held⟩
      (orderly.settled.withWork takes here)
  · exact (enacted.builds.accounts valid.ascending).counted
      ⟨orderly.counted.facts, orderly.counted.constraints⟩
  · exact orderly.answered.turn takes valid enacted.valid grown

end Turn

/-- A request that is allowed adds what it asks for, and leaves a solver in order. -/
theorem Orderly.serve {q : Request} (orderly : s.Orderly log) (allowed : s.allows q = true) :
    Serves s (s.serve q).2 (q.findings (s.tables some)) ∧
      (s.serve q).2.Orderly (log ++ (s.serve q).1) := by
  by_cases work : q = .work
  · subst work
    have nothing : ∀ t : Tables Nat, Request.work.findings t = [] := fun _ => rfl
    rw [nothing]
    rcases serve_work orderly.keys with ⟨-, same⟩ | ⟨k, rest, takes, same⟩
    · rw [same, List.append_nil]
      exact ⟨.refl s, orderly⟩
    · rw [same]
      exact orderly.turn takes
  · obtain ⟨silent, enacted⟩ := enacts_serve orderly.valid allowed work
    rw [silent, List.append_nil]
    exact ⟨enacted.serves, orderly.enacts enacted⟩

/-- Requests that are allowed add what they ask for, and leave a solver in order. What they ask for
may be read off any later tables. -/
theorem Orderly.serveAll {qs : List Request} (orderly : s.Orderly log)
    (allowed : s.allowsAll qs = true) {later : Tables Nat}
    (extended : ((s.serveAll qs).2.tables some).Extends later) :
    Serves s (s.serveAll qs).2 (qs.flatMap (Request.findings later)) ∧
      (s.serveAll qs).2.Orderly (log ++ (s.serveAll qs).1) := by
  induction qs generalizing s log with
  | nil => exact ⟨.refl s, by simpa [Solver.serveAll] using orderly⟩
  | cons q qs ih =>
      obtain ⟨own, others⟩ := Bool.and_eq_true_iff.mp allowed
      obtain ⟨first, between⟩ := orderly.serve own
      obtain ⟨rest, after⟩ := ih between others extended
      have same := findings_of_extends orderly.valid own
        ((first.tables.trans rest.tables).trans extended)
      refine ⟨?_, by rwa [List.append_assoc] at after⟩
      -- what the first request asks for was numbered before it, and the others only number more
      rw [List.flatMap_cons, same]
      exact first.trans rest

theorem Orderly.addition? {qs : List Request} (orderly : s.Orderly log)
    (allowed : s.allowsAll qs = true) {later : Tables Nat}
    (extended : ((s.serveAll qs).2.tables some).Extends later) {q : Request} (asked : q ∈ qs)
    (adds : q.adds = true) : ∃ j, q.addition? later = some j := by
  induction qs generalizing s log with
  | nil => cases asked
  | cons first qs ih =>
      have whole := (orderly.serveAll allowed (.refl _)).1.tables.trans extended
      obtain ⟨own, others⟩ := Bool.and_eq_true_iff.mp allowed
      rcases List.mem_cons.mp asked with rfl | asked
      · obtain ⟨j, here⟩ := addition?_of_allows orderly.valid own adds
        exact ⟨j, Request.addition?_of_extends whole here⟩
      · exact ih (orderly.serve own).2 others extended asked

theorem orderly_new (r : Reflection) : (new r).Orderly [] where
  valid := valid_new r some
  keys item waits := by cases waits
  settled := settled_new r some _
  counted := ⟨rfl, rfl⟩
  answered k call imposed := by
    rw [constraints_new] at imposed
    cases imposed

end Solver

end CallFlow
