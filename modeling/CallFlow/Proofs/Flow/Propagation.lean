import CallFlow.Proofs.Flow.Settled

/-! Passing on what a location gained. All that a turn adds follows from what was known, and
afterwards nothing is left to do for the location but what waits again. -/

namespace CallFlow.Solver

variable {ν : Type} {nodes : Nat → Option ν} {s t : Solver}

/-- Findings that are closed under passing objects and meeting demands. -/
structure Flowing (r : Reflection) (D : Finding ν → Prop) : Prop extends Passing D where
  asked : ∀ p d j, D (.attached p d) →
    d.Asks r (fun o => D (.holds p o)) (fun q o => D (.holds q o)) j → D j

theorem enacts_unionInto (valid : s.Valid nodes) {facts : IdSet} {os : List AbstractObject}
    (ascending : facts.Ascending) (handed : facts.toList.map s.objects.value? = os.map some)
    {k : Nat} {q : Place ν} (here : (s.tables nodes).place? k = some q) :
    Enacts nodes s (s.unionInto facts k) (os.map (.holds q)) := by
  have bound := valid.lt_size here
  have keeps := keeps_unionInto s facts k
  have members := fun i j => mem_members_unionInto (s := s) facts bound i j
  refine .of_keeps valid keeps (grows_unionInto facts valid.coherent bound)
    (.unionInto ascending bound .refl) ?_
    (fun a b linked => .inl (successors_unionInto facts bound a ▸ linked))
    (fun j c imposed => .inl (constraints_unionInto facts bound j ▸ imposed)) ?_
  · intro j i held
    rcases (members i j).mp held with old | ⟨rfl, new⟩
    · exact .inl old
    · obtain ⟨o, found, known⟩ := exists_of_map_eq handed new
      exact .inr ⟨q, o, here, known, .inl (List.mem_map_of_mem found)⟩
  · intro j member
    obtain ⟨o, found, rfl⟩ := List.mem_map.mp member
    obtain ⟨i, new, known⟩ := (mem_iff_of_map_eq handed o).mp found
    exact .holds (keeps.tables nodes ▸ here) (keeps.objects ▸ known)
      ((members i k).mpr (.inr ⟨rfl, new⟩))

theorem next?_eq_some {item : WorkItem} (next : s.next? = some (item, t)) :
    ∃ rest, s.worklist.pop = some (item, rest) ∧ t = { s with worklist := rest } := by
  obtain ⟨⟨first, rest⟩, pop, same⟩ := Option.map_eq_some_iff.mp next
  cases same
  exact ⟨rest, pop, rfl⟩

theorem enacts_count (valid : s.Valid nodes) (n : Nat) :
    Enacts nodes s { s with counters := { s.counters with propagations := n } } [] :=
  .of_cells valid (.of_cells rfl (.refl _) (.refl _) (.refl _) (fun _ => rfl)
    (fun _ here => here) fun _ waits => waits) (.count n .refl) (fun _ => rfl) valid.size rfl
    (fun _ here => .inl here) (fun _ here => .inl here)
    (fun _ _ here => .inl here) (by simp)

theorem Valid.places_of_successors (valid : s.Valid nodes) (k : Nat) :
    ∃ qs : List (Place ν), (s.successors k).map (s.tables nodes).place? = qs.map some := by
  have placed : ∀ b ∈ s.successors k, ∃ q, (s.tables nodes).place? b = some q := fun b linked =>
    valid.place (valid.successors k b linked).2
  exact exists_map_eq placed

theorem Valid.demands_of_constraints (valid : s.Valid nodes) (k : Nat) :
    ∃ ds : List (Demand ν), (s.constraints k).map (s.tables nodes).demand? = ds.map some :=
  exists_map_eq fun c imposed => (valid.constraints k c imposed).2

/-- The places of the successors are those that all objects are known to flow to, besides the place
itself. -/
theorem flows_iff_mem (distinct : (s.tables nodes).NodesDistinct) {k : Nat} {p : Place ν}
    (here : (s.tables nodes).place? k = some p) {qs : List (Place ν)}
    (placed : (s.successors k).map (s.tables nodes).place? = qs.map some) (q : Place ν) :
    s.Knows nodes (.flows p q) ↔ q = p ∨ q ∈ qs := by
  rw [mem_iff_of_map_eq placed]
  constructor
  · intro known
    cases known with
    | self => exact .inl rfl
    | flows again there linked =>
        obtain rfl := Tables.place?_inj distinct here again
        exact .inr ⟨_, linked, there⟩
  · rintro (rfl | ⟨b, linked, there⟩)
    · exact .self here
    · exact .flows here there linked

theorem mem_demands_iff (distinct : (s.tables nodes).NodesDistinct) {k : Nat} {p : Place ν}
    (here : (s.tables nodes).place? k = some p) {ds : List (Demand ν)}
    (meant : (s.constraints k).map (s.tables nodes).demand? = ds.map some) (d : Demand ν) :
    d ∈ ds ↔ s.Knows nodes (.attached p d) := by
  rw [mem_iff_of_map_eq meant]
  constructor
  · rintro ⟨c, imposed, stands⟩
    exact .attached here stands imposed
  · intro known
    cases known with
    | attached again stands imposed =>
        obtain rfl := Tables.place?_inj distinct here again
        exact ⟨_, imposed, stands⟩

/-- Looking at constraints one after the other enacts what follows from what is known, and
everything that they ask for at the start. -/
theorem enacts_constraints (valid : s.Valid nodes) (distinct : (s.tables nodes).NodesDistinct)
    {facts : IdSet} {os : List AbstractObject}
    (handed : facts.toList.map s.objects.value? = os.map some) {cs : List Constraint}
    {ds : List (Demand ν)} (meant : cs.map (s.tables nodes).demand? = ds.map some) :
    ∃ js, Enacts nodes s (cs.foldl (apply facts) s) js ∧
      (∀ D, Passing D → (∀ j, s.Knows nodes j → D j) →
        (∀ d ∈ ds, ∀ j, d.Asks s.reflection (· ∈ os) (fun p o => D (.holds p o)) j → D j) →
        ∀ j ∈ js, D j) ∧
      ∀ d ∈ ds, ∀ j, d.Asks s.reflection (· ∈ os) (s.Holds nodes) j → j ∈ js := by
  induction cs generalizing s ds with
  | nil =>
      obtain rfl : ds = [] := by simpa using meant.symm
      exact ⟨[], .refl valid, by simp, by simp⟩
  | cons c cs ih =>
      cases ds with
      | nil => cases meant
      | cons d ds =>
          obtain ⟨here, later⟩ := List.cons.inj meant
          obtain ⟨js, first, mem⟩ := enacts_apply valid distinct handed here
          -- the constraints are those of the start, but each is looked at in the solver that the
          -- ones before it have left behind
          have extended := first.grows.tables nodes
          obtain ⟨ks, rest, follows, all⟩ := ih first.valid distinct
            (map_eq_map_some_of_kept (fun i o => first.grows.objects i o) handed)
            (map_eq_map_some_of_kept (fun _ _ => extended.demand?) later)
          rw [first.grows.reflection] at follows all
          refine ⟨js ++ ks, first.trans rest, ?_, ?_⟩
          · intro D passing before closed j member
            have start : ∀ j ∈ js, D j := fun j member =>
              closed d List.mem_cons_self j
                (((mem j).mp member).mono (fun _ held => held) fun _ _ held => before _ held)
            rcases List.mem_append.mp member with member | member
            · exact start j member
            · exact follows D passing (first.sound D passing before start)
                (fun e later => closed e (List.mem_cons_of_mem d later)) j member
          · intro e member j asks
            rcases List.mem_cons.mp member with rfl | later
            · exact List.mem_append_left _ ((mem j).mpr asks)
            · refine List.mem_append_right _ (all e later j ?_)
              exact asks.mono (fun _ held => held) fun _ _ held => held.mono first.grows

/-- The objects of a location are passed to all of its successors. -/
theorem enacts_successors (valid : s.Valid nodes) {facts : IdSet} {os : List AbstractObject}
    (ascending : facts.Ascending) (handed : facts.toList.map s.objects.value? = os.map some)
    {bs : List Nat} {qs : List (Place ν)} (placed : bs.map (s.tables nodes).place? = qs.map some) :
    Enacts nodes s (bs.foldl (unionInto · facts ·) s)
      (qs.flatMap fun q => os.map (.holds q)) :=
  Enacts.foldl_meant (m := fun s => (s.tables nodes).place?)
    (P := fun s => facts.toList.map s.objects.value? = os.map some)
    (fun _ _ grown _ _ here => (grown.tables nodes).place? here)
    (fun _ _ grown here => map_eq_map_some_of_kept (fun i o => grown.objects i o) here)
    (fun _ valid handed _ _ here => enacts_unionInto valid ascending handed here)
    placed valid handed

/-- What one turn of a place adds follows from what was known. If the place holds anything, its
objects are passed on and its demands are met. -/
theorem enacts_propagate (valid : s.Valid nodes) (distinct : (s.tables nodes).NodesDistinct)
    {k : Nat} {p : Place ν} (here : (s.tables nodes).place? k = some p) :
    ∃ js, Enacts nodes s (s.propagate k).2 js ∧
      (∀ D, Flowing s.reflection D → (∀ j, s.Knows nodes j → D j) → ∀ j ∈ js, D j) ∧
      ((∃ o, s.Holds nodes p o) →
        (∀ q o, s.Knows nodes (.flows p q) → s.Holds nodes p o →
          (s.propagate k).2.Holds nodes q o) ∧
        ∀ d j, s.Knows nodes (.attached p d) →
          d.Asks s.reflection (s.Holds nodes p) (s.Holds nodes) j →
          (s.propagate k).2.Knows nodes j) := by
  have bound := valid.lt_size here
  have required : s.require k = s := by simp [require, bound]
  obtain ⟨os, handed⟩ := valid.objects_of_members k
  obtain ⟨qs, placed⟩ := valid.places_of_successors k
  obtain ⟨ds, meant⟩ := valid.demands_of_constraints k
  have memObjects := mem_objects_iff distinct here handed
  have memTargets := flows_iff_mem distinct here placed
  have memDemands := mem_demands_iff distinct here meant
  unfold propagate
  rw [required]
  dsimp only
  split
  · rename_i nothing
    refine ⟨[], enacts_count valid _, by simp, ?_⟩
    rintro ⟨o, held⟩
    have none : s.members k = [] := (IdSet.isEmpty_iff _).mp nothing
    rw [none] at handed
    obtain rfl : os = [] := by simpa using handed.symm
    exact absurd ((memObjects o).mpr held) List.not_mem_nil
  · have counted := enacts_count valid (s.counters.propagations + 1)
    have passed := enacts_successors counted.valid (valid.ascending k) handed placed
    have grown := counted.grows.trans passed.grows
    obtain ⟨js, looked, follows, all⟩ := enacts_constraints passed.valid distinct
      (map_eq_map_some_of_kept (fun i o => grown.objects i o) handed)
      (map_eq_map_some_of_kept (fun _ _ => (grown.tables nodes).demand?) meant)
    have whole := counted.trans (passed.trans looked)
    rw [grown.reflection] at follows all
    refine ⟨_, whole, ?_, fun _ => ⟨?_, ?_⟩⟩
    · -- what follows from what is known: the objects moved along the edges, then the demands
      intro D flowing before
      have holds : ∀ o ∈ os, D (.holds p o) := fun o member => before _ ((memObjects o).mp member)
      have moved : ∀ j ∈ qs.flatMap (fun q => os.map (.holds q)), D j := by
        intro j member
        obtain ⟨q, target, member⟩ := List.mem_flatMap.mp member
        obtain ⟨o, held, rfl⟩ := List.mem_map.mp member
        exact flowing.pass p q o (before _ ((memTargets q).mpr (.inr target))) (holds o held)
      have counted' := counted.sound D flowing.toPassing before (by simp)
      have passed' := passed.sound D flowing.toPassing counted' moved
      have met : ∀ j ∈ js, D j := by
        refine follows D flowing.toPassing passed' fun d member j asks => ?_
        exact flowing.asked p d j (before _ ((memDemands d).mp member))
          (asks.mono holds fun _ _ held => held)
      intro j member
      rcases List.mem_append.mp (List.nil_append _ ▸ member) with member | member
      · exact moved j member
      · exact met j member
    · -- an edge from the place to itself is never stored, and has nothing to pass on
      intro q o linked held
      rcases (memTargets q).mp linked with rfl | target
      · exact held.mono whole.grows
      · refine whole.known _ (List.mem_append_right _ (List.mem_append_left _ ?_))
        exact List.mem_flatMap.mpr ⟨q, target, List.mem_map_of_mem ((memObjects o).mpr held)⟩
    · intro d j attached asks
      refine looked.known j (all d ((memDemands d).mpr attached) j ?_)
      exact asks.mono (fun o held => (memObjects o).mpr held) fun _ _ held => held.mono grown

/-- A demand asks for demands that look at one place only. -/
theorem operands_of_asks {r : Reflection} {d a : Demand ν} {base : AbstractObject → Prop}
    {held : Place ν → AbstractObject → Prop} {p : Place ν}
    (asks : d.Asks r base held (.attached p a)) : a.operands p = [p] := by
  have load : ∀ {s : Slot} {dst : Place ν} {o}, .attached p a ∈ s.loadFindings r dst o →
      a.operands p = [p] := by
    intro s dst o member
    unfold Slot.loadFindings at member
    split at member
    · cases member
    · rcases List.mem_append.mp member with read | inherited
      · obtain ⟨q, -, member⟩ := List.mem_flatMap.mp read
        simp [Slot.readFindings] at member
      · split at inherited
        · simp only [List.mem_cons, reduceCtorEq, Finding.attached.injEq, List.not_mem_nil,
            or_false, false_or] at inherited
          obtain ⟨-, rfl⟩ := inherited
          rfl
        · cases inherited
  have store : ∀ {s : Slot} {src : Place ν} {o}, .attached p a ∉ s.storeFindings r src o := by
    intro s src o member
    unfold Slot.storeFindings at member
    split at member
    · cases member
    · obtain ⟨q, -, member⟩ := List.mem_flatMap.mp member
      simp [Slot.writeFindings] at member
  have key : ∀ {k : AbstractObject}, Finding.attached p a ∉ k.keyFindings r := by
    intro k member
    unfold AbstractObject.keyFindings at member
    cases slot : k.keySlot? r <;> simp [slot] at member
  cases asks with
  | load _ member => exact load member
  | store _ member => exact absurd member store
  | loadKey _ member => exact absurd member key
  | storeKey _ member => exact absurd member key
  | dynamicLoad _ _ _ member => exact load member
  | dynamicStore _ _ _ member => exact absurd member store

/-- A turn keeps demands paired: those that it attaches look at one place only. -/
theorem Twinned.propagate {k : Nat} {p : Place ν} (valid : s.Valid nodes)
    (distinct : (s.tables nodes).NodesDistinct) (here : (s.tables nodes).place? k = some p)
    (twinned : s.Twinned nodes) : (s.propagate k).2.Twinned nodes := by
  obtain ⟨js, enacted, follows, -⟩ := enacts_propagate valid distinct here
  have flowing : Flowing s.reflection fun j => ∀ q a, j = .attached q a →
      a.operands q = [q] ∨ s.Knows nodes (.attached q a) := by
    refine ⟨passing_of_attached _, ?_⟩
    rintro q d j - asks q' a rfl
    exact .inl (operands_of_asks asks)
  have before : ∀ j, s.Knows nodes j → ∀ q a, j = .attached q a →
      a.operands q = [q] ∨ s.Knows nodes (.attached q a) := by
    rintro j known q a rfl
    exact .inr known
  have all := enacted.sound _ flowing.toPassing before (follows _ flowing before)
  intro q a known q' operand
  rcases all _ known q a rfl with single | old
  · rw [single] at operand
    obtain rfl := List.mem_singleton.mp operand
    exact known
  · exact (twinned q a old q' operand).mono enacted.grows

/-- The calls that a turn asks for are those of the constraints of the location. -/
theorem mem_calls_of_propagate {k : Nat} {call : PendingCall} {facts : IdSet}
    (asked : (call, facts) ∈ (s.propagate k).1) :
    facts = s.facts k ∧ .invoke call ∈ s.constraints k := by
  unfold propagate at asked
  dsimp only at asked
  split at asked
  · cases asked
  · obtain ⟨call', member, same⟩ := List.mem_map.mp asked
    cases same
    obtain ⟨c, imposed, here⟩ := List.mem_filterMap.mp member
    cases c with
    | invoke other =>
        cases here
        exact ⟨rfl, imposed⟩
    | load p dst => cases here
    | store p src => cases here
    | dynamicLoad object key dst => cases here
    | dynamicStore object key src => cases here

theorem mem_calls_propagate {k : Nat} {call : PendingCall} (some : s.members k ≠ [])
    (imposed : .invoke call ∈ s.constraints k) : (call, s.facts k) ∈ (s.propagate k).1 := by
  unfold propagate
  dsimp only
  split
  · rename_i none
    exact absurd ((IdSet.isEmpty_iff _).mp none) some
  · exact List.mem_map.mpr ⟨call, List.mem_filterMap.mpr ⟨_, imposed, rfl⟩, rfl⟩

/-- After its turn a place that holds something is as up to date as the others. -/
theorem UpToDate.propagate {k : Nat} {p : Place ν} (valid : s.Valid nodes)
    (distinct : (s.tables nodes).NodesDistinct) (here : (s.tables nodes).place? k = some p)
    (some : ∃ o, s.Holds nodes p o) {before after : Place ν → Prop}
    (current : s.UpToDate nodes fun q => q = p ∨ before q) (wider : ∀ q, before q → after q)
    (waiting : ∀ q o, (s.propagate k).2.Waiting nodes q → (s.propagate k).2.Holds nodes q o →
      after q) : (s.propagate k).2.UpToDate nodes after := by
  obtain ⟨js, enacted, -, turn⟩ := enacts_propagate valid distinct here
  obtain ⟨passed, met⟩ := turn some
  have grown := enacted.grows
  have later : (s.propagate k).2.UpToDate nodes fun q => q = p ∨ after q :=
    current.grow valid grown distinct (fun q => Or.imp_right (wider q))
      fun q o waits held => .inr (waiting q o waits held)
  refine ⟨fun q q' o linked held => ?_, fun q d j attached watches asks => ?_⟩
  · rcases later.passed q q' o linked held with (rfl | waits) | known
    · rcases grown.holds valid held with old | waits
      · rcases grown.flows valid distinct linked with edge | waits | moved
        · exact .inr (passed q' o edge old)
        · exact .inl (waiting q o waits held)
        · exact .inr (moved o held)
      · exact .inl (waiting q o waits held)
    · exact .inl waits
    · exact .inr known
  · by_cases waits : ∃ q' ∈ d.operands q, after q'
    · exact .inl waits
    · have calm : ∀ q' ∈ d.operands q, ∀ o, (s.propagate k).2.Holds nodes q' o →
          ¬ (s.propagate k).2.Waiting nodes q' :=
        fun q' member o held here => waits ⟨q', member, waiting q' o here held⟩
      rcases later.asked q d j attached watches asks with ⟨q', member, rfl | here⟩ | known
      · -- the demand looks at the place, so it is attached there, and was met in this turn
        have asked : d.Asks s.reflection (s.Holds nodes q') (s.Holds nodes) j := by
          rw [grown.reflection] at asks
          refine (asks.of_mem member).of_operands fun p member' o held => ?_
          rw [Demand.operands_of_mem member] at member'
          exact (grown.holds valid held).resolve_right (calm p member' o held)
        obtain ⟨o, held⟩ := some
        have old := watches.of_grows valid grown distinct calm q' member o held
        exact .inr (met d j old asked)
      · exact absurd ⟨q', member, here⟩ waits
      · exact .inr known

/-- After its turn a place is as settled as the others. -/
theorem Settled.propagate {k : Nat} {p : Place ν} (valid : s.Valid nodes)
    (distinct : (s.tables nodes).NodesDistinct) (here : (s.tables nodes).place? k = some p)
    (some : ∃ o, s.Holds nodes p o)
    (settled : s.Settled nodes fun q => q = p ∨ s.Waiting nodes q) :
    (s.propagate k).2.Settled nodes ((s.propagate k).2.Waiting nodes) := by
  obtain ⟨js, enacted, -⟩ := enacts_propagate valid distinct here
  have grown := enacted.grows
  have after : (s.propagate k).2.Settled nodes
      fun q => q = p ∨ (s.propagate k).2.Waiting nodes q :=
    settled.grow valid grown distinct (fun q => Or.imp_right grown.waiting) fun q => .inr
  refine ⟨?_, after.waits⟩
  exact settled.toUpToDate.propagate valid distinct here some (fun q => grown.waiting)
    fun q _ waits _ => waits

end CallFlow.Solver
