import CallFlow.Proofs.Flow.Demand

/-! What is still to be done. Whatever is added to a solver leaves it settled but for the places
that wait: the objects of all others were passed along all edges, and all demands on them were met.
-/

namespace CallFlow

variable {ν : Type}

namespace Demand

/-- The places that a demand looks at when it is attached to a place. -/
def operands (p : Place ν) : Demand ν → List (Place ν)
  | load _ _ | store _ _ | invoke _ _ _ => [p]
  | dynamicLoad object key _ | dynamicStore object key _ => [object, key]

variable {r : Reflection} {d : Demand ν} {j : Finding ν}

theorem Asks.mono {base base' : AbstractObject → Prop}
    {held held' : Place ν → AbstractObject → Prop} (asks : d.Asks r base held j)
    (bases : ∀ o, base o → base' o) (others : ∀ p o, held p o → held' p o) :
    d.Asks r base' held' j := by
  cases asks with
  | load here asked => exact .load (bases _ here) asked
  | store here asked => exact .store (bases _ here) asked
  | loadKey key asked => exact .loadKey (others _ _ key) asked
  | storeKey key asked => exact .storeKey (others _ _ key) asked
  | dynamicLoad here key slot asked =>
      exact .dynamicLoad (others _ _ here) (others _ _ key) slot asked
  | dynamicStore here key slot asked =>
      exact .dynamicStore (others _ _ here) (others _ _ key) slot asked

/-- What a demand asks for depends on its operands only. -/
theorem Asks.of_operands {p : Place ν} {held held' : Place ν → AbstractObject → Prop}
    (asks : d.Asks r (held p) held j)
    (kept : ∀ q ∈ d.operands p, ∀ o, held q o → held' q o) : d.Asks r (held' p) held' j := by
  cases asks with
  | load here asked => exact .load (kept _ (by simp [operands]) _ here) asked
  | store here asked => exact .store (kept _ (by simp [operands]) _ here) asked
  | loadKey key asked => exact .loadKey (kept _ (by simp [operands]) _ key) asked
  | storeKey key asked => exact .storeKey (kept _ (by simp [operands]) _ key) asked
  | dynamicLoad here key slot asked =>
      exact .dynamicLoad (kept _ (by simp [operands]) _ here) (kept _ (by simp [operands]) _ key)
        slot asked
  | dynamicStore here key slot asked =>
      exact .dynamicStore (kept _ (by simp [operands]) _ here) (kept _ (by simp [operands]) _ key)
        slot asked

/-- A demand asks for nothing while none of its operands holds anything. -/
theorem Asks.operand {p : Place ν} {held : Place ν → AbstractObject → Prop}
    (asks : d.Asks r (held p) held j) : ∃ q ∈ d.operands p, ∃ o, held q o := by
  cases asks with
  | load here asked => exact ⟨_, by simp [operands], _, here⟩
  | store here asked => exact ⟨_, by simp [operands], _, here⟩
  | loadKey key asked => exact ⟨_, by simp [operands], _, key⟩
  | storeKey key asked => exact ⟨_, by simp [operands], _, key⟩
  | dynamicLoad here key slot asked => exact ⟨_, by simp [operands], _, here⟩
  | dynamicStore here key slot asked => exact ⟨_, by simp [operands], _, here⟩

theorem operands_of_mem {p q : Place ν} (member : q ∈ d.operands p) :
    d.operands q = d.operands p := by
  cases d with
  | load s dst => obtain rfl := List.mem_singleton.mp member; rfl
  | store s src => obtain rfl := List.mem_singleton.mp member; rfl
  | invoke caller pc dispatch => obtain rfl := List.mem_singleton.mp member; rfl
  | dynamicLoad object key dst => rfl
  | dynamicStore object key src => rfl

/-- A demand looks the same at all of its operands. -/
theorem Asks.of_mem {p q : Place ν} (member : q ∈ d.operands p)
    {held : Place ν → AbstractObject → Prop} (asks : d.Asks r (held p) held j) :
    d.Asks r (held q) held j := by
  cases d with
  | load s dst => obtain rfl := List.mem_singleton.mp member; exact asks
  | store s src => obtain rfl := List.mem_singleton.mp member; exact asks
  | invoke caller pc dispatch => obtain rfl := List.mem_singleton.mp member; exact asks
  | dynamicLoad object key dst =>
      cases asks with
      | loadKey key asked => exact .loadKey key asked
      | dynamicLoad here key slot asked => exact .dynamicLoad here key slot asked
  | dynamicStore object key src =>
      cases asks with
      | storeKey key asked => exact .storeKey key asked
      | dynamicStore here key slot asked => exact .dynamicStore here key slot asked

end Demand

/-- Each demand of a list that looks at two places is attached to both. -/
def Paired (js : List (Finding ν)) : Prop :=
  ∀ p a, .attached p a ∈ js → ∀ q ∈ a.operands p, .attached q a ∈ js

section Paired

variable {js ks : List (Finding ν)}

theorem Paired.of_single (single : ∀ p a, .attached p a ∈ js → a.operands p = [p]) :
    Paired js := by
  intro p a member q operand
  rw [single p a member] at operand
  obtain rfl := List.mem_singleton.mp operand
  exact member

theorem Paired.append (first : Paired js) (second : Paired ks) : Paired (js ++ ks) := by
  intro p a member q operand
  rcases List.mem_append.mp member with here | there
  · exact List.mem_append_left _ (first p a here q operand)
  · exact List.mem_append_right _ (second p a there q operand)

theorem Paired.cons {j : Finding ν} (plain : ∀ p a, j ≠ .attached p a) (rest : Paired js) :
    Paired (j :: js) := by
  intro p a member q operand
  refine List.mem_cons_of_mem j (rest p a ?_ q operand)
  exact (List.mem_cons.mp member).resolve_left fun same => plain p a same.symm

theorem Paired.flatMap {α : Type} {xs : List α} {g : α → List (Finding ν)}
    (each : ∀ x ∈ xs, Paired (g x)) : Paired (xs.flatMap g) := by
  intro p a member q operand
  obtain ⟨x, here, member⟩ := List.mem_flatMap.mp member
  exact List.mem_flatMap.mpr ⟨x, here, each x here p a member q operand⟩

end Paired

namespace Solver

variable {nodes : Nat → Option ν} {s t : Solver}

def Holds (s : Solver) (nodes : Nat → Option ν) (p : Place ν) (o : AbstractObject) : Prop :=
  s.Knows nodes (.holds p o)

/-- The place of a location that is not empty holds something. -/
theorem Valid.exists_holds (valid : s.Valid nodes) {k : Nat} (some : s.members k ≠ []) :
    ∃ p, (s.tables nodes).place? k = .some p ∧ ∃ o, s.Holds nodes p o := by
  obtain ⟨i, member⟩ := List.exists_mem_of_ne_nil _ some
  have bounds := valid.members k i member
  obtain ⟨p, here⟩ := valid.place bounds.1
  obtain ⟨o, object⟩ := (s.objects.value?_isSome_iff i).mpr bounds.2
  exact ⟨p, here, o, .holds here object member⟩

/-- A place waits for its turn. -/
def Waiting (s : Solver) (nodes : Nat → Option ν) (p : Place ν) : Prop :=
  ∃ k, (s.tables nodes).place? k = some p ∧ s.Waits k

theorem Grows.waiting (grown : s.Grows t) {p : Place ν} (waits : s.Waiting nodes p) :
    t.Waiting nodes p := by
  obtain ⟨k, here, waits⟩ := waits
  exact ⟨k, (grown.tables nodes).place? here, grown.waits waits⟩

/-- A place that gained an object waits. -/
theorem Grows.holds (grown : s.Grows t) (valid : s.Valid nodes) {p : Place ν} {o : AbstractObject}
    (held : t.Holds nodes p o) : s.Holds nodes p o ∨ t.Waiting nodes p := by
  cases held with
  | holds here known member =>
      rcases grown.gained _ _ member with before | waits
      · have bounds := valid.members _ _ before
        exact .inl (.holds (valid.place?_of_grows grown bounds.1 here)
          (Valid.object?_of_grows grown bounds.2 known) before)
      · exact .inr ⟨_, here, waits⟩

/-- A new edge has passed on what there was, or its source waits. -/
theorem Grows.flows (grown : s.Grows t) (valid : s.Valid nodes)
    (distinct : (t.tables nodes).NodesDistinct) {p q : Place ν}
    (known : t.Knows nodes (.flows p q)) :
    s.Knows nodes (.flows p q) ∨ t.Waiting nodes p ∨
      ∀ o, t.Holds nodes p o → t.Holds nodes q o := by
  cases known with
  | self here => exact .inr (.inr fun _ held => held)
  | flows here there linked =>
      rcases grown.linked _ _ linked with before | waits | passed
      · have bounds := valid.successors _ _ before
        exact .inl (.flows (valid.place?_of_grows grown bounds.1 here)
          (valid.place?_of_grows grown bounds.2 there) before)
      · exact .inr (.inl ⟨_, here, waits⟩)
      · refine .inr (.inr fun o held => ?_)
        cases held with
        | holds again handed member =>
            obtain rfl := Tables.place?_inj distinct here again
            exact .holds there handed (passed _ member)

/-- A new demand has nothing to look at where it is attached, or the place waits. -/
theorem Grows.attached (grown : s.Grows t) (valid : s.Valid nodes)
    (distinct : (t.tables nodes).NodesDistinct) {p : Place ν} {d : Demand ν}
    (known : t.Knows nodes (.attached p d)) :
    s.Knows nodes (.attached p d) ∨ t.Waiting nodes p ∨ ∀ o, ¬ t.Holds nodes p o := by
  cases known with
  | attached here meant imposed =>
      rcases grown.imposed _ _ imposed with before | waits | none
      · obtain ⟨bound, e, same⟩ := valid.constraints _ _ before
        have again := (grown.tables nodes).demand? same
        rw [meant] at again
        cases again
        exact .inl (.attached (valid.place?_of_grows grown bound here) same before)
      · exact .inr (.inl ⟨_, here, waits⟩)
      · refine .inr (.inr fun o held => ?_)
        cases held with
        | holds again handed member =>
            obtain rfl := Tables.place?_inj distinct here again
            rw [none] at member
            cases member

/-- A demand is attached to each place that holds something that it looks at. -/
def Watches (s : Solver) (nodes : Nat → Option ν) (p : Place ν) (d : Demand ν) : Prop :=
  ∀ q ∈ d.operands p, ∀ o, s.Holds nodes q o → s.Knows nodes (.attached q d)

/-- Everything is passed on and every demand is met, but for the given places. Nothing is said of a
demand that is not yet attached wherever it has something to look at. -/
structure UpToDate (s : Solver) (nodes : Nat → Option ν) (busy : Place ν → Prop) : Prop where
  passed : ∀ p q o, s.Knows nodes (.flows p q) → s.Holds nodes p o → busy p ∨ s.Holds nodes q o
  asked : ∀ p d j, s.Knows nodes (.attached p d) → s.Watches nodes p d →
    d.Asks s.reflection (s.Holds nodes p) (s.Holds nodes) j →
    (∃ q ∈ d.operands p, busy q) ∨ s.Knows nodes j

/-- Everything is up to date but for the given places, and what waits holds something. -/
structure Settled (s : Solver) (nodes : Nat → Option ν) (busy : Place ν → Prop) : Prop
    extends UpToDate s nodes busy where
  waits : ∀ k, s.Waits k → s.members k ≠ []

/-- A demand that looks at two places is attached to both. -/
def Twinned (s : Solver) (nodes : Nat → Option ν) : Prop :=
  ∀ p d, s.Knows nodes (.attached p d) → ∀ q ∈ d.operands p, s.Knows nodes (.attached q d)

/-- To pass objects along edges attaches no demands. -/
theorem passing_of_attached (P : Place ν → Demand ν → Prop) :
    Passing fun j => ∀ p d, j = .attached p d → P p d where
  self _ _ _ _ same := nomatch same
  pass _ _ _ _ _ _ _ same := nomatch same

/-- Enacting paired demands keeps those of a solver paired. -/
theorem Enacts.twinned {js : List (Finding ν)} (enacted : Enacts nodes s t js)
    (twinned : s.Twinned nodes) (paired : Paired js) : t.Twinned nodes := by
  have all : ∀ j, t.Knows nodes j → ∀ p d, j = .attached p d →
      ∀ q ∈ d.operands p, t.Knows nodes (.attached q d) := by
    refine enacted.sound _ (passing_of_attached _) ?_ ?_
    · rintro j known p d rfl q member
      exact (twinned p d known q member).mono enacted.grows
    · rintro j member p d rfl q operand
      exact enacted.known _ (paired p d member q operand)
  exact fun p d known q member => all _ known p d rfl q member

theorem Twinned.watches (twinned : s.Twinned nodes) {p : Place ν} {d : Demand ν}
    (attached : s.Knows nodes (.attached p d)) : s.Watches nodes p d :=
  fun q member _ _ => twinned p d attached q member

theorem Watches.of_mem {p q : Place ν} {d : Demand ν} (watches : s.Watches nodes p d)
    (member : q ∈ d.operands p) : s.Watches nodes q d := by
  intro q' operand
  rw [Demand.operands_of_mem member] at operand
  exact watches q' operand

/-- A demand that was attached where it has something to look at was so before, if none of these
places waits. -/
theorem Watches.of_grows {p : Place ν} {d : Demand ν} (watches : t.Watches nodes p d)
    (valid : s.Valid nodes) (grown : s.Grows t) (distinct : (t.tables nodes).NodesDistinct)
    (calm : ∀ q ∈ d.operands p, ∀ o, t.Holds nodes q o → ¬ t.Waiting nodes q) :
    s.Watches nodes p d := by
  intro q member o held
  have after : t.Holds nodes q o := held.mono grown
  rcases grown.attached valid distinct (watches q member o after) with old | waits | none
  · exact old
  · exact absurd waits (calm q member o after)
  · exact absurd after (none o)

theorem UpToDate.mono {before after : Place ν → Prop} (current : s.UpToDate nodes before)
    (wider : ∀ p, before p → after p) : s.UpToDate nodes after where
  passed p q o linked held := (current.passed p q o linked held).imp_left (wider p)
  asked p d j attached watches asks := (current.asked p d j attached watches asks).imp_left
    fun ⟨q, operand, here⟩ => ⟨q, operand, wider q here⟩

theorem Settled.mono {before after : Place ν → Prop} (settled : s.Settled nodes before)
    (wider : ∀ p, before p → after p) : s.Settled nodes after :=
  ⟨settled.toUpToDate.mono wider, settled.waits⟩

/-- Whatever is added leaves a solver up to date but for the places that wait and hold something. -/
theorem UpToDate.grow {before after : Place ν → Prop} (current : s.UpToDate nodes before)
    (valid : s.Valid nodes) (grown : s.Grows t) (distinct : (t.tables nodes).NodesDistinct)
    (wider : ∀ p, before p → after p)
    (waiting : ∀ p o, t.Waiting nodes p → t.Holds nodes p o → after p) :
    t.UpToDate nodes after where
  passed p q o linked held := by
    rcases grown.holds valid held with old | waits
    · rcases grown.flows valid distinct linked with edge | waits | passed
      · exact (current.passed p q o edge old).imp (wider p) fun here => here.mono grown
      · exact .inl (waiting p o waits held)
      · exact .inr (passed o held)
    · exact .inl (waiting p o waits held)
  asked p d j attached watches asks := by
    by_cases waits : ∃ q ∈ d.operands p, after q
    · exact .inl waits
    · -- nothing that the demand looks at has gained an object
      have calm : ∀ q ∈ d.operands p, ∀ o, t.Holds nodes q o → ¬ t.Waiting nodes q :=
        fun q member o held here => waits ⟨q, member, waiting q o here held⟩
      have asked : d.Asks s.reflection (s.Holds nodes p) (s.Holds nodes) j := by
        rw [grown.reflection] at asks
        exact asks.of_operands fun q member o held =>
          (grown.holds valid held).resolve_right (calm q member o held)
      -- so it was attached before to a place where it asks for the same
      have watched := watches.of_grows valid grown distinct calm
      obtain ⟨q, member, o, held⟩ := asked.operand
      refine (current.asked q d j (watched q member o held) (watched.of_mem member)
        (asked.of_mem member)).imp ?_ fun known => known.mono grown
      rintro ⟨q', member', here⟩
      exact ⟨q', Demand.operands_of_mem member ▸ member', wider q' here⟩

/-- Whatever is added leaves a solver settled but for the places that wait. -/
theorem Settled.grow {before after : Place ν → Prop} (settled : s.Settled nodes before)
    (valid : s.Valid nodes) (grown : s.Grows t) (distinct : (t.tables nodes).NodesDistinct)
    (wider : ∀ p, before p → after p) (waiting : ∀ p, t.Waiting nodes p → after p) :
    t.Settled nodes after where
  toUpToDate := settled.toUpToDate.grow valid grown distinct wider fun p _ waits _ =>
    waiting p waits
  waits := grown.occupied settled.waits

theorem knows_worklist_eq (s : Solver) (nodes : Nat → Option ν) (w : Worklist) :
    Knows { s with worklist := w } nodes = s.Knows nodes :=
  funext fun _ => propext knows_worklist

theorem holds_worklist_eq (s : Solver) (nodes : Nat → Option ν) (w : Worklist) :
    Holds { s with worklist := w } nodes = s.Holds nodes := by
  unfold Holds
  rw [knows_worklist_eq]

theorem UpToDate.worklist {busy : Place ν → Prop} (current : s.UpToDate nodes busy) (w : Worklist) :
    UpToDate { s with worklist := w } nodes busy where
  passed p q o := by
    rw [knows_worklist_eq, holds_worklist_eq]
    exact current.passed p q o
  asked p d j := by
    unfold Watches
    rw [knows_worklist_eq, holds_worklist_eq]
    exact current.asked p d j

theorem Settled.worklist {busy : Place ν → Prop} (settled : s.Settled nodes busy) {w : Worklist}
    (fewer : ∀ item ∈ w.items, item ∈ s.worklist.items) :
    Settled { s with worklist := w } nodes busy :=
  ⟨settled.toUpToDate.worklist w, fun k waits => settled.waits k (fewer _ waits)⟩

section Widen

variable {more : Nat → Option ν} (wider : ∀ i n, nodes i = some n → more i = some n)

include wider

theorem Valid.knows_eq (valid : s.Valid nodes) : s.Knows more = s.Knows nodes :=
  funext fun j => propext (valid.knows_widen wider j)

theorem Valid.holds_eq (valid : s.Valid nodes) : s.Holds more = s.Holds nodes := by
  unfold Holds
  rw [valid.knows_eq wider]

theorem Settled.widen {busy : Place ν → Prop} (settled : s.Settled nodes busy)
    (valid : s.Valid nodes) : s.Settled more busy where
  passed := by
    rw [valid.knows_eq wider, valid.holds_eq wider]
    exact settled.passed
  asked := by
    unfold Watches
    rw [valid.knows_eq wider, valid.holds_eq wider]
    exact settled.asked
  waits := settled.waits

end Widen

section New

variable (r : Reflection)

theorem cell_new (k : Nat) : (new r).cell k = {} := by
  simp [cell, new]

theorem members_new (k : Nat) : (new r).members k = [] := by
  simp only [members, facts, cell_new, IdSet.toList_empty]

theorem successors_new (k : Nat) : (new r).successors k = [] := by
  simp only [successors, cell_new, Numbering.values_empty]

theorem constraints_new (k : Nat) : (new r).constraints k = [] := by
  simp only [constraints, cell_new, Numbering.values_empty]

theorem valid_new (nodes : Nat → Option ν) : (new r).Valid nodes where
  size := rfl
  locations k l here := by cases here
  members k i held := by
    rw [members_new] at held
    cases held
  successors a b linked := by
    rw [successors_new] at linked
    cases linked
  constraints k c imposed := by
    rw [constraints_new] at imposed
    cases imposed
  coherent := Worklist.coherent_empty
  ascending k := by
    simp only [facts, cell_new]
    exact IdSet.ascending_empty

variable {r}

theorem not_knows_new {j : Finding ν} : ¬ (new r).Knows nodes j := by
  intro known
  cases known with
  | name here => cases here
  | object here => cases here
  | place here => cases here
  | self here => cases here
  | holds here _ _ => cases here
  | flows here _ _ => cases here
  | attached here _ _ => cases here

variable (r)

theorem settled_new (nodes : Nat → Option ν) (busy : Place ν → Prop) :
    (new r).Settled nodes busy where
  passed _ _ _ linked := absurd linked not_knows_new
  asked _ _ _ attached := absurd attached not_knows_new
  waits k waits := by cases waits

end New

end Solver

end CallFlow
