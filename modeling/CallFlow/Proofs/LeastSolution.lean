import CallFlow.Proofs.Flow.Drain

/-! The least solution. However requests are interleaved with turns, in the end places hold the
least sets that contain all facts, pass them along all edges and meet all constraints. -/

namespace CallFlow

variable {ν : Type} {r : Reflection} {F : Place ν → AbstractObject → Prop}

/-- What a load from an object sees: what its fields hold, and what is seen in the objects that it
inherits from. Primitive values have no fields. -/
inductive Slot.Sees (r : Reflection) (F : Place ν → AbstractObject → Prop) (s : Slot) :
    AbstractObject → AbstractObject → Prop
  | own {o q x} : o.isPrimitive = false → q ∈ s.readSet r → F (.field o q) x → Sees r F s o x
  | inherited {o o' x} : o.isPrimitive = false → s.isInherited = true → F (.field o .proto) o' →
      Sees r F s o' x → Sees r F s o x

/-- Places hold what a store to an object asks for. Primitive values have no fields. -/
def Slot.Fills (r : Reflection) (F : Place ν → AbstractObject → Prop) (s : Slot) (src : Place ν)
    (o : AbstractObject) : Prop :=
  o.isPrimitive = false → ∀ q ∈ s.writeSet r, ∀ x, F src x → F (.field o q) x

/-- Places hold what a demand asks for that is attached to one of them. Calls ask for nothing. -/
def Demand.Met (r : Reflection) (F : Place ν → AbstractObject → Prop) (p : Place ν) :
    Demand ν → Prop
  | load s dst => ∀ o, F p o → ∀ x, s.Sees r F o x → F dst x
  | store s src => ∀ o, F p o → s.Fills r F src o
  | dynamicLoad object key dst => ∀ o k s, F object o → F key k → k.keySlot? r = some s →
      ∀ x, s.Sees r F o x → F dst x
  | dynamicStore object key src => ∀ o k s, F object o → F key k → k.keySlot? r = some s →
      s.Fills r F src o
  | invoke _ _ _ => True

/-- Sets for all places that contain what was added, pass it along the edges and meet the
demands. -/
structure Solves (r : Reflection) (added : Finding ν → Prop) (F : Place ν → AbstractObject → Prop) :
    Prop where
  facts : ∀ p o, added (.holds p o) → F p o
  edges : ∀ p q, added (.flows p q) → ∀ o, F p o → F q o
  demands : ∀ p d, added (.attached p d) → d.Met r F p

/-- Sets that lie in all sets that solve the same. -/
structure SolvesLeast (r : Reflection) (added : Finding ν → Prop)
    (F : Place ν → AbstractObject → Prop) : Prop extends Solves r added F where
  least : ∀ G, Solves r added G → ∀ p o, F p o → G p o

variable {added : Finding ν → Prop}

theorem Solves.mono {more : Finding ν → Prop} (solves : Solves r more F)
    (fewer : ∀ j, added j → more j) : Solves r added F where
  facts p o asked := solves.facts p o (fewer _ asked)
  edges p q asked := solves.edges p q (fewer _ asked)
  demands p d asked := solves.demands p d (fewer _ asked)

/-- Least sets for the same additions are the same. -/
theorem SolvesLeast.unique {other : Finding ν → Prop} {G : Place ν → AbstractObject → Prop}
    (first : SolvesLeast r added F) (second : SolvesLeast r other G)
    (same : ∀ j, other j ↔ added j) (p : Place ν) (o : AbstractObject) : G p o ↔ F p o :=
  ⟨second.least F (first.mono fun j => (same j).mp) p o,
    first.least G (second.mono fun j => (same j).mpr) p o⟩

namespace Solver

section Flowing

variable {D : Finding ν → Prop} {s : Slot} {p q : Place ν} {o : AbstractObject}

/-- Where all demands are met, a load brings all that it sees. -/
theorem Flowing.load (flowing : Flowing r D) (asked : Each D (s.loadFindings r q o))
    {x : AbstractObject} (sees : s.Sees r (fun p o => D (.holds p o)) o x) : D (.holds q x) := by
  induction sees with
  | own base seen held =>
      have edge := (((each_load _ _ _ _).mp asked base).1 _ seen).2
      exact flowing.pass _ _ _ edge held
  | inherited base inherits proto _ ih =>
      have attached := (((each_load _ _ _ _).mp asked base).2 inherits).2
      exact ih fun j member => flowing.asked _ _ j attached (.load proto member)

theorem Flowing.store (flowing : Flowing r D) (asked : Each D (s.storeFindings r q o)) :
    s.Fills r (fun p o => D (.holds p o)) q o := by
  intro base q' written x held
  exact flowing.pass _ _ _ ((each_store _ _ _ _).mp asked base q' written).2 held

theorem Flowing.solves (flowing : Flowing r D) : Solves r D fun p o => D (.holds p o) where
  facts _ _ held := held
  edges p q linked o held := flowing.pass p q o linked held
  demands p d attached := by
    cases d with
    | load s dst =>
        exact fun o held x => flowing.load fun j member =>
          flowing.asked _ _ j attached (.load held member)
    | store s src =>
        exact fun o held => flowing.store fun j member =>
          flowing.asked _ _ j attached (.store held member)
    | dynamicLoad object key dst =>
        exact fun o k s held named slot x => flowing.load fun j member =>
          flowing.asked _ _ j attached (.dynamicLoad held named slot member)
    | dynamicStore object key src =>
        exact fun o k s held named slot => flowing.store fun j member =>
          flowing.asked _ _ j attached (.dynamicStore held named slot member)
    | invoke caller pc dispatch => trivial

end Flowing

/-- What sets for places make true of a finding. -/
def Upheld (r : Reflection) (F : Place ν → AbstractObject → Prop) : Finding ν → Prop
  | .holds p o => F p o
  | .flows p q => ∀ o, F p o → F q o
  | .attached p d => d.Met r F p
  | _ => True

theorem upheld_load {s : Slot} {dst : Place ν} {o : AbstractObject}
    (met : ∀ x, s.Sees r F o x → F dst x) : Each (Upheld r F) (s.loadFindings r dst o) := by
  refine (each_load _ _ _ _).mpr fun base => ⟨fun q seen => ⟨trivial, fun x held => ?_⟩,
    fun inherits => ⟨trivial, fun o' proto x sees => ?_⟩⟩
  · exact met x (.own base seen held)
  · exact met x (.inherited base inherits proto sees)

theorem upheld_store {s : Slot} {src : Place ν} {o : AbstractObject}
    (met : s.Fills r F src o) : Each (Upheld r F) (s.storeFindings r src o) :=
  (each_store _ _ _ _).mpr fun base q written => ⟨trivial, met base q written⟩

/-- Whatever sets for places make true, they make true what follows from it. -/
theorem flowing_upheld (r : Reflection) (F : Place ν → AbstractObject → Prop) :
    Flowing r (Upheld r F) where
  self _ _ _ held := held
  pass _ _ o linked held := linked o held
  asked p d j attached asks := by
    cases asks with
    | load held member => exact upheld_load (attached _ held) j member
    | store held member => exact upheld_store (attached _ held) j member
    | loadKey key member => exact each_key r _ (fun _ => trivial) j member
    | storeKey key member => exact each_key r _ (fun _ => trivial) j member
    | dynamicLoad held key slot member =>
        exact upheld_load (attached _ _ _ held key slot) j member
    | dynamicStore held key slot member =>
        exact upheld_store (attached _ _ _ held key slot) j member

end Solver

/-- The locations that a constraint looks at when it is attached to a location. -/
def Constraint.operands (k : Nat) : Constraint → List Nat
  | load _ _ | store _ _ | invoke _ => [k]
  | dynamicLoad object key _ | dynamicStore object key _ => [object, key]

/-- The locations that a constraint looks at are those of the places that its demand looks at. -/
theorem Tables.operand_of_demand? {t : Tables ν} {k : Nat} {c : Constraint} {p q : Place ν}
    {d : Demand ν} (here : t.place? k = some p) (meant : t.demand? c = some d)
    (operand : q ∈ d.operands p) : ∃ k' ∈ c.operands k, t.place? k' = some q := by
  have single : q ∈ [p] → ∃ k' ∈ [k], t.place? k' = some q := fun member =>
    ⟨k, List.mem_singleton_self k, List.mem_singleton.mp member ▸ here⟩
  have pair : ∀ {object key : Nat} {a b : Place ν}, t.place? object = some a →
      t.place? key = some b → q ∈ [a, b] → ∃ k' ∈ [object, key], t.place? k' = some q := by
    intro object key a b base named member
    rcases List.mem_pair.mp member with rfl | rfl
    · exact ⟨object, List.mem_cons_self, base⟩
    · exact ⟨key, List.mem_cons_of_mem _ List.mem_cons_self, named⟩
  cases StandsFor.of_demand? meant with
  | load => exact single operand
  | store => exact single operand
  | invoke => exact single operand
  | dynamicLoad base named => exact pair base named operand
  | dynamicStore base named => exact pair base named operand

/-- Whether a constraint is attached to all that it looks at, by some of the requests. -/
def Request.pairedIn (qs : List Request) : Request → Bool
  | addConstraint k c => (c.operands k).all fun k' => decide (addConstraint k' c ∈ qs)
  | name _ | object _ | location _ | global _ | lexical _ _ | addFact _ _ | addEdge _ _ | work =>
    true

/-- The facts, the edges and the constraints that requests add. -/
def Added (t : Tables Nat) (qs : List Request) (j : Finding Nat) : Prop :=
  ∃ q ∈ qs, q.addition? t = some j

theorem added_iff {t : Tables Nat} {qs : List Request} {j : Finding Nat} :
    Added t qs j ↔ j ∈ qs.filterMap (Request.addition? t) := List.mem_filterMap.symm

namespace Sample

open Request

def call : PendingCall := ⟨0, 0, .direct⟩

/-- A load from the object in a variable, under the key in another one. -/
def lookUp : Constraint := .dynamicLoad 0 1 2

/-- An object, the one that it inherits from, a function and a key, with the variables and the
fields that hold them. -/
def things : List Request :=
  [object (.allocation ⟨0, 0, .object⟩ .everywhere),
    object (.allocation ⟨0, 1, .object⟩ .everywhere),
    object (.allocation ⟨0, 2, .function 1⟩ .everywhere), object (.constant (.string "run")),
    name "run", location (.var 0 0), location (.var 0 1), location (.var 0 2),
    location (.field 0 .proto), location (.field 1 (.named 0)), location (.var 0 3)]

/-- The turns come in between, and the field that is read is written last of all. -/
def interleaved : List Request :=
  things ++ [addConstraint 0 lookUp, addFact 0 0, work, addFact 1 3, addConstraint 1 lookUp, work,
    work, addFact 3 1, addEdge 5 4, addConstraint 2 (.invoke call), work, addFact 5 2]

/-- All is added before the first turn, and in another order. -/
def heaped : List Request :=
  things ++ [addConstraint 2 (.invoke call), addEdge 5 4, addFact 5 2, addFact 3 1, addFact 1 3,
    addConstraint 1 lookUp, addConstraint 0 lookUp, addFact 0 0]

end Sample

namespace Solver

def solve (r : Reflection) (qs : List Request) : TurnLog × Solver :=
  let served := (new r).serveAll qs
  let ended := served.2.drain
  (served.1 ++ ended.1, ended.2)

/-- What is true of all that may be numbered and of all that requests add is true of all that they
ask for. -/
theorem each_findings {D : Finding Nat → Prop} {t : Tables Nat} {qs : List Request}
    (names : ∀ n, D (.name n)) (objects : ∀ o, D (.object o)) (places : ∀ p, D (.place p))
    (all : ∀ j, Added t qs j → D j) : Each D (qs.flatMap (Request.findings t)) := by
  refine (each_flatMap _ _).mpr fun q member => (each_append _ _).mpr ⟨?_, fun j asked => ?_⟩
  · cases q <;> simp [Request.numbered, Each, names, objects, places]
  · exact all j ⟨q, member, by simpa using asked⟩

section Solve

variable {qs : List Request} (allowed : (new r).allowsAll qs = true)

include allowed

/-- Requests that were served and worked off leave a solver in order, and have added what they ask
for and what follows. -/
theorem serves_solve : Serves (new r) (solve r qs).2
      (qs.flatMap (Request.findings ((solve r qs).2.tables some))) ∧
    (solve r qs).2.Orderly (solve r qs).1 ∧ (solve r qs).2.worklist.items = [] := by
  have served := ((orderly_new r).serveAll allowed (.refl _)).2
  obtain ⟨worked, after⟩ := served.drainWithin (((new r).serveAll qs).2.weight.pow 8)
  have first := ((orderly_new r).serveAll allowed worked.tables).1
  refine ⟨?_, after, served.idle_drain⟩
  have whole := first.trans worked
  rwa [List.append_nil] at whole

theorem addition?_solve {q : Request} (asked : q ∈ qs) (adds : q.adds = true) :
    ∃ j, q.addition? ((solve r qs).2.tables some) = some j := by
  have served := ((orderly_new r).serveAll allowed (.refl _)).2
  exact (orderly_new r).addition? allowed (served.drainWithin _).1.tables asked adds

theorem reflection_solve : (solve r qs).2.reflection = r := (serves_solve allowed).1.reflection

theorem knows_of_added {j : Finding Nat} (added : Added ((solve r qs).2.tables some) qs j) :
    (solve r qs).2.Knows some j := by
  obtain ⟨q, member, asked⟩ := added
  refine (serves_solve allowed).1.known j (List.mem_flatMap.mpr ⟨q, member, ?_⟩)
  exact List.mem_append_right _ (by simp [asked])

/-- What is known follows from what was added. -/
theorem of_knows_solve {D : Finding Nat → Prop} (flowing : Flowing r D)
    (names : ∀ n, D (.name n)) (objects : ∀ o, D (.object o)) (places : ∀ p, D (.place p))
    (all : ∀ j, Added ((solve r qs).2.tables some) qs j → D j) {j : Finding Nat}
    (known : (solve r qs).2.Knows some j) : D j :=
  (serves_solve allowed).1.sound D flowing (fun _ start => absurd start not_knows_new)
    (each_findings names objects places all) j known

theorem twinned_solve (paired : qs.all (Request.pairedIn qs) = true) :
    (solve r qs).2.Twinned some := by
  -- a demand that was not added follows from another one, and looks at one place only
  have flowing : Flowing r fun j => ∀ p d, j = .attached p d →
      d.operands p = [p] ∨ Added ((solve r qs).2.tables some) qs (.attached p d) := by
    refine ⟨passing_of_attached _, ?_⟩
    rintro p d j - asks q a rfl
    exact .inl (operands_of_asks asks)
  intro p d known q operand
  have attached := of_knows_solve allowed flowing (fun _ p d same => by cases same)
    (fun _ p d same => by cases same) (fun _ p d same => by cases same)
    (fun j added q a same => .inr (same ▸ added)) known
  rcases attached p d rfl with own | added
  · rw [own] at operand
    obtain rfl := List.mem_singleton.mp operand
    exact known
  · obtain ⟨request, member, asked⟩ := added
    cases request with
    | addConstraint k c =>
        obtain ⟨p', here, asked⟩ := Option.bind_eq_some_iff.mp asked
        obtain ⟨d', meant, same⟩ := Option.map_eq_some_iff.mp asked
        cases same
        obtain ⟨k', looked, there⟩ := Tables.operand_of_demand? here meant operand
        have pair := List.all_eq_true.mp (List.all_eq_true.mp paired _ member) k' looked
        refine knows_of_added allowed ⟨_, of_decide_eq_true pair, ?_⟩
        simp [Request.addition?, there, meant]
    | addFact k i => simp [Request.addition?, Option.bind_eq_some_iff] at asked
    | addEdge a b => simp [Request.addition?, Option.bind_eq_some_iff] at asked
    | _ => cases asked

theorem flowing_solve (paired : qs.all (Request.pairedIn qs) = true) :
    Flowing r ((solve r qs).2.Knows some) := by
  obtain ⟨-, orderly, idle⟩ := serves_solve allowed
  have settled : (solve r qs).2.Settled some fun _ => False := by
    refine orderly.settled.mono fun p waiting => ?_
    obtain ⟨k, -, waits⟩ := waiting
    unfold Waits at waits
    rw [idle] at waits
    cases waits
  have flowing := settled.flowing (twinned_solve allowed paired)
  rwa [reflection_solve allowed] at flowing

theorem solvesLeast_solve (paired : qs.all (Request.pairedIn qs) = true) :
    SolvesLeast r (Added ((solve r qs).2.tables some) qs) ((solve r qs).2.Holds some) where
  toSolves := (flowing_solve allowed paired).solves.mono fun _ => knows_of_added allowed
  least G solves p o held := by
    refine of_knows_solve allowed (flowing_upheld r G) (fun _ => trivial) (fun _ => trivial)
      (fun _ => trivial) (fun j added => ?_) held
    cases j with
    | holds p o => exact solves.facts p o added
    | flows p q => exact solves.edges p q added
    | attached p d => exact solves.demands p d added
    | _ => trivial

/-- A call was last answered with all that its callee holds in the end. -/
theorem lastHanded_solve {k : Nat} {call : PendingCall}
    (asked : .addConstraint k (.invoke call) ∈ qs)
    (some : ((solve r qs).2.facts k).isEmpty = false) :
    lastHanded k call (solve r qs).1 = .some ((solve r qs).2.facts k) := by
  obtain ⟨-, orderly, idle⟩ := serves_solve allowed
  have imposed : .invoke call ∈ (solve r qs).2.constraints k := by
    obtain ⟨j, added⟩ := addition?_solve allowed asked rfl
    have known := knows_of_added allowed ⟨_, asked, added⟩
    obtain ⟨p, here, added⟩ := Option.bind_eq_some_iff.mp added
    obtain ⟨d, meant, rfl⟩ := Option.map_eq_some_iff.mp added
    cases known with
    | attached there stands imposed =>
        rwa [Tables.place?_inj (nodesDistinct _) here there,
          Tables.demand?_inj (nodesDistinct _) meant stands]
  have members : (solve r qs).2.members k ≠ [] := fun none => by
    rw [(IdSet.isEmpty_iff _).mpr none] at some
    cases some
  refine (orderly.answered k call imposed members).resolve_left fun waits => ?_
  unfold Waits at waits
  rw [idle] at waits
  cases waits

end Solve

/-- However requests on numbers that were handed out are interleaved with turns, working off what
waits comes to an end. If each constraint is attached to all that it looks at, places then hold the
least sets that solve what was added, which is all that was asked for; each call was last answered
with all that its callee holds; and other requests that add the same lead to the same sets. -/
theorem solve_isLeast (r : Reflection) (qs : List Request)
    (allowed : (new r).allowsAll qs = true) (paired : qs.all (Request.pairedIn qs) = true) :
    (solve r qs).2.worklist.items = [] ∧
      (∀ q ∈ qs, q.adds = true → ∃ j, q.addition? ((solve r qs).2.tables some) = some j) ∧
      SolvesLeast r (Added ((solve r qs).2.tables some) qs) ((solve r qs).2.Holds some) ∧
      (∀ k call, .addConstraint k (.invoke call) ∈ qs →
        ((solve r qs).2.facts k).isEmpty = false →
        lastHanded k call (solve r qs).1 = some ((solve r qs).2.facts k)) ∧
      ∀ others, (new r).allowsAll others = true →
        others.all (Request.pairedIn others) = true →
        (∀ j, Added ((solve r others).2.tables some) others j ↔
          Added ((solve r qs).2.tables some) qs j) →
        ∀ p o, (solve r others).2.Holds some p o ↔ (solve r qs).2.Holds some p o := by
  have least := solvesLeast_solve allowed paired
  refine ⟨(serves_solve allowed).2.2, fun q => addition?_solve allowed, least,
    fun k call => lastHanded_solve allowed, ?_⟩
  intro others allowed' paired' same p o
  exact least.unique (solvesLeast_solve allowed' paired') same p o

/-- The inherited function is found and called, whatever comes first. -/
theorem solve_isLeast_sample :
    (new .full).allowsAll Sample.interleaved = true ∧
      Sample.interleaved.all (Request.pairedIn Sample.interleaved) = true ∧
      (solve .full Sample.interleaved).2.worklist.items = [] ∧
      SolvesLeast .full
        (Added ((solve .full Sample.interleaved).2.tables some) Sample.interleaved)
        ((solve .full Sample.interleaved).2.Holds some) ∧
      lastHanded 2 Sample.call (solve .full Sample.interleaved).1 = some (.singleton 2) ∧
      ∀ p o, (solve .full Sample.heaped).2.Holds some p o ↔
        (solve .full Sample.interleaved).2.Holds some p o := by
  have allowed : (new .full).allowsAll Sample.interleaved = true := by decide +kernel
  have paired : Sample.interleaved.all (Request.pairedIn Sample.interleaved) = true := by
    decide +kernel
  have allowed' : (new .full).allowsAll Sample.heaped = true := by decide +kernel
  have paired' : Sample.heaped.all (Request.pairedIn Sample.heaped) = true := by decide +kernel
  have facts : (solve .full Sample.interleaved).2.facts 2 = .singleton 2 := by decide +kernel
  obtain ⟨idle, -, least, calls, same⟩ := solve_isLeast .full Sample.interleaved allowed paired
  have last := calls 2 Sample.call (by decide) (by rw [facts]; rfl)
  rw [facts] at last
  have additions : (Sample.heaped.filterMap
        (Request.addition? ((solve .full Sample.heaped).2.tables some))).Perm
      (Sample.interleaved.filterMap
        (Request.addition? ((solve .full Sample.interleaved).2.tables some))) := by
    decide +kernel
  refine ⟨allowed, paired, idle, least, last, same Sample.heaped allowed' paired' fun j => ?_⟩
  rw [added_iff, added_iff]
  exact additions.mem_iff

end Solver

end CallFlow
