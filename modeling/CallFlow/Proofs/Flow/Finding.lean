import CallFlow.Flow.Solver
import CallFlow.Graph.Method
import CallFlow.Proofs.Numbering

/-! What an analysis finds, by name: a field by its object and the name of its property, a variable
by its node. The tables of an analysis say what its numbers stand for. -/

namespace CallFlow

/-- A property of an object by its name. -/
inductive Slot where
  | named (name : String)
  | element
  | proto
  | unknownName
  | allValues
deriving DecidableEq, Repr

namespace Slot

/-- The slot of a name that is written in a program. -/
def ofName (n : String) : Slot :=
  match PropertyName.of n with
  | .proto => .proto
  | .element => .element
  | .named n => .named n

/-- The slots that a read sees. -/
def readSet (r : Reflection) : Slot → List Slot
  | named n => if r.modelsUnknown then [named n, unknownName] else [named n]
  | element => if r.modelsUnknown then [element, unknownName] else [element]
  | unknownName => [allValues, unknownName]
  | proto => [proto]
  | allValues => [allValues]

/-- The slots that a write goes to. -/
def writeSet (r : Reflection) : Slot → List Slot
  | named n => if r.modelsUnknown then [named n, allValues] else [named n]
  | element => if r.modelsUnknown then [element, allValues] else [element]
  | unknownName => [unknownName, allValues]
  | proto => [proto]
  | allValues => [allValues]

/-- Whether a read goes on to the object that the property may be inherited from. -/
def isInherited : Slot → Bool
  | proto => false
  | _ => true

end Slot

/-- The slot that an object names when it is used as a key. -/
def AbstractObject.keySlot? (r : Reflection) : AbstractObject → Option Slot
  | .constant (.number _) | .constantKind .number => some .element
  | .constant (.string n) =>
    if Number.isElementIndex n then some .element
    else if r.resolvesStrings then some (.named n) else none
  | _ => if r.modelsUnknown then some .unknownName else none

/-- A storage location by name. -/
inductive Place (ν : Type) where
  | var (node : ν) (v : VarId)
  | result (node : ν)
  | field (object : AbstractObject) (slot : Slot)
  | global (name : String)
  | lexical (definer : FunctionId) (name : String)
deriving DecidableEq, Repr

/-- A constraint by name. -/
inductive Demand (ν : Type) where
  | load (slot : Slot) (dst : Place ν)
  | store (slot : Slot) (src : Place ν)
  | dynamicLoad (object key dst : Place ν)
  | dynamicStore (object key src : Place ν)
  | invoke (caller : ν) (pc : Nat) (dispatch : Dispatch)
deriving DecidableEq, Repr

/-- One piece of what an analysis finds. -/
inductive Finding (ν : Type) where
  | name (n : String)
  | object (o : AbstractObject)
  | place (p : Place ν)
  | holds (p : Place ν) (o : AbstractObject)
  /-- The second place holds whatever the first one holds. -/
  | flows (src dst : Place ν)
  | attached (p : Place ν) (d : Demand ν)
  | node (n : ν)
  | site (n : ν) (s : CallSite)
  | edge (caller : ν) (s : CallSite) (callee : ν)
  | binding (caller : ν) (pc : Nat) (callee : ν) (function : AbstractObject) (d : Dispatch)
deriving DecidableEq, Repr

namespace Slot

variable {ν : Type}

/-- The name that becomes known with a slot. -/
def mentions : Slot → List (Finding ν)
  | named n => [.name n]
  | element | proto | unknownName | allValues => []

@[simp]
theorem mem_mentions (s : Slot) (j : Finding ν) :
    j ∈ s.mentions ↔ ∃ n, s = named n ∧ j = .name n := by
  cases s <;> simp [mentions]

def readFindings (o : AbstractObject) (dst : Place ν) (q : Slot) : List (Finding ν) :=
  [.place (.field o q), .flows (.field o q) dst]

def writeFindings (o : AbstractObject) (src : Place ν) (q : Slot) : List (Finding ν) :=
  [.place (.field o q), .flows src (.field o q)]

/-- What a load from one object asks for; primitive values have no fields. -/
def loadFindings (r : Reflection) (s : Slot) (dst : Place ν) (o : AbstractObject) :
    List (Finding ν) :=
  if o.isPrimitive then []
  else
    (s.readSet r).flatMap (readFindings o dst) ++
      if s.isInherited then
        [.place (.field o .proto), .attached (.field o .proto) (.load s dst)]
      else []

/-- What a store to one object asks for; primitive values have no fields. -/
def storeFindings (r : Reflection) (s : Slot) (src : Place ν) (o : AbstractObject) :
    List (Finding ν) :=
  if o.isPrimitive then [] else (s.writeSet r).flatMap (writeFindings o src)

end Slot

/-- The name that becomes known with a key. -/
def AbstractObject.keyFindings {ν : Type} (r : Reflection) (k : AbstractObject) :
    List (Finding ν) := (k.keySlot? r).elim [] Slot.mentions

/-- What a demand asks for, given what the location that it is attached to holds, and what all
places hold. -/
inductive Demand.Asks {ν : Type} (r : Reflection) (base : AbstractObject → Prop)
    (held : Place ν → AbstractObject → Prop) : Demand ν → Finding ν → Prop
  | load {s dst o j} : base o → j ∈ s.loadFindings r dst o → Asks r base held (.load s dst) j
  | store {s src o j} : base o → j ∈ s.storeFindings r src o → Asks r base held (.store s src) j
  | loadKey {object key dst k j} : held key k → j ∈ k.keyFindings r →
      Asks r base held (.dynamicLoad object key dst) j
  | storeKey {object key src k j} : held key k → j ∈ k.keyFindings r →
      Asks r base held (.dynamicStore object key src) j
  | dynamicLoad {object key dst o k s j} : held object o → held key k → k.keySlot? r = some s →
      j ∈ s.loadFindings r dst o → Asks r base held (.dynamicLoad object key dst) j
  | dynamicStore {object key src o k s j} : held object o → held key k → k.keySlot? r = some s →
      j ∈ s.storeFindings r src o → Asks r base held (.dynamicStore object key src) j

/-- What the numbers of an analysis stand for. -/
structure Tables (ν : Type) where
  nodes : Nat → Option ν
  names : Numbering String
  objects : Numbering AbstractObject
  locations : Numbering Location

namespace Tables

variable {ν : Type}

def slot? (t : Tables ν) : Property → Option Slot
  | .named n => (t.names.value? n).map .named
  | .element => some .element
  | .proto => some .proto
  | .unknownName => some .unknownName
  | .allValues => some .allValues

def placeOf? (t : Tables ν) : Location → Option (Place ν)
  | .var n v => (t.nodes n).map (.var · v)
  | .result n => (t.nodes n).map .result
  | .field o p => (t.objects.value? o).bind fun o => (t.slot? p).map (.field o)
  | .global n => (t.names.value? n).map .global
  | .lexical f n => (t.names.value? n).map (.lexical f)

def place? (t : Tables ν) (k : Nat) : Option (Place ν) := (t.locations.value? k).bind t.placeOf?

def demand? (t : Tables ν) : Constraint → Option (Demand ν)
  | .load p dst => (t.slot? p).bind fun s => (t.place? dst).map (.load s)
  | .store p src => (t.slot? p).bind fun s => (t.place? src).map (.store s)
  | .dynamicLoad object key dst =>
    (t.place? object).bind fun o => (t.place? key).bind fun k =>
      (t.place? dst).map (.dynamicLoad o k)
  | .dynamicStore object key src =>
    (t.place? object).bind fun o => (t.place? key).bind fun k =>
      (t.place? src).map (.dynamicStore o k)
  | .invoke call => (t.nodes call.caller).map fun n => .invoke n call.pc call.dispatch

/-- What the parts of a constraint stand for, if it stands for a demand. -/
inductive StandsFor (t : Tables ν) : Constraint → Demand ν → Prop
  | load {p dst sl q} (slot : t.slot? p = some sl) (target : t.place? dst = some q) :
      StandsFor t (.load p dst) (.load sl q)
  | store {p src sl q} (slot : t.slot? p = some sl) (source : t.place? src = some q) :
      StandsFor t (.store p src) (.store sl q)
  | dynamicLoad {object key dst o k q} (base : t.place? object = some o)
      (named : t.place? key = some k) (target : t.place? dst = some q) :
      StandsFor t (.dynamicLoad object key dst) (.dynamicLoad o k q)
  | dynamicStore {object key src o k q} (base : t.place? object = some o)
      (named : t.place? key = some k) (source : t.place? src = some q) :
      StandsFor t (.dynamicStore object key src) (.dynamicStore o k q)
  | invoke {call n} (known : t.nodes call.caller = some n) :
      StandsFor t (.invoke call) (.invoke n call.pc call.dispatch)

theorem StandsFor.of_demand? {t : Tables ν} {c : Constraint} {d : Demand ν}
    (meant : t.demand? c = some d) : t.StandsFor c d := by
  cases c with
  | load p dst =>
      obtain ⟨sl, slot, meant⟩ := Option.bind_eq_some_iff.mp meant
      obtain ⟨q, target, rfl⟩ := Option.map_eq_some_iff.mp meant
      exact .load slot target
  | store p src =>
      obtain ⟨sl, slot, meant⟩ := Option.bind_eq_some_iff.mp meant
      obtain ⟨q, source, rfl⟩ := Option.map_eq_some_iff.mp meant
      exact .store slot source
  | dynamicLoad object key dst =>
      obtain ⟨o, base, meant⟩ := Option.bind_eq_some_iff.mp meant
      obtain ⟨k, named, meant⟩ := Option.bind_eq_some_iff.mp meant
      obtain ⟨q, target, rfl⟩ := Option.map_eq_some_iff.mp meant
      exact .dynamicLoad base named target
  | dynamicStore object key src =>
      obtain ⟨o, base, meant⟩ := Option.bind_eq_some_iff.mp meant
      obtain ⟨k, named, meant⟩ := Option.bind_eq_some_iff.mp meant
      obtain ⟨q, source, rfl⟩ := Option.map_eq_some_iff.mp meant
      exact .dynamicStore base named source
  | invoke call =>
      obtain ⟨n, known, rfl⟩ := Option.map_eq_some_iff.mp meant
      exact .invoke known

section Demands

variable {t : Tables ν}

theorem demand?_load {p : Property} {dst : Nat} {sl : Slot} {q : Place ν}
    (slot : t.slot? p = some sl) (target : t.place? dst = some q) :
    t.demand? (.load p dst) = some (.load sl q) := by
  simp only [demand?, slot, target, Option.bind_some, Option.map_some]

theorem demand?_store {p : Property} {src : Nat} {sl : Slot} {q : Place ν}
    (slot : t.slot? p = some sl) (source : t.place? src = some q) :
    t.demand? (.store p src) = some (.store sl q) := by
  simp only [demand?, slot, source, Option.bind_some, Option.map_some]

theorem demand?_dynamicLoad {object key dst : Nat} {o k q : Place ν}
    (base : t.place? object = some o) (named : t.place? key = some k)
    (target : t.place? dst = some q) :
    t.demand? (.dynamicLoad object key dst) = some (.dynamicLoad o k q) := by
  simp only [demand?, base, named, target, Option.bind_some, Option.map_some]

theorem demand?_dynamicStore {object key src : Nat} {o k q : Place ν}
    (base : t.place? object = some o) (named : t.place? key = some k)
    (source : t.place? src = some q) :
    t.demand? (.dynamicStore object key src) = some (.dynamicStore o k q) := by
  simp only [demand?, base, named, source, Option.bind_some, Option.map_some]

theorem demand?_invoke {caller : Nat} {n : ν} (pc : Nat) (d : Dispatch)
    (known : t.nodes caller = some n) :
    t.demand? (.invoke ⟨caller, pc, d⟩) = some (.invoke n pc d) := by
  simp only [demand?, known, Option.map_some]

theorem call_of_demand?_eq_invoke {c : Constraint} {n : ν} {pc : Nat} {d : Dispatch}
    (meant : t.demand? c = some (.invoke n pc d)) :
    ∃ call, c = .invoke call ∧ t.nodes call.caller = some n ∧ call.pc = pc ∧
      call.dispatch = d := by
  cases StandsFor.of_demand? meant with
  | invoke known => exact ⟨_, rfl, known, rfl, rfl⟩

end Demands

/-- All numbers keep their meaning. -/
structure Extends (t u : Tables ν) : Prop where
  nodes : ∀ i n, t.nodes i = some n → u.nodes i = some n
  names : t.names.Extends u.names
  objects : t.objects.Extends u.objects
  locations : t.locations.Extends u.locations

theorem Extends.refl (t : Tables ν) : t.Extends t :=
  ⟨fun _ _ here => here, .refl _, .refl _, .refl _⟩

theorem Extends.trans {t u v : Tables ν} (first : t.Extends u) (second : u.Extends v) :
    t.Extends v where
  nodes i n here := second.nodes i n (first.nodes i n here)
  names := first.names.trans second.names
  objects := first.objects.trans second.objects
  locations := first.locations.trans second.locations

theorem Extends.slot? {t u : Tables ν} (h : t.Extends u) {p : Property} {s : Slot}
    (here : t.slot? p = some s) : u.slot? p = some s := by
  cases p with
  | named n =>
      obtain ⟨name, known, rfl⟩ := Option.map_eq_some_iff.mp here
      exact Option.map_eq_some_iff.mpr ⟨name, h.names _ _ known, rfl⟩
  | element => exact here
  | proto => exact here
  | unknownName => exact here
  | allValues => exact here

theorem Extends.placeOf? {t u : Tables ν} (h : t.Extends u) {l : Location} {p : Place ν}
    (here : t.placeOf? l = some p) : u.placeOf? l = some p := by
  cases l with
  | var n v =>
      obtain ⟨node, known, rfl⟩ := Option.map_eq_some_iff.mp here
      exact Option.map_eq_some_iff.mpr ⟨node, h.nodes _ _ known, rfl⟩
  | result n =>
      obtain ⟨node, known, rfl⟩ := Option.map_eq_some_iff.mp here
      exact Option.map_eq_some_iff.mpr ⟨node, h.nodes _ _ known, rfl⟩
  | field o q =>
      obtain ⟨object, known, here⟩ := Option.bind_eq_some_iff.mp here
      obtain ⟨slot, named, rfl⟩ := Option.map_eq_some_iff.mp here
      exact Option.bind_eq_some_iff.mpr ⟨object, h.objects _ _ known,
        Option.map_eq_some_iff.mpr ⟨slot, h.slot? named, rfl⟩⟩
  | global n =>
      obtain ⟨name, known, rfl⟩ := Option.map_eq_some_iff.mp here
      exact Option.map_eq_some_iff.mpr ⟨name, h.names _ _ known, rfl⟩
  | lexical f n =>
      obtain ⟨name, known, rfl⟩ := Option.map_eq_some_iff.mp here
      exact Option.map_eq_some_iff.mpr ⟨name, h.names _ _ known, rfl⟩

theorem Extends.place? {t u : Tables ν} (h : t.Extends u) {k : Nat} {p : Place ν}
    (here : t.place? k = some p) : u.place? k = some p := by
  obtain ⟨l, known, here⟩ := Option.bind_eq_some_iff.mp here
  exact Option.bind_eq_some_iff.mpr ⟨l, h.locations _ _ known, h.placeOf? here⟩

theorem Extends.demand? {t u : Tables ν} (h : t.Extends u) {c : Constraint} {d : Demand ν}
    (here : t.demand? c = some d) : u.demand? c = some d := by
  cases StandsFor.of_demand? here with
  | load slot target => exact demand?_load (h.slot? slot) (h.place? target)
  | store slot source => exact demand?_store (h.slot? slot) (h.place? source)
  | dynamicLoad base named target =>
      exact demand?_dynamicLoad (h.place? base) (h.place? named) (h.place? target)
  | dynamicStore base named source =>
      exact demand?_dynamicStore (h.place? base) (h.place? named) (h.place? source)
  | invoke known => exact demand?_invoke _ _ (h.nodes _ _ known)

/-- Different numbers stand for different nodes. -/
def NodesDistinct (t : Tables ν) : Prop :=
  ∀ i j n, t.nodes i = some n → t.nodes j = some n → i = j

theorem slot?_eq_named_iff {t : Tables ν} {p : Property} {name : String} :
    t.slot? p = some (.named name) ↔ ∃ n, p = .named n ∧ t.names.value? n = some name := by
  cases p <;> simp [Tables.slot?]

theorem slot?_eq_element_iff {t : Tables ν} {p : Property} :
    t.slot? p = some .element ↔ p = .element := by
  cases p <;> simp [Tables.slot?]

theorem slot?_eq_proto_iff {t : Tables ν} {p : Property} :
    t.slot? p = some .proto ↔ p = .proto := by
  cases p <;> simp [Tables.slot?]

theorem slot?_eq_unknownName_iff {t : Tables ν} {p : Property} :
    t.slot? p = some .unknownName ↔ p = .unknownName := by
  cases p <;> simp [Tables.slot?]

theorem slot?_eq_allValues_iff {t : Tables ν} {p : Property} :
    t.slot? p = some .allValues ↔ p = .allValues := by
  cases p <;> simp [Tables.slot?]

theorem slot?_inj {t : Tables ν} {p q : Property} {s : Slot} (here : t.slot? p = some s)
    (there : t.slot? q = some s) : p = q := by
  cases s with
  | named name =>
      obtain ⟨m, rfl, known⟩ := slot?_eq_named_iff.mp here
      obtain ⟨n, rfl, other⟩ := slot?_eq_named_iff.mp there
      rw [Numbering.value?_inj known other]
  | element => rw [slot?_eq_element_iff.mp here, slot?_eq_element_iff.mp there]
  | proto => rw [slot?_eq_proto_iff.mp here, slot?_eq_proto_iff.mp there]
  | unknownName => rw [slot?_eq_unknownName_iff.mp here, slot?_eq_unknownName_iff.mp there]
  | allValues => rw [slot?_eq_allValues_iff.mp here, slot?_eq_allValues_iff.mp there]

theorem placeOf?_eq_var_iff {t : Tables ν} {l : Location} {node : ν} {v : VarId} :
    t.placeOf? l = some (.var node v) ↔ ∃ n, l = .var n v ∧ t.nodes n = some node := by
  cases l <;> simp only [placeOf?, Option.map_eq_some_iff, Option.bind_eq_some_iff] <;> grind

theorem placeOf?_eq_result_iff {t : Tables ν} {l : Location} {node : ν} :
    t.placeOf? l = some (.result node) ↔ ∃ n, l = .result n ∧ t.nodes n = some node := by
  cases l <;> simp only [placeOf?, Option.map_eq_some_iff, Option.bind_eq_some_iff] <;> grind

theorem placeOf?_eq_field_iff {t : Tables ν} {l : Location} {object : AbstractObject} {s : Slot} :
    t.placeOf? l = some (.field object s) ↔
      ∃ o p, l = .field o p ∧ t.objects.value? o = some object ∧ t.slot? p = some s := by
  cases l <;> simp only [placeOf?, Option.map_eq_some_iff, Option.bind_eq_some_iff] <;> grind

theorem placeOf?_eq_global_iff {t : Tables ν} {l : Location} {name : String} :
    t.placeOf? l = some (.global name) ↔ ∃ n, l = .global n ∧ t.names.value? n = some name := by
  cases l <;> simp only [placeOf?, Option.map_eq_some_iff, Option.bind_eq_some_iff] <;> grind

theorem placeOf?_eq_lexical_iff {t : Tables ν} {l : Location} {f : FunctionId} {name : String} :
    t.placeOf? l = some (.lexical f name) ↔
      ∃ n, l = .lexical f n ∧ t.names.value? n = some name := by
  cases l <;> simp only [placeOf?, Option.map_eq_some_iff, Option.bind_eq_some_iff] <;> grind

theorem placeOf?_inj {t : Tables ν} (distinct : t.NodesDistinct) {l m : Location} {p : Place ν}
    (here : t.placeOf? l = some p) (there : t.placeOf? m = some p) : l = m := by
  cases p with
  | var node v =>
      obtain ⟨i, rfl, known⟩ := placeOf?_eq_var_iff.mp here
      obtain ⟨j, rfl, other⟩ := placeOf?_eq_var_iff.mp there
      rw [distinct i j node known other]
  | result node =>
      obtain ⟨i, rfl, known⟩ := placeOf?_eq_result_iff.mp here
      obtain ⟨j, rfl, other⟩ := placeOf?_eq_result_iff.mp there
      rw [distinct i j node known other]
  | field object s =>
      obtain ⟨o, p, rfl, known, slot⟩ := placeOf?_eq_field_iff.mp here
      obtain ⟨o', p', rfl, other, slot'⟩ := placeOf?_eq_field_iff.mp there
      rw [Numbering.value?_inj known other, slot?_inj slot slot']
  | global name =>
      obtain ⟨i, rfl, known⟩ := placeOf?_eq_global_iff.mp here
      obtain ⟨j, rfl, other⟩ := placeOf?_eq_global_iff.mp there
      rw [Numbering.value?_inj known other]
  | lexical f name =>
      obtain ⟨i, rfl, known⟩ := placeOf?_eq_lexical_iff.mp here
      obtain ⟨j, rfl, other⟩ := placeOf?_eq_lexical_iff.mp there
      rw [Numbering.value?_inj known other]

theorem place?_inj {t : Tables ν} (distinct : t.NodesDistinct) {i j : Nat} {p : Place ν}
    (here : t.place? i = some p) (there : t.place? j = some p) : i = j := by
  obtain ⟨l, known, here⟩ := Option.bind_eq_some_iff.mp here
  obtain ⟨m, other, there⟩ := Option.bind_eq_some_iff.mp there
  obtain rfl := placeOf?_inj distinct here there
  exact Numbering.value?_inj known other

theorem demand?_inj {t : Tables ν} (distinct : t.NodesDistinct) {a b : Constraint} {d : Demand ν}
    (here : t.demand? a = some d) (there : t.demand? b = some d) : a = b := by
  have place : ∀ {i j : Nat} {p : Place ν}, t.place? i = some p → t.place? j = some p → i = j :=
    fun here there => place?_inj distinct here there
  cases StandsFor.of_demand? here with
  | load slot target =>
      cases StandsFor.of_demand? there with
      | load slot' target' => rw [slot?_inj slot slot', place target target']
  | store slot source =>
      cases StandsFor.of_demand? there with
      | store slot' source' => rw [slot?_inj slot slot', place source source']
  | dynamicLoad base named target =>
      cases StandsFor.of_demand? there with
      | dynamicLoad base' named' target' =>
          rw [place base base', place named named', place target target']
  | dynamicStore base named source =>
      cases StandsFor.of_demand? there with
      | dynamicStore base' named' source' =>
          rw [place base base', place named named', place source source']
  | @invoke call n known =>
      obtain ⟨other, rfl, known', pc, dispatch⟩ := call_of_demand?_eq_invoke there
      cases call
      cases other
      cases distinct _ _ _ known known'
      cases pc
      cases dispatch
      rfl

end Tables

/-- All findings of a list have a property. -/
def Each {ν : Type} (P : Finding ν → Prop) (js : List (Finding ν)) : Prop := ∀ j ∈ js, P j

section Each

variable {ν : Type} {P Q : Finding ν → Prop}

theorem Each.mono {js : List (Finding ν)} (each : Each P js) (wider : ∀ j, P j → Q j) :
    Each Q js :=
  fun j member => wider j (each j member)

@[simp]
theorem each_nil : Each P [] := by simp [Each]

@[simp]
theorem each_cons (j : Finding ν) (js : List (Finding ν)) :
    Each P (j :: js) ↔ P j ∧ Each P js := by
  simp [Each]

@[simp]
theorem each_append (js ks : List (Finding ν)) :
    Each P (js ++ ks) ↔ Each P js ∧ Each P ks := by
  simp [Each, or_imp, forall_and]

@[simp]
theorem each_flatMap {α : Type} (xs : List α) (g : α → List (Finding ν)) :
    Each P (xs.flatMap g) ↔ ∀ x ∈ xs, Each P (g x) := by
  constructor
  · exact fun all x here j member => all j (List.mem_flatMap.mpr ⟨x, here, member⟩)
  · intro each j member
    obtain ⟨x, here, member⟩ := List.mem_flatMap.mp member
    exact each x here j member

@[simp]
theorem each_elim {α : Type} (x : Option α) (g : α → List (Finding ν)) :
    Each P (x.elim [] g) ↔ ∀ a, x = some a → Each P (g a) := by
  cases x <;> simp

@[simp]
theorem each_mentions (s : Slot) : Each P s.mentions ↔ ∀ n, s = .named n → P (.name n) := by
  cases s <;> simp [Slot.mentions]

@[simp]
theorem each_read (o : AbstractObject) (dst : Place ν) (q : Slot) :
    Each P (q.readFindings o dst) ↔ P (.place (.field o q)) ∧ P (.flows (.field o q) dst) := by
  simp [Slot.readFindings]

@[simp]
theorem each_write (o : AbstractObject) (src : Place ν) (q : Slot) :
    Each P (q.writeFindings o src) ↔ P (.place (.field o q)) ∧ P (.flows src (.field o q)) := by
  simp [Slot.writeFindings]

theorem each_key (r : Reflection) (k : AbstractObject) (names : ∀ n, P (.name n)) :
    Each P (k.keyFindings r) := by
  unfold AbstractObject.keyFindings
  simp [names]

theorem each_load (r : Reflection) (s : Slot) (dst : Place ν) (o : AbstractObject) :
    Each P (s.loadFindings r dst o) ↔ (o.isPrimitive = false →
      (∀ q ∈ s.readSet r, P (.place (.field o q)) ∧ P (.flows (.field o q) dst)) ∧
        (s.isInherited = true →
          P (.place (.field o .proto)) ∧ P (.attached (.field o .proto) (.load s dst)))) := by
  unfold Slot.loadFindings
  cases o.isPrimitive <;> cases s.isInherited <;> simp

theorem each_store (r : Reflection) (s : Slot) (src : Place ν) (o : AbstractObject) :
    Each P (s.storeFindings r src o) ↔ (o.isPrimitive = false →
      ∀ q ∈ s.writeSet r, P (.place (.field o q)) ∧ P (.flows src (.field o q))) := by
  unfold Slot.storeFindings
  cases o.isPrimitive <;> simp

end Each

end CallFlow
