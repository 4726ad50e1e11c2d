import CallFlow.Proofs.Flow.Effect

/-! Loads, stores and keys: looking at a constraint enacts just what the demand asks for that it
stands for. -/

namespace CallFlow

namespace Tables

variable {ν : Type} {t : Tables ν}

theorem slot?_proto (t : Tables ν) : t.slot? .proto = some .proto := rfl

theorem slot?_element (t : Tables ν) : t.slot? .element = some .element := rfl

end Tables

theorem Property.map_slot?_readSet {ν : Type} {t : Tables ν} {p : Property} {sl : Slot}
    (r : Reflection) (slot : t.slot? p = some sl) :
    (p.readSet r).map t.slot? = (sl.readSet r).map some := by
  cases p with
  | named n =>
      obtain ⟨name, known, rfl⟩ := Option.map_eq_some_iff.mp slot
      simp only [Property.readSet, Slot.readSet]
      split <;> simp [Tables.slot?, known]
  | element =>
      cases slot
      simp only [Property.readSet, Slot.readSet]
      split <;> rfl
  | proto => cases slot; rfl
  | unknownName => cases slot; rfl
  | allValues => cases slot; rfl

theorem Property.map_slot?_writeSet {ν : Type} {t : Tables ν} {p : Property} {sl : Slot}
    (r : Reflection) (slot : t.slot? p = some sl) :
    (p.writeSet r).map t.slot? = (sl.writeSet r).map some := by
  cases p with
  | named n =>
      obtain ⟨name, known, rfl⟩ := Option.map_eq_some_iff.mp slot
      simp only [Property.writeSet, Slot.writeSet]
      split <;> simp [Tables.slot?, known]
  | element =>
      cases slot
      simp only [Property.writeSet, Slot.writeSet]
      split <;> rfl
  | proto => cases slot; rfl
  | unknownName => cases slot; rfl
  | allValues => cases slot; rfl

theorem Property.isInherited_eq {ν : Type} {t : Tables ν} {p : Property} {sl : Slot}
    (slot : t.slot? p = some sl) : p.isInherited = sl.isInherited := by
  cases p with
  | named n =>
      obtain ⟨name, -, rfl⟩ := Option.map_eq_some_iff.mp slot
      rfl
  | element => cases slot; rfl
  | proto => cases slot; rfl
  | unknownName => cases slot; rfl
  | allValues => cases slot; rfl

/-- Things that all stand for something stand for the members of a list. -/
theorem exists_map_eq {α β : Type} {f : α → Option β} {xs : List α}
    (all : ∀ x ∈ xs, ∃ y, f x = some y) : ∃ ys : List β, xs.map f = ys.map some := by
  induction xs with
  | nil => exact ⟨[], rfl⟩
  | cons x xs ih =>
      obtain ⟨y, here⟩ := all x List.mem_cons_self
      obtain ⟨ys, later⟩ := ih fun z member => all z (List.mem_cons_of_mem x member)
      exact ⟨y :: ys, by simp [here, later]⟩

theorem exists_of_map_eq {α β : Type} {f : α → Option β} {xs : List α} {ys : List β}
    (same : xs.map f = ys.map some) {x : α} (member : x ∈ xs) : ∃ y ∈ ys, f x = some y := by
  have mapped : f x ∈ ys.map some := same ▸ List.mem_map_of_mem member
  obtain ⟨y, found, stands⟩ := List.mem_map.mp mapped
  exact ⟨y, found, stands.symm⟩

theorem mem_iff_of_map_eq {α β : Type} {f : α → Option β} {xs : List α} {ys : List β}
    (same : xs.map f = ys.map some) (y : β) : y ∈ ys ↔ ∃ x ∈ xs, f x = some y := by
  rw [← List.mem_map, same, List.mem_map]
  simp

/-- What stands for something goes on to stand for it. -/
theorem map_eq_map_some_of_kept {α β : Type} {f g : α → Option β}
    (kept : ∀ x y, f x = some y → g x = some y) {xs : List α} {ys : List β}
    (same : xs.map f = ys.map some) : xs.map g = ys.map some := by
  rw [← same]
  refine List.map_congr_left fun x member => ?_
  obtain ⟨y, -, stands⟩ := exists_of_map_eq same member
  rw [stands, kept x y stands]

namespace Solver

variable {ν : Type} {nodes : Nat → Option ν} {s : Solver}

theorem place?_var {n : Nat} {node : ν} (known : nodes n = some node) (v : VarId) :
    ((s.var n v).2.tables nodes).place? (s.var n v).1 = some (.var node v) :=
  place?_location (by simp [Tables.placeOf?, tables, known])

theorem enacts_var (valid : s.Valid nodes) {n : Nat} {node : ν} (known : nodes n = some node)
    (v : VarId) : Enacts nodes s (s.var n v).2 [.place (.var node v)] :=
  enacts_location valid (by simp [Tables.placeOf?, tables, known])

theorem placeOf?_field {i : Nat} {o : AbstractObject} {p : Property} {sl : Slot}
    (handed : s.objects.value? i = some o) (slot : (s.tables nodes).slot? p = some sl) :
    (s.tables nodes).placeOf? (.field i p) = some (.field o sl) := by
  have known : (s.tables nodes).objects.value? i = some o := handed
  simp [Tables.placeOf?, known, slot]

theorem place?_field {i : Nat} {o : AbstractObject} {p : Property} {sl : Slot}
    (handed : s.objects.value? i = some o) (slot : (s.tables nodes).slot? p = some sl) :
    ((s.field i p).2.tables nodes).place? (s.field i p).1 = some (.field o sl) :=
  place?_location (placeOf?_field handed slot)

theorem enacts_field (valid : s.Valid nodes) {i : Nat} {o : AbstractObject} {p : Property}
    {sl : Slot} (handed : s.objects.value? i = some o)
    (slot : (s.tables nodes).slot? p = some sl) :
    Enacts nodes s (s.field i p).2 [.place (.field o sl)] :=
  enacts_location valid (placeOf?_field handed slot)

theorem slot?_property (n : String) :
    ((s.property n).2.tables nodes).slot? (s.property n).1 = some (.ofName n) := by
  unfold property Slot.ofName
  cases PropertyName.of n with
  | proto => rfl
  | element => rfl
  | named m => exact Option.map_eq_some_iff.mpr ⟨m, value?_name s m, rfl⟩

theorem enacts_property (valid : s.Valid nodes) (n : String) :
    Enacts nodes s (s.property n).2 (Slot.ofName n).mentions := by
  unfold property Slot.ofName
  cases PropertyName.of n with
  | proto => exact .refl valid
  | element => exact .refl valid
  | named m => exact enacts_name valid m

theorem enacts_readField (valid : s.Valid nodes) {i dst : Nat} {o : AbstractObject} {q : Place ν}
    (handed : s.objects.value? i = some o) (target : (s.tables nodes).place? dst = some q)
    {p : Property} {sl : Slot} (slot : (s.tables nodes).slot? p = some sl) :
    Enacts nodes s (readField i dst s p) (sl.readFindings o q) := by
  have field := enacts_field valid handed slot
  have edge := enacts_addEdge field.valid (place?_field handed slot)
    ((field.grows.tables nodes).place? target)
  exact field.trans edge

theorem enacts_writeField (valid : s.Valid nodes) {i src : Nat} {o : AbstractObject} {q : Place ν}
    (handed : s.objects.value? i = some o) (source : (s.tables nodes).place? src = some q)
    {p : Property} {sl : Slot} (slot : (s.tables nodes).slot? p = some sl) :
    Enacts nodes s (writeField i src s p) (sl.writeFindings o q) := by
  have field := enacts_field valid handed slot
  have edge := enacts_addEdge field.valid ((field.grows.tables nodes).place? source)
    (place?_field handed slot)
  exact field.trans edge

/-- Doing something for every member of a list enacts what the things ask for that the members
stand for. -/
theorem Enacts.foldl_meant {α β : Type} {m : Solver → α → Option β} {f : Solver → α → Solver}
    {g : β → List (Finding ν)} {P : Solver → Prop}
    (keeps : ∀ s t : Solver, s.Grows t → ∀ x y, m s x = some y → m t x = some y)
    (stable : ∀ s t : Solver, s.Grows t → P s → P t)
    (each : ∀ s : Solver, s.Valid nodes → P s → ∀ x y, m s x = some y →
      Enacts nodes s (f s x) (g y))
    {xs : List α} {ys : List β} (same : xs.map (m s) = ys.map some) (valid : s.Valid nodes)
    (start : P s) : Enacts nodes s (xs.foldl f s) (ys.flatMap g) := by
  induction xs generalizing s ys with
  | nil =>
      obtain rfl : ys = [] := by simpa using same.symm
      exact .refl valid
  | cons x xs ih =>
      cases ys with
      | nil => cases same
      | cons y ys =>
          obtain ⟨meant, later⟩ := List.cons.inj same
          have first := each s valid start x y meant
          have kept := map_eq_map_some_of_kept (keeps _ _ first.grows) later
          exact first.trans (ih kept first.valid (stable _ _ first.grows start))

theorem Enacts.foldl_objects {f : Solver → Nat → Solver} {g : AbstractObject → List (Finding ν)}
    {P : Solver → Prop} (stable : ∀ s t : Solver, s.Grows t → P s → P t)
    (each : ∀ s : Solver, s.Valid nodes → P s → ∀ i o, s.objects.value? i = some o →
      Enacts nodes s (f s i) (g o))
    {is : List Nat} {os : List AbstractObject} (handed : is.map s.objects.value? = os.map some)
    (valid : s.Valid nodes) (start : P s) : Enacts nodes s (is.foldl f s) (os.flatMap g) :=
  foldl_meant (fun _ _ grown i o here => grown.objects i o here) stable each handed valid start

theorem Enacts.foldl_slots {f : Solver → Property → Solver} {g : Slot → List (Finding ν)}
    {P : Solver → Prop} (stable : ∀ s t : Solver, s.Grows t → P s → P t)
    (each : ∀ s : Solver, s.Valid nodes → P s → ∀ p sl, (s.tables nodes).slot? p = some sl →
      Enacts nodes s (f s p) (g sl))
    {ps : List Property} {slots : List Slot}
    (same : ps.map (s.tables nodes).slot? = slots.map some) (valid : s.Valid nodes) (start : P s) :
    Enacts nodes s (ps.foldl f s) (slots.flatMap g) :=
  foldl_meant (m := fun s => (s.tables nodes).slot?)
    (fun _ _ grown _ _ here => (grown.tables nodes).slot? here) stable each same valid start

theorem isObject_eq {i : Nat} {o : AbstractObject} (handed : s.objects.value? i = some o) :
    s.isObject i = !o.isPrimitive := by
  simp [isObject, handed]

theorem enacts_load (valid : s.Valid nodes) {p : Property} {dst i : Nat} {sl : Slot}
    {q : Place ν} {o : AbstractObject} (slot : (s.tables nodes).slot? p = some sl)
    (target : (s.tables nodes).place? dst = some q) (handed : s.objects.value? i = some o) :
    Enacts nodes s (s.load p dst i) (sl.loadFindings s.reflection q o) := by
  unfold load Slot.loadFindings
  rw [isObject_eq handed]
  cases o.isPrimitive with
  | true => exact .refl valid
  | false =>
      have fields : Enacts nodes s ((p.readSet s.reflection).foldl (readField i dst) s)
          ((sl.readSet s.reflection).flatMap (Slot.readFindings o q)) :=
        Enacts.foldl_slots
          (P := fun s => s.objects.value? i = some o ∧ (s.tables nodes).place? dst = some q)
          (fun s t grown here => ⟨grown.objects _ _ here.1, (grown.tables nodes).place? here.2⟩)
          (fun s valid here p sl slot => enacts_readField valid here.1 here.2 slot)
          (Property.map_slot?_readSet _ slot) valid ⟨handed, target⟩
      simp only [Bool.not_false, ↓reduceIte, Bool.false_eq_true]
      rw [Property.isInherited_eq slot]
      cases sl.isInherited with
      | false => simpa using fields
      | true =>
          have extended := fields.grows.tables nodes
          have handed := fields.grows.objects _ _ handed
          have link := enacts_field fields.valid handed (Tables.slot?_proto _)
          have later := link.grows.tables nodes
          have attached := enacts_addConstraint link.valid
            (place?_field handed (Tables.slot?_proto _))
            (Tables.demand?_load (later.slot? (extended.slot? slot))
              (later.place? (extended.place? target)))
          exact fields.trans (link.trans attached)

theorem enacts_store (valid : s.Valid nodes) {p : Property} {src i : Nat} {sl : Slot}
    {q : Place ν} {o : AbstractObject} (slot : (s.tables nodes).slot? p = some sl)
    (source : (s.tables nodes).place? src = some q) (handed : s.objects.value? i = some o) :
    Enacts nodes s (s.store p src i) (sl.storeFindings s.reflection q o) := by
  unfold store Slot.storeFindings
  rw [isObject_eq handed]
  cases o.isPrimitive with
  | true => exact .refl valid
  | false =>
      exact Enacts.foldl_slots
        (P := fun s => s.objects.value? i = some o ∧ (s.tables nodes).place? src = some q)
        (fun s t grown here => ⟨grown.objects _ _ here.1, (grown.tables nodes).place? here.2⟩)
        (fun s valid here p sl slot => enacts_writeField valid here.1 here.2 slot)
        (Property.map_slot?_writeSet _ slot) valid ⟨handed, source⟩

/-- A key that names nothing known names the unknown property, if that is modelled. -/
theorem enacts_unknownKey (valid : s.Valid nodes) :
    Enacts nodes s s
        ((if s.reflection.modelsUnknown then some Slot.unknownName else none).elim []
          Slot.mentions) ∧
      (if s.reflection.modelsUnknown then some Property.unknownName else none).map
          (s.tables nodes).slot? =
        (if s.reflection.modelsUnknown then some Slot.unknownName else none).map some := by
  cases s.reflection.modelsUnknown with
  | true => exact ⟨.refl valid, rfl⟩
  | false => exact ⟨.refl valid, rfl⟩

theorem enacts_keyProperty (valid : s.Valid nodes) {i : Nat} {o : AbstractObject}
    (handed : s.objects.value? i = some o) :
    Enacts nodes s (s.keyProperty i).2 (o.keyFindings s.reflection) ∧
      (s.keyProperty i).1.map ((s.keyProperty i).2.tables nodes).slot? =
        (o.keySlot? s.reflection).map some := by
  unfold keyProperty AbstractObject.keyFindings
  rw [handed]
  cases o with
  | constant v =>
      cases v with
      | number x => exact ⟨.refl valid, rfl⟩
      | boolean b => exact enacts_unknownKey valid
      | string n =>
          simp only [AbstractObject.keySlot?]
          cases Number.isElementIndex n with
          | true => exact ⟨.refl valid, rfl⟩
          | false =>
              cases s.reflection.resolvesStrings with
              | false => exact ⟨.refl valid, rfl⟩
              | true =>
                  refine ⟨enacts_name valid n, ?_⟩
                  have known := value?_name s n
                  simpa [Tables.slot?, tables] using known
  | constantKind kind =>
      cases kind with
      | number => exact ⟨.refl valid, rfl⟩
      | string => exact enacts_unknownKey valid
      | boolean => exact enacts_unknownKey valid
  | allocation site context => exact enacts_unknownKey valid
  | builtin b => exact enacts_unknownKey valid

/-- Adds a property to a list, unless the list holds it. -/
def insertProperty (ps : List Property) (p : Option Property) : List Property :=
  p.elim ps fun q => if q ∈ ps then ps else ps ++ [q]

theorem collectProperty_eq (ps : List Property) (s : Solver) (i : Nat) :
    collectProperty (ps, s) i =
      (insertProperty ps (s.keyProperty i).1, (s.keyProperty i).2) := by
  unfold collectProperty insertProperty
  dsimp only
  cases (s.keyProperty i).1 <;> rfl

/-- The properties after adding one are meant if those before and this one are. -/
theorem map_insertProperty {t : Tables ν} {ps : List Property} {slots : List Slot}
    (named : ps.map t.slot? = slots.map some) {p : Option Property} {sl : Option Slot}
    (meant : p.map t.slot? = sl.map some) :
    ∃ found : List Slot, (insertProperty ps p).map t.slot? = found.map some ∧
      ∀ x, x ∈ found ↔ x ∈ slots ∨ sl = some x := by
  cases p with
  | none =>
      obtain rfl : sl = none := by simpa using meant.symm
      exact ⟨slots, named, by simp⟩
  | some q =>
      obtain ⟨x, rfl, stands⟩ := Option.map_eq_some_iff.mp meant.symm
      simp only [insertProperty, Option.elim_some]
      split
      · rename_i known
        have found : x ∈ slots := (mem_iff_of_map_eq named x).mpr ⟨q, known, stands.symm⟩
        refine ⟨slots, named, fun y => ⟨.inl, fun h => h.elim id fun same => ?_⟩⟩
        exact Option.some.inj same ▸ found
      · refine ⟨slots ++ [x], by simp [named, stands], fun y => ?_⟩
        rw [List.mem_append, List.mem_singleton, Option.some.injEq, eq_comm (a := y)]

/-- Collecting the properties that keys name finds just the slots of the keys. -/
theorem enacts_collect (valid : s.Valid nodes) {ps : List Property} {slots : List Slot}
    (named : ps.map (s.tables nodes).slot? = slots.map some) {is : List Nat}
    {keys : List AbstractObject} (handed : is.map s.objects.value? = keys.map some) :
    Enacts nodes s (is.foldl collectProperty (ps, s)).2
        (keys.flatMap (·.keyFindings s.reflection)) ∧
      ∃ found : List Slot, (is.foldl collectProperty (ps, s)).1.map
          ((is.foldl collectProperty (ps, s)).2.tables nodes).slot? = found.map some ∧
        ∀ sl, sl ∈ found ↔ sl ∈ slots ∨ ∃ k ∈ keys, k.keySlot? s.reflection = some sl := by
  induction is generalizing s ps slots keys with
  | nil =>
      obtain rfl : keys = [] := by simpa using handed.symm
      exact ⟨.refl valid, slots, named, fun sl => by simp⟩
  | cons i is ih =>
      cases keys with
      | nil => cases handed
      | cons k keys =>
          obtain ⟨here, later⟩ := List.cons.inj handed
          obtain ⟨first, meant⟩ := enacts_keyProperty valid here
          have kept := map_eq_map_some_of_kept (fun j o => first.grows.objects j o) later
          have still := map_eq_map_some_of_kept
            (fun p sl => (first.grows.tables nodes).slot? (p := p) (s := sl)) named
          obtain ⟨found, collected, mem⟩ := map_insertProperty still meant
          rw [List.foldl_cons, List.flatMap_cons, collectProperty_eq]
          obtain ⟨rest, all, named, mem'⟩ := ih first.valid collected kept
          rw [first.grows.reflection] at rest mem'
          refine ⟨first.trans rest, all, named, fun sl => ?_⟩
          simp only [mem', mem, List.mem_cons, exists_eq_or_imp, or_assoc]

theorem Valid.objects_of_members (valid : s.Valid nodes) (k : Nat) :
    ∃ os : List AbstractObject, (s.members k).map s.objects.value? = os.map some :=
  exists_map_eq fun i held =>
    (s.objects.value?_isSome_iff i).mpr (valid.members k i held).2

/-- The objects that a location holds are those that its place is known to hold. -/
theorem mem_objects_iff (distinct : (s.tables nodes).NodesDistinct) {k : Nat} {p : Place ν}
    (here : (s.tables nodes).place? k = some p) {os : List AbstractObject}
    (handed : (s.members k).map s.objects.value? = os.map some) (o : AbstractObject) :
    o ∈ os ↔ s.Knows nodes (.holds p o) := by
  rw [mem_iff_of_map_eq handed]
  constructor
  · rintro ⟨i, held, known⟩
    exact .holds here known held
  · intro known
    cases known with
    | holds there known held =>
        obtain rfl := Tables.place?_inj distinct here there
        exact ⟨_, held, known⟩

/-- What is done for a constraint that depends on a key, for all objects of a base and all
properties that the keys name. -/
theorem enacts_dynamic (valid : s.Valid nodes) (distinct : (s.tables nodes).NodesDistinct)
    {object key other : Nat} {b k q : Place ν} (base : (s.tables nodes).place? object = some b)
    (named : (s.tables nodes).place? key = some k)
    (value : (s.tables nodes).place? other = some q)
    {f : Solver → Property → Nat → Nat → Solver} {g : Slot → AbstractObject → List (Finding ν)}
    (each : ∀ s' : Solver, s'.Valid nodes → s'.reflection = s.reflection → ∀ p sl i o,
      (s'.tables nodes).slot? p = some sl → (s'.tables nodes).place? other = some q →
      s'.objects.value? i = some o → Enacts nodes s' (f s' p other i) (g sl o)) :
    ∃ js, Enacts nodes s
        ((s.facts object).toList.foldl
          (fun t o => (((s.require object).require key).keyProperties (s.facts key)).1.foldl
            (fun t p => f t p other o) t)
          (((s.require object).require key).keyProperties (s.facts key)).2) js ∧
      ∀ j, j ∈ js ↔
        (∃ n, s.Knows nodes (.holds k n) ∧ j ∈ n.keyFindings s.reflection) ∨
        ∃ o n sl, s.Knows nodes (.holds b o) ∧ s.Knows nodes (.holds k n) ∧
          n.keySlot? s.reflection = some sl ∧ j ∈ g sl o := by
  obtain ⟨os, objects⟩ := valid.objects_of_members object
  obtain ⟨ns, keys⟩ := valid.objects_of_members key
  have memObjects := mem_objects_iff distinct base objects
  have memKeys := mem_objects_iff distinct named keys
  have required : (s.require object).require key = s := by
    simp [require, valid.lt_size base, valid.lt_size named]
  rw [required]
  have nothing : ([] : List Property).map (s.tables nodes).slot? = [].map some := rfl
  obtain ⟨collected, slots, meant, memSlots⟩ := enacts_collect valid nothing keys
  -- the keys are read before the first object is looked at, so that both loops run over
  -- lists that the accesses in between do not change
  have all : Enacts nodes (s.keyProperties (s.facts key)).2
      ((s.facts object).toList.foldl
        (fun t o => (s.keyProperties (s.facts key)).1.foldl (fun t p => f t p other o) t)
        (s.keyProperties (s.facts key)).2)
      (os.flatMap fun o => slots.flatMap fun sl => g sl o) := by
    refine Enacts.foldl_objects
      (P := fun t => t.reflection = s.reflection ∧ (t.tables nodes).place? other = some q ∧
        (s.keyProperties (s.facts key)).1.map (t.tables nodes).slot? = slots.map some)
      (fun t u grown here => ⟨grown.reflection.trans here.1, (grown.tables nodes).place? here.2.1,
        map_eq_map_some_of_kept (fun _ _ => (grown.tables nodes).slot?) here.2.2⟩)
      ?_ (map_eq_map_some_of_kept (fun i o => collected.grows.objects i o) objects)
      collected.valid
      ⟨collected.grows.reflection, (collected.grows.tables nodes).place? value, meant⟩
    intro t valid here i o handed
    refine Enacts.foldl_slots
      (P := fun u => u.reflection = s.reflection ∧ (u.tables nodes).place? other = some q ∧
        u.objects.value? i = some o)
      (fun t u grown here => ⟨grown.reflection.trans here.1, (grown.tables nodes).place? here.2.1,
        grown.objects _ _ here.2.2⟩)
      ?_ here.2.2 valid ⟨here.1, here.2.1, handed⟩
    intro u valid here p sl slot
    exact each u valid here.1 p sl i o slot here.2.1 here.2.2
  refine ⟨_, collected.trans all, fun j => ?_⟩
  simp only [List.mem_append, List.mem_flatMap, memKeys, memObjects, memSlots, List.not_mem_nil,
    false_or]
  refine or_congr_right ?_
  constructor
  · rintro ⟨o, held, sl, ⟨n, key, slot⟩, asked⟩
    exact ⟨o, n, sl, held, key, slot, asked⟩
  · rintro ⟨o, n, sl, held, key, slot, asked⟩
    exact ⟨o, held, sl, ⟨n, key, slot⟩, asked⟩

/-- Looking at a constraint enacts just what its demand asks for. -/
theorem enacts_apply (valid : s.Valid nodes) (distinct : (s.tables nodes).NodesDistinct)
    {facts : IdSet} {os : List AbstractObject}
    (handed : facts.toList.map s.objects.value? = os.map some) {c : Constraint} {d : Demand ν}
    (meant : (s.tables nodes).demand? c = some d) :
    ∃ js, Enacts nodes s (s.apply facts c) js ∧
      ∀ j, j ∈ js ↔ d.Asks s.reflection (· ∈ os) (fun p o => s.Knows nodes (.holds p o)) j := by
  cases Tables.StandsFor.of_demand? meant with
  | @load p dst sl q slot target =>
      refine ⟨os.flatMap (sl.loadFindings s.reflection q), ?_, fun j => ?_⟩
      · exact Enacts.foldl_objects
          (P := fun t => t.reflection = s.reflection ∧ (t.tables nodes).slot? p = some sl ∧
            (t.tables nodes).place? dst = some q)
          (fun t u grown here => ⟨grown.reflection.trans here.1,
            (grown.tables nodes).slot? here.2.1, (grown.tables nodes).place? here.2.2⟩)
          (fun t valid here i o known => here.1 ▸ enacts_load valid here.2.1 here.2.2 known)
          handed valid ⟨rfl, slot, target⟩
      · rw [List.mem_flatMap]
        constructor
        · rintro ⟨o, member, asked⟩
          exact .load member asked
        · intro asks
          cases asks with
          | load member asked => exact ⟨_, member, asked⟩
  | @store p src sl q slot source =>
      refine ⟨os.flatMap (sl.storeFindings s.reflection q), ?_, fun j => ?_⟩
      · exact Enacts.foldl_objects
          (P := fun t => t.reflection = s.reflection ∧ (t.tables nodes).slot? p = some sl ∧
            (t.tables nodes).place? src = some q)
          (fun t u grown here => ⟨grown.reflection.trans here.1,
            (grown.tables nodes).slot? here.2.1, (grown.tables nodes).place? here.2.2⟩)
          (fun t valid here i o known => here.1 ▸ enacts_store valid here.2.1 here.2.2 known)
          handed valid ⟨rfl, slot, source⟩
      · rw [List.mem_flatMap]
        constructor
        · rintro ⟨o, member, asked⟩
          exact .store member asked
        · intro asks
          cases asks with
          | store member asked => exact ⟨_, member, asked⟩
  | @dynamicLoad object key dst b k q base named target =>
      obtain ⟨js, enacted, mem⟩ := enacts_dynamic valid distinct base named target
        (f := fun s p dst o => s.load p dst o)
        (g := fun sl o => sl.loadFindings s.reflection q o)
        fun t valid same p sl i o slot target known => same ▸ enacts_load valid slot target known
      refine ⟨js, enacted, fun j => ?_⟩
      rw [mem]
      constructor
      · rintro (⟨n, key, asked⟩ | ⟨o, n, sl, held, key, slot, asked⟩)
        · exact .loadKey key asked
        · exact .dynamicLoad held key slot asked
      · intro asks
        cases asks with
        | loadKey key asked => exact .inl ⟨_, key, asked⟩
        | dynamicLoad held key slot asked => exact .inr ⟨_, _, _, held, key, slot, asked⟩
  | @dynamicStore object key src b k q base named source =>
      obtain ⟨js, enacted, mem⟩ := enacts_dynamic valid distinct base named source
        (f := fun s p src o => s.store p src o)
        (g := fun sl o => sl.storeFindings s.reflection q o)
        fun t valid same p sl i o slot source known => same ▸ enacts_store valid slot source known
      refine ⟨js, enacted, fun j => ?_⟩
      rw [mem]
      constructor
      · rintro (⟨n, key, asked⟩ | ⟨o, n, sl, held, key, slot, asked⟩)
        · exact .storeKey key asked
        · exact .dynamicStore held key slot asked
      · intro asks
        cases asks with
        | storeKey key asked => exact .inl ⟨_, key, asked⟩
        | dynamicStore held key slot asked => exact .inr ⟨_, _, _, held, key, slot, asked⟩
  | invoke =>
      exact ⟨[], .refl valid, fun j => ⟨nofun, nofun⟩⟩

end Solver

end CallFlow
