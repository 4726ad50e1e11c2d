import CallFlow.Proofs.Flow.Operations

/-! Nothing is lost. In each state on the way, a location that holds more than it has passed on
waits for its turn, and a constraint is expanded, or one of the locations that it looks at waits. -/

namespace CallFlow

namespace Sample

open Operation

/-- What is there before a key is looked up. -/
def furnished : List Operation := things.map request ++ [request (.addFact 0 0), request .work]

/-- What is done once a key is looked up: a location has a turn that does not wait, and one is put
on the worklist that holds nothing. -/
def meddling : List Operation :=
  [push (.propagate 4), request (.addFact 1 3), propagate 0, request (.addFact 3 1),
    request (.addEdge 5 4), request .work, push (.visit 0), request .work,
    request (.addFact 5 2), request .work]

def driven : List Operation :=
  furnished ++ request (.addConstraint 0 lookUp) :: request (.addConstraint 1 lookUp) :: meddling

end Sample

namespace Solver

/-- A location passes on to another one all that it holds, or is that location. -/
def Linked (s : Solver) (a b : Nat) : Prop := a = b ∨ b ∈ s.successors a

/-- A load of a property of an object is expanded: the fields that it reads pass on what they hold,
and it goes on at the link to the inherited object. -/
structure Loaded (s : Solver) (p : Property) (dst object : Nat) : Prop where
  reads : ∀ q ∈ p.readSet s.reflection,
    ∃ f, s.locations.value? f = some (.field object q) ∧ s.Linked f dst
  inherits : p.isInherited = true →
    ∃ f, s.locations.value? f = some (.field object .proto) ∧ .load p dst ∈ s.constraints f

/-- A store to a property of an object is expanded: all fields that it writes are passed what it
writes. -/
def Stored (s : Solver) (p : Property) (src object : Nat) : Prop :=
  ∀ q ∈ p.writeSet s.reflection,
    ∃ f, s.locations.value? f = some (.field object q) ∧ s.Linked src f

/-- A constraint that is attached to a location is expanded for all that the locations hold that it
looks at. Calls are left to whoever builds the call graph. -/
def Expanded (s : Solver) (k : Nat) : Constraint → Prop
  | .load p dst => ∀ o ∈ s.members k, s.isObject o = true → s.Loaded p dst o
  | .store p src => ∀ o ∈ s.members k, s.isObject o = true → s.Stored p src o
  | .dynamicLoad object key dst => ∀ o ∈ s.members object, s.isObject o = true →
      ∀ i ∈ s.members key, ∀ p, (s.keyProperty i).1 = some p → s.Loaded p dst o
  | .dynamicStore object key src => ∀ o ∈ s.members object, s.isObject o = true →
      ∀ i ∈ s.members key, ∀ p, (s.keyProperty i).1 = some p → s.Stored p src o
  | .invoke _ => True

/-- All that was not passed on yet, and each constraint that is not expanded yet, has a location
that waits. -/
structure NothingLost (s : Solver) : Prop where
  edges : ∀ a b, b ∈ s.successors a → s.Waits a ∨ ∀ i ∈ s.members a, i ∈ s.members b
  constraints : ∀ k c, c ∈ s.constraints k →
    (∃ l ∈ c.operands k, s.Waits l) ∨ s.Expanded k c

variable {s : Solver}

section Numbers

variable {o dst src : Nat} {object : AbstractObject} {p q : Property} {sl sq : Slot}
  {x : Place Nat}

theorem location_of_field {f : Nat} (handed : s.objects.value? o = some object)
    (slot : (s.tables some).slot? q = some sq)
    (here : (s.tables some).place? f = some (.field object sq)) :
    s.locations.value? f = some (.field o q) := by
  obtain ⟨l, known, here⟩ := Option.bind_eq_some_iff.mp here
  obtain ⟨o', q', rfl, handed', slot'⟩ := Tables.placeOf?_eq_field_iff.mp here
  obtain rfl := Numbering.value?_inj handed handed'
  obtain rfl := Tables.slot?_inj slot slot'
  exact known

/-- A field whose place is known has a location. -/
theorem exists_field (handed : s.objects.value? o = some object)
    (slot : (s.tables some).slot? q = some sq)
    (known : s.Knows some (.place (.field object sq))) :
    ∃ f, s.locations.value? f = some (.field o q) ∧
      (s.tables some).place? f = some (.field object sq) := by
  cases known with
  | place here => exact ⟨_, location_of_field handed slot here, here⟩

theorem linked_of_flows {a b : Nat} {y : Place Nat} (here : (s.tables some).place? a = some x)
    (there : (s.tables some).place? b = some y) (known : s.Knows some (.flows x y)) :
    s.Linked a b := by
  cases known with
  | self other =>
      left
      exact Tables.place?_inj s.nodesDistinct here there
  | flows other target linked =>
      obtain rfl := Tables.place?_inj s.nodesDistinct other here
      obtain rfl := Tables.place?_inj s.nodesDistinct target there
      exact .inr linked

theorem Loaded.of_knows (handed : s.objects.value? o = some object) (base : s.isObject o = true)
    (slot : (s.tables some).slot? p = some sl) (there : (s.tables some).place? dst = some x)
    (known : Each (s.Knows some) (sl.loadFindings s.reflection x object)) : s.Loaded p dst o := by
  have plain : object.isPrimitive = false := by simpa [isObject_eq handed] using base
  obtain ⟨reads, inherits⟩ := (each_load _ _ _ _).mp known plain
  refine ⟨fun q seen => ?_, fun inherited => ?_⟩
  · obtain ⟨sq, listed, named⟩ := exists_of_map_eq (Property.map_slot?_readSet _ slot) seen
    obtain ⟨place, flows⟩ := reads sq listed
    obtain ⟨f, located, here⟩ := exists_field handed named place
    exact ⟨f, located, linked_of_flows here there flows⟩
  · cases (inherits (Property.isInherited_eq slot ▸ inherited)).2 with
    | attached here meant imposed =>
        obtain rfl := Tables.demand?_inj s.nodesDistinct meant (Tables.demand?_load slot there)
        exact ⟨_, location_of_field handed rfl here, imposed⟩

theorem Stored.of_knows (handed : s.objects.value? o = some object) (base : s.isObject o = true)
    (slot : (s.tables some).slot? p = some sl) (there : (s.tables some).place? src = some x)
    (known : Each (s.Knows some) (sl.storeFindings s.reflection x object)) : s.Stored p src o := by
  have plain : object.isPrimitive = false := by simpa [isObject_eq handed] using base
  intro q written
  obtain ⟨sq, listed, named⟩ := exists_of_map_eq (Property.map_slot?_writeSet _ slot) written
  obtain ⟨place, flows⟩ := (each_store _ _ _ _).mp known plain sq listed
  obtain ⟨f, located, here⟩ := exists_field handed named place
  exact ⟨f, located, linked_of_flows there here flows⟩

/-- A property that a key names is that of a slot which the key has, once the name of the slot is
known. -/
theorem slot?_of_keyProperty (valid : s.Valid some) (handed : s.objects.value? o = some object)
    (named : (s.keyProperty o).1 = some p)
    (known : ∀ sl, object.keySlot? s.reflection = some sl → Each (s.Knows some) sl.mentions) :
    ∃ sl, object.keySlot? s.reflection = some sl ∧ (s.tables some).slot? p = some sl := by
  obtain ⟨enacted, same⟩ := enacts_keyProperty valid handed
  rw [named] at same
  obtain ⟨sl, slot, stands⟩ := Option.map_eq_some_iff.mp same.symm
  refine ⟨sl, slot, ?_⟩
  have before : ∃ q, (s.tables some).slot? q = some sl := by
    cases sl with
    | named n =>
        cases (each_mentions _).mp (known _ slot) n rfl with
        | name member =>
            obtain ⟨i, numbered⟩ := (Numbering.mem_values_iff _ _).mp member
            exact ⟨.named i, Tables.slot?_eq_named_iff.mpr ⟨i, rfl, numbered⟩⟩
    | element => exact ⟨.element, rfl⟩
    | proto => exact ⟨.proto, rfl⟩
    | unknownName => exact ⟨.unknownName, rfl⟩
    | allValues => exact ⟨.allValues, rfl⟩
  obtain ⟨q, here⟩ := before
  rw [Tables.slot?_inj stands.symm ((enacted.grows.tables some).slot? here)]
  exact here

end Numbers

/-- A demand is attached to all that it looks at, if these places all hold something and none of
them waits. -/
def Attended (s : Solver) : Prop :=
  ∀ p d, s.Knows some (.attached p d) →
    (∀ q ∈ d.operands p, ¬ s.Waiting some q ∧ ∃ o, s.Holds some q o) → s.Watches some p d

theorem Twinned.attended (twinned : s.Twinned some) : s.Attended :=
  fun _ _ attached _ => twinned.watches attached

section Expansion

variable {k : Nat} {c : Constraint} {p : Place Nat} {d : Demand Nat}

/-- What a location holds has a number of an object that its place is known to hold. -/
theorem Valid.exists_object (valid : s.Valid some) {i : Nat} (member : i ∈ s.members k)
    (here : (s.tables some).place? k = some p) :
    ∃ o, s.objects.value? i = some o ∧ s.Holds some p o := by
  obtain ⟨o, handed⟩ := (s.objects.value?_isSome_iff i).mpr (valid.members k i member).2
  exact ⟨o, handed, .holds here handed member⟩

/-- A constraint is expanded if all that its demand asks for is known, now that all places hold
something that it looks at. -/
theorem expanded_of_asked (valid : s.Valid some) (here : (s.tables some).place? k = some p)
    (meant : (s.tables some).demand? c = some d)
    (asked : (∀ q ∈ d.operands p, ∃ o, s.Holds some q o) →
      ∀ j, d.Asks s.reflection (s.Holds some p) (s.Holds some) j → s.Knows some j) :
    s.Expanded k c := by
  cases Tables.StandsFor.of_demand? meant with
  | invoke => trivial
  | load slot there =>
      intro i member base
      obtain ⟨o, handed, held⟩ := valid.exists_object member here
      refine .of_knows handed base slot there fun j listed => ?_
      exact asked (by simpa [Demand.operands] using ⟨o, held⟩) j (.load held listed)
  | store slot there =>
      intro i member base
      obtain ⟨o, handed, held⟩ := valid.exists_object member here
      refine .of_knows handed base slot there fun j listed => ?_
      exact asked (by simpa [Demand.operands] using ⟨o, held⟩) j (.store held listed)
  | dynamicLoad from' named there =>
      intro i member base m keyed name which
      obtain ⟨o, handed, held⟩ := valid.exists_object member from'
      obtain ⟨y, text, holds⟩ := valid.exists_object keyed named
      have asked := asked (by simpa [Demand.operands] using ⟨⟨o, held⟩, y, holds⟩)
      obtain ⟨sl, slot, stands⟩ := slot?_of_keyProperty valid text which fun sl slot j listed =>
        asked j (.loadKey holds (by simpa [AbstractObject.keyFindings, slot] using listed))
      exact .of_knows handed base stands there fun j listed =>
        asked j (.dynamicLoad held holds slot listed)
  | dynamicStore from' named there =>
      intro i member base m keyed name which
      obtain ⟨o, handed, held⟩ := valid.exists_object member from'
      obtain ⟨y, text, holds⟩ := valid.exists_object keyed named
      have asked := asked (by simpa [Demand.operands] using ⟨⟨o, held⟩, y, holds⟩)
      obtain ⟨sl, slot, stands⟩ := slot?_of_keyProperty valid text which fun sl slot j listed =>
        asked j (.storeKey holds (by simpa [AbstractObject.keyFindings, slot] using listed))
      exact .of_knows handed base stands there fun j listed =>
        asked j (.dynamicStore held holds slot listed)

end Expansion

/-- A location waits whose place waits. -/
theorem Waiting.waits {k : Nat} {p : Place Nat} (waits : s.Waiting some p)
    (here : (s.tables some).place? k = some p) : s.Waits k := by
  obtain ⟨j, there, waits⟩ := waits
  obtain rfl := Tables.place?_inj s.nodesDistinct there here
  exact waits

/-- In a solver that is tracked nothing is lost, if demands are attached wherever they have to
be. -/
theorem Tracked.nothingLost (tracked : s.Tracked) (attended : s.Attended) : s.NothingLost where
  edges a b linked := by
    by_cases waits : s.Waits a
    · exact .inl waits
    · refine .inr fun i member => ?_
      have bounds := tracked.valid.successors a b linked
      obtain ⟨p, here⟩ := tracked.valid.place bounds.1
      obtain ⟨q, there⟩ := tracked.valid.place bounds.2
      obtain ⟨o, handed, held⟩ := tracked.valid.exists_object member here
      rcases tracked.current.passed p q o (.flows here there linked) held with active | passed
      · exact absurd (active.1.waits here) waits
      · cases passed with
        | holds other again here =>
            obtain rfl := Tables.place?_inj s.nodesDistinct other there
            obtain rfl := Numbering.value?_inj again handed
            exact here
  constraints k c imposed := by
    by_cases waits : ∃ l ∈ c.operands k, s.Waits l
    · exact .inl waits
    · obtain ⟨bound, d, meant⟩ := tracked.valid.constraints k c imposed
      obtain ⟨p, here⟩ := tracked.valid.place bound
      have calm : ∀ q ∈ d.operands p, ¬ s.Waiting some q := by
        intro q operand waiting
        obtain ⟨l, looked, there⟩ := Tables.operand_of_demand? here meant operand
        exact waits ⟨l, looked, waiting.waits there⟩
      -- expansion asks for something only once all operands hold something, and then all of them
      -- watch the demand
      refine .inr (expanded_of_asked tracked.valid here meant fun inhabited j asks => ?_)
      have attached : s.Knows some (.attached p d) := .attached here meant imposed
      have watches := attended p d attached fun q operand =>
        ⟨calm q operand, inhabited q operand⟩
      refine (tracked.current.asked p d j attached watches asks).resolve_left ?_
      rintro ⟨q, operand, active⟩
      exact calm q operand active.1

/-- Between the two operations that attach a constraint to the locations that it looks at, the first
of them waits or holds nothing. -/
theorem Twinned.attended_half {k l : Nat} {c : Constraint} (twinned : s.Twinned some)
    (tracked : s.Tracked) (looks : c.LooksAt k l)
    (permitted : s.permits (.request (.addConstraint k c)) = true) :
    (s.perform (.request (.addConstraint k c))).Attended := by
  change (s.addConstraint k c).2.Attended
  obtain ⟨p, d, here, meant, enacted⟩ := tracked.attaches permitted
  obtain ⟨q, -, operands⟩ := exists_operands_of_looksAt looks here meant
  have source : ∀ j, (s.addConstraint k c).2.Knows some j → ∀ x e, j = .attached x e →
      s.Knows some (.attached x e) ∨ x = p ∧ e = d := by
    refine enacted.sound _ (passing_of_attached _) ?_ ?_
    · rintro j known x e rfl
      exact .inl known
    · rintro j member x e rfl
      exact .inr (by simpa using member)
  intro x e attached ready
  have before : s.Knows some (.attached x e) := by
    rcases source _ attached x e rfl with before | ⟨rfl, rfl⟩
    · exact before
    -- the half that was attached waits unless it is empty, so the other half is not missed yet
    · obtain ⟨calm, o, held⟩ := ready x ((operands x x).mpr (.inl rfl))
      rcases enacted.grows.attached tracked.valid (nodesDistinct _) attached with
        before | waits | none
      · exact before
      · exact absurd waits calm
      · exact absurd held (none o)
  exact fun r operand _ _ => (twinned x e before r operand).mono enacted.grows

/-- Nothing is lost in any state on the way. -/
theorem nothingLost_of_coupled {ops : List Operation} (coupled : Operation.Coupled ops) :
    ∀ {s : Solver}, s.Tracked → s.Twinned some → s.permitsAll ops = true →
      ∀ past, past <+: ops → (s.performAll past).NothingLost := by
  induction coupled with
  | nil =>
      intro s tracked twinned _ past initial
      obtain rfl := List.prefix_nil.mp initial
      exact tracked.nothingLost twinned.attended
  | @whole op ops whole _ ih =>
      intro s tracked twinned permitted past initial
      obtain ⟨first, rest⟩ := Bool.and_eq_true_iff.mp permitted
      rcases List.prefix_cons_iff.mp initial with rfl | ⟨later, rfl, within⟩
      · exact tracked.nothingLost twinned.attended
      · exact ih (tracked.perform first) (twinned.perform tracked first whole) rest later within
  | @both k l c ops looks _ ih =>
      intro s tracked twinned permitted past initial
      obtain ⟨first, rest⟩ := Bool.and_eq_true_iff.mp permitted
      obtain ⟨second, rest⟩ := Bool.and_eq_true_iff.mp rest
      -- the state between the two halves is one on the way
      have half := tracked.perform first
      rcases List.prefix_cons_iff.mp initial with rfl | ⟨later, rfl, shorter⟩
      · exact tracked.nothingLost twinned.attended
      rcases List.prefix_cons_iff.mp shorter with rfl | ⟨later, rfl, within⟩
      · exact half.nothingLost (twinned.attended_half tracked looks first)
      · have lost := ih (half.perform second) (twinned.both tracked looks first) rest later within
        simpa only [performAll] using lost

theorem tracked_new (r : Reflection) : (new r).Tracked where
  valid := valid_new r some
  handed _ waits := nomatch waits
  current := (settled_new r some _).toUpToDate

theorem twinned_new (r : Reflection) : (new r).Twinned some :=
  fun _ _ attached => absurd attached not_knows_new

/-- Whatever is done to a new solver, with numbers that it handed out and with each constraint that
looks at two locations attached to both, nothing is lost in any state on the way. -/
theorem performAll_losesNothing (r : Reflection) (ops : List Operation)
    (permitted : (new r).permitsAll ops = true) (coupled : Operation.Coupled ops) :
    ∀ past, past <+: ops → ((new r).performAll past).NothingLost :=
  nothingLost_of_coupled coupled (tracked_new r) (twinned_new r) permitted

/-- When a function was found for a key, the locations that have yet to see it wait. -/
theorem performAll_losesNothing_driven :
    (new .full).permitsAll Sample.driven = true ∧ Operation.Coupled Sample.driven ∧
      ((new .full).performAll Sample.driven).worklist.items =
        [.propagate 3, .visit 0, .propagate 5] ∧
      ∀ past, past <+: Sample.driven → ((new .full).performAll past).NothingLost := by
  have permitted : (new .full).permitsAll Sample.driven = true := by decide +kernel
  have coupled : Operation.Coupled Sample.driven := by
    have after : Operation.Coupled (Sample.meddling ++ []) := .append rfl .nil
    rw [List.append_nil] at after
    exact .append rfl (.both (.inl ⟨rfl, rfl⟩) after)
  exact ⟨permitted, coupled, by decide +kernel,
    performAll_losesNothing .full Sample.driven permitted coupled⟩

end Solver

end CallFlow
