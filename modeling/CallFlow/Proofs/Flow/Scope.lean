import CallFlow.Proofs.Counting
import CallFlow.Proofs.Flow.Cost
import CallFlow.Proofs.Flow.Rules

/-! What flow can mention. It makes nothing new but fields of objects that are there and loads that
go on to them, so a solver that stays among these finds no more than there is room for. -/

namespace CallFlow

variable {ν : Type}

def Slot.among (names : List String) : List Slot :=
  names.map .named ++ [.element, .proto, .unknownName, .allValues]

/-- What a demand leads on to is made of some names and places. -/
def Demand.Within (names : List String) (places : List (Place ν)) : Demand ν → Prop
  | load s p | store s p => s ∈ Slot.among names ∧ p ∈ places
  | dynamicLoad _ _ p | dynamicStore _ _ p => p ∈ places
  | invoke _ _ _ => True

/-- Names, objects, places and demands that flow does not lead out of. -/
structure Scope (ν : Type) where
  names : List String
  objects : List AbstractObject
  places : List (Place ν)
  demands : List (Demand ν)
  texts : ∀ n, .constant (.string n) ∈ objects → n ∈ names
  fields : ∀ o ∈ objects, ∀ s ∈ Slot.among names, .field o s ∈ places
  loads : ∀ s ∈ Slot.among names, ∀ p ∈ places, .load s p ∈ demands
  within : ∀ d ∈ demands, d.Within names places

namespace Slot

variable {names : List String} {s q : Slot} {r : Reflection}

@[simp]
theorem named_mem_among {n : String} : named n ∈ among names ↔ n ∈ names := by
  simp [among]

theorem mem_among_iff : s ∈ among names ↔ ∀ n, s = named n → n ∈ names := by
  cases s <;> simp [among]

theorem readSet_among (known : s ∈ among names) (seen : q ∈ s.readSet r) : q ∈ among names := by
  rw [mem_among_iff] at known ⊢
  rintro n rfl
  cases s <;> simp only [readSet] at seen <;> (try split at seen) <;> simp_all

theorem writeSet_among (known : s ∈ among names) (written : q ∈ s.writeSet r) :
    q ∈ among names := by
  rw [mem_among_iff] at known ⊢
  rintro n rfl
  cases s <;> simp only [writeSet] at written <;> (try split at written) <;> simp_all

end Slot

/-- A key names what its text spells, or something that needs no name. -/
theorem AbstractObject.text_of_keySlot? {r : Reflection} {k : AbstractObject} {n : String}
    (slot : k.keySlot? r = some (.named n)) : k = .constant (.string n) := by
  unfold keySlot? at slot
  split at slot
  · cases slot
  · cases slot
  · split at slot
    · cases slot
    · split at slot <;> cases slot
      rfl
  · split at slot <;> cases slot

namespace Scope

variable (c : Scope ν)

/-- A finding of flow mentions only what is in scope. -/
def Admits : Finding ν → Prop
  | .name n => n ∈ c.names
  | .object o => o ∈ c.objects
  | .place p => p ∈ c.places
  | .holds p o => p ∈ c.places ∧ o ∈ c.objects
  | .flows p q => p ∈ c.places ∧ q ∈ c.places
  | .attached p d => p ∈ c.places ∧ d ∈ c.demands
  | .node _ | .site _ _ | .edge _ _ _ | .binding _ _ _ _ _ => False

variable {c} {r : Reflection} {s : Slot} {p : Place ν} {o k : AbstractObject}

theorem keySlot_among (known : k ∈ c.objects) (slot : k.keySlot? r = some s) :
    s ∈ Slot.among c.names := by
  rw [Slot.mem_among_iff]
  rintro n rfl
  exact c.texts n (AbstractObject.text_of_keySlot? slot ▸ known)

theorem admits_key (known : k ∈ c.objects) : Each c.Admits (k.keyFindings r) := by
  refine (each_elim _ _).mpr fun s slot => (each_mentions s).mpr fun n same => ?_
  exact Slot.named_mem_among.mp (same ▸ keySlot_among known slot)

theorem admits_load (slot : s ∈ Slot.among c.names) (place : p ∈ c.places)
    (object : o ∈ c.objects) : Each c.Admits (s.loadFindings r p o) := by
  refine (each_load _ _ _ _).mpr fun _ => ⟨fun q seen => ?_, fun _ => ?_⟩
  · have field := c.fields o object q (Slot.readSet_among slot seen)
    exact ⟨field, field, place⟩
  · have proto := c.fields o object .proto (by simp [Slot.among])
    exact ⟨proto, proto, c.loads s slot p place⟩

theorem admits_store (slot : s ∈ Slot.among c.names) (place : p ∈ c.places)
    (object : o ∈ c.objects) : Each c.Admits (s.storeFindings r p o) := by
  refine (each_store _ _ _ _).mpr fun _ q written => ?_
  have field := c.fields o object q (Slot.writeSet_among slot written)
  exact ⟨field, place, field⟩

/-- What flows mentions only what is in scope. -/
theorem flowing (c : Scope ν) (r : Reflection) : Solver.Flowing r c.Admits where
  self _ place := ⟨place, place⟩
  pass _ _ _ linked held := ⟨linked.2, held.2⟩
  asked p d j attached asks := by
    have within := c.within d attached.2
    cases asks with
    | load held member => exact admits_load within.1 within.2 held.2 j member
    | store held member => exact admits_store within.1 within.2 held.2 j member
    | loadKey key member => exact admits_key key.2 j member
    | storeKey key member => exact admits_key key.2 j member
    | dynamicLoad held key slot member =>
        exact admits_load (keySlot_among key.2 slot) within held.2 j member
    | dynamicStore held key slot member =>
        exact admits_store (keySlot_among key.2 slot) within held.2 j member

end Scope

namespace Solver

variable {s : Solver} {nodes : Nat → Option ν} {c : Scope ν}

/-- What all cells amount to, if each amounts to little. -/
theorem total_le {f : Cell → Nat} {b : Nat} (each : ∀ k, k < s.cells.size → f (s.cell k) ≤ b) :
    s.total f ≤ s.cells.size * b := by
  unfold total
  rw [← Array.length_toList]
  refine sumOver_le fun cell member => ?_
  obtain ⟨k, bound, rfl⟩ := List.mem_iff_getElem.mp member
  have size : k < s.cells.size := by simpa using bound
  simpa [cell, Array.getD, size] using each k size

section Room

variable (valid : s.Valid nodes) (distinct : (s.tables nodes).NodesDistinct)
  (admitted : ∀ j, s.Knows nodes j → c.Admits j)

include valid admitted

include distinct in
theorem Valid.size_cells_le : s.cells.size ≤ c.places.length := by
  rw [valid.size]
  refine length_le_of_stand (R := fun l p => (s.tables nodes).placeOf? l = some p)
    s.locations.nodup (fun l member => ?_) fun _ _ _ => Tables.placeOf?_inj distinct
  obtain ⟨k, here⟩ := (Numbering.mem_values_iff _ l).mp member
  obtain ⟨p, place⟩ := valid.locations k l here
  exact ⟨p, admitted _ (.place (Option.bind_eq_some_iff.mpr ⟨l, here, place⟩)), place⟩

theorem Valid.size_facts_le (k : Nat) : (s.facts k).size ≤ c.objects.length := by
  refine length_le_of_stand (R := fun i o => s.objects.value? i = some o) (valid.ascending k).nodup
    (fun i member => ?_) fun _ _ _ => Numbering.value?_inj
  obtain ⟨cell, object⟩ := valid.members k i member
  obtain ⟨p, place⟩ := valid.place cell
  obtain ⟨o, known⟩ := (s.objects.value?_isSome_iff i).mpr object
  exact ⟨o, (admitted _ (.holds place known member)).2, known⟩

include distinct in
theorem Valid.size_constraints_le (k : Nat) :
    (s.cell k).constraints.size ≤ c.demands.length := by
  refine length_le_of_stand (R := fun x d => (s.tables nodes).demand? x = some d)
    (s.cell k).constraints.nodup (fun x member => ?_) fun _ _ _ => Tables.demand?_inj distinct
  obtain ⟨cell, d, meant⟩ := valid.constraints k x member
  obtain ⟨p, place⟩ := valid.place cell
  exact ⟨d, (admitted _ (.attached place meant member)).2, meant⟩

include distinct

theorem Counted.facts_le (counted : s.Counted) :
    s.counters.facts ≤ c.places.length * c.objects.length := by
  rw [counted.facts]
  refine Nat.le_trans (total_le fun k _ => valid.size_facts_le admitted k) ?_
  exact Nat.mul_le_mul_right _ (valid.size_cells_le distinct admitted)

theorem Counted.constraints_le (counted : s.Counted) :
    s.counters.constraints ≤ c.places.length * c.demands.length := by
  rw [counted.constraints]
  refine Nat.le_trans (total_le fun k _ => valid.size_constraints_le distinct admitted k) ?_
  exact Nat.mul_le_mul_right _ (valid.size_cells_le distinct admitted)

end Room

end Solver

end CallFlow
