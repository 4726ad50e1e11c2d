import CallFlow.Proofs.Flow.Requests
import CallFlow.Proofs.Flow.Scope

/-! Working off what waits. While a solver works, it numbers no objects, and no names but those that
its objects spell, so that there is room for so many fields, facts and constraints only. -/

namespace CallFlow

/-- The text that a constant spells. -/
def AbstractObject.spelled? : AbstractObject → Option String
  | .constant (.string n) => some n
  | _ => none

namespace Solver

variable {s t : Solver} {log : TurnLog}

theorem drainWithin_of_idle (idle : s.worklist.items = []) (fuel : Nat) :
    s.drainWithin fuel = ([], s) := by
  cases fuel with
  | zero => rfl
  | succ fuel =>
      have popped : s.worklist.pop = none := (Worklist.pop_eq_none_iff _).mpr idle
      have next : s.next? = none := by simp [next?, popped]
      simp [drainWithin, next]

/-- To work off some items is to work off one of them and then the others. -/
theorem drainWithin_succ (s : Solver) (fuel : Nat) :
    s.drainWithin (fuel + 1) =
      ((s.drainWithin 1).1 ++ ((s.drainWithin 1).2.drainWithin fuel).1,
        ((s.drainWithin 1).2.drainWithin fuel).2) := by
  cases next : s.next? with
  | none =>
      have popped : s.worklist.pop = none := by simpa [next?] using next
      have idle := (Worklist.pop_eq_none_iff _).mp popped
      simp [drainWithin_of_idle idle]
  | some found =>
      obtain ⟨item, rest⟩ := found
      simp only [drainWithin, next]
      cases item <;> rfl

/-- To work off some items is to take as many turns. -/
theorem drainWithin_eq_serveAll (s : Solver) (fuel : Nat) :
    s.drainWithin fuel = s.serveAll (List.replicate fuel .work) := by
  induction fuel generalizing s with
  | zero => rfl
  | succ fuel ih =>
      rw [drainWithin_succ, ih]
      rfl

theorem allowsAll_replicate_work (s : Solver) (n : Nat) :
    s.allowsAll (List.replicate n .work) = true := by
  induction n generalizing s with
  | zero => rfl
  | succ n ih => exact ih _

/-- Working adds only what follows, and leaves a solver in order. -/
theorem Orderly.drainWithin (orderly : s.Orderly log) (fuel : Nat) :
    Serves s (s.drainWithin fuel).2 [] ∧
      (s.drainWithin fuel).2.Orderly (log ++ (s.drainWithin fuel).1) := by
  rw [drainWithin_eq_serveAll]
  have served := orderly.serveAll (allowsAll_replicate_work s fuel) (.refl _)
  have nothing : ∀ t : Tables Nat,
      (List.replicate fuel Request.work).flatMap (Request.findings t) = [] := by
    intro t
    refine List.flatMap_eq_nil_iff.mpr fun q member => ?_
    rw [List.eq_of_mem_replicate member]
    rfl
  rwa [nothing] at served

/-- Each turn is paid for by what it finds, or by what waited. -/
theorem Orderly.paid (orderly : s.Orderly log) (fuel : Nat) :
    (s.drainWithin fuel).2.worklist.items = [] ∨
      fuel + (s.drainWithin fuel).2.pending + s.gains ≤
        s.pending + (s.drainWithin fuel).2.gains := by
  induction fuel generalizing s log with
  | zero => exact .inr (by simp [Solver.drainWithin])
  | succ fuel ih =>
      rcases serve_work orderly.keys with ⟨idle, -⟩ | ⟨k, rest, takes, same⟩
      · rw [drainWithin_of_idle idle]
        exact .inl idle
      · have after : (s.drainWithin (fuel + 1)).2 = ((s.turn k rest).drainWithin fuel).2 := by
          rw [drainWithin_succ, show s.drainWithin 1 = s.serve .work from rfl, same]
        rw [after]
        refine (ih (orderly.turn takes).2).imp_right fun later => ?_
        obtain ⟨valid, _, _, _, _, enacted, _⟩ := orderly.enacts_turn takes
        have paid := (enacted.builds.accounts valid.ascending).paid
        have taken : s.pending = (s.withWork rest).pending + 1 := takes.size
        have gains : (s.withWork rest).gains = s.gains := rfl
        omega

def workNames (s : Solver) : List String :=
  s.names.values ++ s.objects.values.filterMap AbstractObject.spelled?

def workPlaces (s : Solver) : List (Place Nat) :=
  s.locations.values.filterMap (s.tables some).placeOf? ++
    (pairs s.objects.values (Slot.among s.workNames)).map fun x => .field x.1 x.2

def workDemands (s : Solver) : List (Demand Nat) :=
  (s.cells.toList.flatMap (·.constraints.values)).filterMap (s.tables some).demand? ++
    (pairs (Slot.among s.workNames) s.workPlaces).map fun x => .load x.1 x.2

theorem mem_workPlaces_of_place {k : Nat} {p : Place Nat}
    (here : (s.tables some).place? k = some p) : p ∈ s.workPlaces := by
  obtain ⟨l, known, meant⟩ := Option.bind_eq_some_iff.mp here
  have member : l ∈ s.locations.values := (Numbering.mem_values_iff _ l).mpr ⟨k, known⟩
  exact List.mem_append_left _ (List.mem_filterMap.mpr ⟨l, member, meant⟩)

theorem among_of_slot? {p : Property} {sl : Slot} (slot : (s.tables some).slot? p = some sl) :
    sl ∈ Slot.among s.workNames := by
  rw [Slot.mem_among_iff]
  rintro n rfl
  obtain ⟨i, rfl, known⟩ := Tables.slot?_eq_named_iff.mp slot
  exact List.mem_append_left _ ((Numbering.mem_values_iff _ n).mpr ⟨i, known⟩)

theorem within_of_demand? {c : Constraint} {d : Demand Nat}
    (meant : (s.tables some).demand? c = some d) : d.Within s.workNames s.workPlaces := by
  cases Tables.StandsFor.of_demand? meant with
  | load slot target => exact ⟨among_of_slot? slot, mem_workPlaces_of_place target⟩
  | store slot source => exact ⟨among_of_slot? slot, mem_workPlaces_of_place source⟩
  | dynamicLoad base named target => exact mem_workPlaces_of_place target
  | dynamicStore base named source => exact mem_workPlaces_of_place source
  | invoke => trivial

/-- What a solver may come to mention while it works. -/
def scope (s : Solver) : Scope Nat where
  names := s.workNames
  objects := s.objects.values
  places := s.workPlaces
  demands := s.workDemands
  texts n member := List.mem_append_right _ (List.mem_filterMap.mpr ⟨_, member, rfl⟩)
  fields o object sl slot := List.mem_append_right _
    (List.mem_map.mpr ⟨(o, sl), mem_pairs.mpr ⟨object, slot⟩, rfl⟩)
  loads sl slot p place := List.mem_append_right _
    (List.mem_map.mpr ⟨(sl, p), mem_pairs.mpr ⟨slot, place⟩, rfl⟩)
  within d member := by
    rcases List.mem_append.mp member with old | new
    · obtain ⟨c, -, meant⟩ := List.mem_filterMap.mp old
      exact within_of_demand? meant
    · obtain ⟨⟨sl, p⟩, paired, rfl⟩ := List.mem_map.mp new
      exact mem_pairs.mp paired

theorem Valid.admits (valid : s.Valid some) {j : Finding Nat} (known : s.Knows some j) :
    s.scope.Admits j := by
  cases known with
  | name here => exact List.mem_append_left _ here
  | object here => exact here
  | place here => exact mem_workPlaces_of_place here
  | holds here object member =>
      exact ⟨mem_workPlaces_of_place here, (Numbering.mem_values_iff _ _).mpr ⟨_, object⟩⟩
  | self here => exact ⟨mem_workPlaces_of_place here, mem_workPlaces_of_place here⟩
  | flows here there linked => exact ⟨mem_workPlaces_of_place here, mem_workPlaces_of_place there⟩
  | @attached k c p d here meant imposed =>
      refine ⟨mem_workPlaces_of_place here, List.mem_append_left _ (List.mem_filterMap.mpr ?_)⟩
      have bound := (valid.constraints k c imposed).1
      have cell : s.cell k ∈ s.cells.toList := by simp [Solver.cell, Array.getD, bound]
      exact ⟨c, List.mem_flatMap.mpr ⟨_, cell, imposed⟩, meant⟩

theorem Serves.admits (served : Serves s t []) (valid : s.Valid some) :
    ∀ j, t.Knows some j → s.scope.Admits j :=
  served.sound _ (s.scope.flowing _) (fun _ => valid.admits) (by simp)

theorem weight_eq (s : Solver) : s.weight = s.names.size + s.objects.size + s.locations.size +
    s.counters.edges + s.gains + s.pending + 8 := by
  unfold weight gains
  omega

theorem length_among (names : List String) : (Slot.among names).length = names.length + 4 := by
  simp [Slot.among]

theorem length_workNames (s : Solver) : (Slot.among s.workNames).length ≤ s.weight := by
  have spelled := List.length_filterMap_le AbstractObject.spelled? s.objects.values
  have weight := s.weight_eq
  simp only [Numbering.size_eq_length_values] at weight
  simp only [length_among, workNames, List.length_append]
  omega

theorem length_workPlaces (s : Solver) : s.workPlaces.length ≤ s.weight ^ 2 := by
  have old := List.length_filterMap_le (s.tables some).placeOf? s.locations.values
  have weight := s.weight_eq
  simp only [Numbering.size_eq_length_values] at weight
  have fields : s.objects.values.length * (Slot.among s.workNames).length ≤
      s.objects.values.length * s.weight := Nat.mul_le_mul_left _ s.length_workNames
  have one : 1 ≤ s.weight := by omega
  have places : s.locations.values.length * 1 ≤ s.locations.values.length * s.weight :=
    Nat.mul_le_mul_left _ one
  have all : (s.locations.values.length + s.objects.values.length) * s.weight ≤
      s.weight * s.weight := Nat.mul_le_mul_right _ (by omega)
  rw [Nat.add_mul] at all
  simp only [workPlaces, List.length_append, List.length_map, length_pairs, Nat.pow_two]
  omega

theorem length_workDemands (counted : s.Counted) : s.workDemands.length ≤ s.weight ^ 4 := by
  have old := List.length_filterMap_le (s.tables some).demand?
    (s.cells.toList.flatMap (·.constraints.values))
  have imposed : (s.cells.toList.flatMap (·.constraints.values)).length ≤ s.gains := by
    refine Nat.le_trans (length_flatMap_le (g := (·.constraints.size)) fun c _ => ?_) ?_
    · exact Nat.le_of_eq (Numbering.size_eq_length_values _).symm
    · have total : s.counters.constraints = sumOver (·.constraints.size) s.cells.toList :=
        counted.constraints
      unfold gains
      omega
  have weight := s.weight_eq
  have loads : (Slot.among s.workNames).length * s.workPlaces.length ≤ s.weight ^ 3 :=
    mul_le_pow (m := 1) (n := 2) (by simpa using s.length_workNames) s.length_workPlaces
  have least : s.weight ^ 1 ≤ s.weight ^ 3 := pow_le_pow (c := 7) (by omega) (by omega)
  refine le_pow_succ (c := 8) (by omega) ?_
  simp only [workDemands, List.length_append, List.length_map, length_pairs]
  rw [Nat.pow_one] at least
  omega

/-- However long a solver works, it finds no more than there is room for. -/
theorem Orderly.gains_le (orderly : s.Orderly log) (fuel : Nat) :
    (s.drainWithin fuel).2.gains ≤ s.weight ^ 7 := by
  obtain ⟨served, after⟩ := orderly.drainWithin fuel
  have admitted := served.admits orderly.valid
  have weight := s.weight_eq
  have objects : s.scope.objects.length ≤ s.weight ^ 1 := by
    have size : s.scope.objects.length = s.objects.size := (Numbering.size_eq_length_values _).symm
    rw [size, Nat.pow_one]
    omega
  have facts := Counted.facts_le after.valid (nodesDistinct _) admitted after.counted
  have constraints := Counted.constraints_le after.valid (nodesDistinct _) admitted after.counted
  have few : s.scope.places.length * s.scope.objects.length ≤ s.weight ^ 3 :=
    mul_le_pow (m := 2) (n := 1) s.length_workPlaces objects
  have many : s.scope.places.length * s.scope.demands.length ≤ s.weight ^ 6 :=
    mul_le_pow (m := 2) (n := 4) s.length_workPlaces (length_workDemands orderly.counted)
  have least : s.weight ^ 3 ≤ s.weight ^ 6 := pow_le_pow (c := 7) (by omega) (by omega)
  refine le_pow_succ (c := 8) (by omega) ?_
  unfold gains
  omega

/-- A solver that works off its whole worklist comes to an end. -/
theorem Orderly.idle_drain (orderly : s.Orderly log) : s.drain.2.worklist.items = [] := by
  have found := orderly.gains_le (s.weight.pow 8)
  have weight := s.weight_eq
  -- so many turns would have found more than there is room for
  refine (orderly.paid (s.weight.pow 8)).resolve_right fun paid => ?_
  have one : s.weight ^ 1 ≤ s.weight ^ 7 := pow_le_pow (c := 7) (by omega) (by omega)
  have power : s.weight.pow 8 = s.weight ^ 7 * s.weight := rfl
  have large : s.weight ^ 7 * 8 ≤ s.weight ^ 7 * s.weight := Nat.mul_le_mul_left _ (by omega)
  rw [Nat.pow_one] at one
  omega

end Solver

end CallFlow
