import CallFlow.Dictionary

/-! Numbering of values: the numbers 0, 1, 2, … in the order in which values are first seen. The
list of values only grows at its end and holds each value once, and the dictionary that finds the
numbers is the one that these values make, so that a numbering is given by its values. -/

namespace CallFlow

def Dictionary.addNumbered {α : Type} [DecidableEq α] [Placed α] (d : Dictionary α Nat)
    (first : Nat) : List α → Dictionary α Nat
  | [] => d
  | v :: vs => (d.add v first).addNumbered (first + 1) vs

namespace Dictionary

variable {α : Type} [DecidableEq α] [Placed α]

theorem get?_addNumbered (d : Dictionary α Nat) (first : Nat) (vs : List α) (v : α) :
    (d.addNumbered first vs).get? v =
      (d.get? v).or ((vs.findIdx? fun w => decide (w = v)).map (· + first)) := by
  induction vs generalizing d first with
  | nil => simp [addNumbered]
  | cons w vs ih =>
    simp only [addNumbered, ih, get?_add, List.findIdx?_cons]
    by_cases same : w = v
    · simp [same]
    · have shift : (fun i => i + (first + 1)) = fun i => i + 1 + first := by
        funext i
        omega
      simp [same, Ne.symm same, Function.comp_def, shift]

theorem addNumbered_append (d : Dictionary α Nat) (first : Nat) (vs : List α) (v : α) :
    d.addNumbered first (vs ++ [v]) = (d.addNumbered first vs).add v (first + vs.length) := by
  induction vs generalizing d first with
  | nil => rfl
  | cons w vs ih =>
    simp only [List.cons_append, addNumbered, ih, List.length_cons]
    rw [show first + 1 + vs.length = first + (vs.length + 1) by omega]

end Dictionary

/-- The values seen so far, in the order of their numbers. -/
structure Numbering (α : Type) [DecidableEq α] [Placed α] where
  array : Array α := #[]
  numbers : Dictionary α Nat := .empty
  numbers_eq : numbers = Dictionary.empty.addNumbered 0 array.toList := by rfl
  nodup : array.toList.Nodup := by simp

namespace Numbering

variable {α : Type} [DecidableEq α] [Placed α]

def empty : Numbering α := {}

instance : Inhabited (Numbering α) := ⟨empty⟩

def values (t : Numbering α) : List α := t.array.toList

@[ext]
theorem ext {s t : Numbering α} (same : s.values = t.values) : s = t := by
  obtain ⟨array, _, rfl, _⟩ := s
  obtain ⟨_, _, rfl, _⟩ := t
  obtain rfl := Array.toList_inj.mp same
  rfl

instance : DecidableEq (Numbering α) := fun s t =>
  decidable_of_iff (s.values = t.values) ⟨ext, congrArg values⟩

instance [Repr α] : Repr (Numbering α) := ⟨fun t => reprPrec t.values⟩

def size (t : Numbering α) : Nat := t.array.size

def isEmpty (t : Numbering α) : Bool := t.array.isEmpty

def find? (t : Numbering α) (v : α) : Option Nat := t.numbers.get? v

def contains (t : Numbering α) (v : α) : Bool := (t.find? v).isSome

def value? (t : Numbering α) (i : Nat) : Option α := t.array[i]?

theorem find?_eq_findIdx? (t : Numbering α) (v : α) :
    t.find? v = t.values.findIdx? fun w => decide (w = v) := by
  simp [find?, t.numbers_eq, Dictionary.get?_addNumbered, values]

theorem find?_eq_none_iff (t : Numbering α) (v : α) : t.find? v = none ↔ v ∉ t.values := by
  simp only [find?_eq_findIdx?, List.findIdx?_eq_none_iff, decide_eq_false_iff_not]
  exact ⟨fun apart here => apart v here rfl, fun absent w here same => absent (same ▸ here)⟩

theorem numbers_push (t : Numbering α) (v : α) :
    t.numbers.add v t.array.size =
      Dictionary.empty.addNumbered 0 (t.array.push v).toList := by
  rw [Array.toList_push, Dictionary.addNumbered_append, ← t.numbers_eq, Array.length_toList,
    Nat.zero_add]

theorem nodup_push (t : Numbering α) (v : α) (new : t.find? v = none) :
    (t.array.push v).toList.Nodup := by
  have absent : v ∉ t.array.toList := (t.find?_eq_none_iff v).mp new
  rw [Array.toList_push, List.nodup_append]
  refine ⟨t.nodup, by simp, ?_⟩
  rintro a seen b here rfl
  exact absent (List.mem_singleton.mp here ▸ seen)

def push (t : Numbering α) (v : α) (new : t.find? v = none) : Numbering α :=
  let next := t.array.size
  { array := t.array.push v
    numbers := t.numbers.add v next
    numbers_eq := t.numbers_push v
    nodup := t.nodup_push v new }

/-- The number of a value, whether the value is new, and the table that knows the value. -/
def numberNew (t : Numbering α) (v : α) : (Nat × Bool) × Numbering α :=
  match new : t.find? v with
  | some i => ((i, false), t)
  | none => ((t.size, true), t.push v new)

def number (t : Numbering α) (v : α) : Nat × Numbering α :=
  let found := t.numberNew v
  (found.1.1, found.2)

/-- The number of a value that is most likely known: looked up first, and added only when the
look-up fails. -/
def findOrNumber (t : Numbering α) (v : α) : Nat × Numbering α :=
  match t.find? v with
  | some i => (i, t)
  | none => t.number v

def entries (t : Numbering α) : List (Nat × α) := t.values.zipIdx.map fun (v, i) => (i, v)

@[simp]
theorem values_empty : (empty : Numbering α).values = [] := rfl

@[simp]
theorem values_push (t : Numbering α) (v : α) (new : t.find? v = none) :
    (t.push v new).values = t.values ++ [v] := by
  simp [push, values]

theorem size_eq_length_values (t : Numbering α) : t.size = t.values.length := by
  simp [size, values]

theorem value?_eq_getElem? (t : Numbering α) (i : Nat) : t.value? i = t.values[i]? := by
  simp [value?, values]

theorem contains_iff_mem (t : Numbering α) (v : α) : t.contains v = true ↔ v ∈ t.values := by
  rw [contains, Option.isSome_iff_ne_none, ne_eq, find?_eq_none_iff, Classical.not_not]

theorem find?_eq_some_iff (t : Numbering α) (v : α) (i : Nat) :
    t.find? v = some i ↔ t.value? i = some v := by
  rw [find?_eq_findIdx?, value?_eq_getElem?, List.findIdx?_eq_some_iff_getElem]
  constructor
  · rintro ⟨bound, here, -⟩
    simpa [bound] using here
  · intro here
    obtain ⟨bound, here⟩ := List.getElem?_eq_some_iff.mp here
    refine ⟨bound, by simpa using here, fun j earlier => ?_⟩
    have apart := List.pairwise_iff_getElem.mp t.nodup j i (by simp [values] at bound; simp; omega)
      (by simpa [values] using bound) earlier
    simpa [values, ← here] using apart

theorem numberNew_of_find?_eq_some {t : Numbering α} {v : α} {i : Nat}
    (found : t.find? v = some i) : t.numberNew v = ((i, false), t) := by
  unfold numberNew
  split <;> simp_all

theorem numberNew_of_find?_eq_none {t : Numbering α} {v : α} (new : t.find? v = none) :
    t.numberNew v = ((t.size, true), t.push v new) := by
  unfold numberNew
  split <;> simp_all

theorem findOrNumber_eq_number (t : Numbering α) (v : α) : t.findOrNumber v = t.number v := by
  unfold findOrNumber
  split
  · rename_i found
    simp [number, numberNew_of_find?_eq_some found]
  · rfl

theorem values_number (t : Numbering α) (v : α) :
    (t.number v).2.values = if (t.find? v).isSome then t.values else t.values ++ [v] := by
  simp only [number]
  cases found : t.find? v with
  | some i => simp [numberNew_of_find?_eq_some found]
  | none => simp [numberNew_of_find?_eq_none found]

theorem value?_number (t : Numbering α) (v : α) :
    (t.number v).2.value? (t.number v).1 = some v := by
  simp only [number]
  cases found : t.find? v with
  | some i => simpa [numberNew_of_find?_eq_some found] using (t.find?_eq_some_iff v i).mp found
  | none =>
    simp [numberNew_of_find?_eq_none found, value?_eq_getElem?, size_eq_length_values]

end Numbering

end CallFlow
