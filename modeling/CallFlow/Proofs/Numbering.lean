import CallFlow.Numbering

/-! Numberings that grow. Different numbers have different values, so that whatever is said by value
can be said by number, and the other way round. -/

namespace CallFlow.Numbering

variable {α : Type} [DecidableEq α] [Placed α]

/-- Every number keeps its value. -/
def Extends (s t : Numbering α) : Prop := ∀ i v, s.value? i = some v → t.value? i = some v

theorem Extends.refl (t : Numbering α) : t.Extends t := fun _ _ here => here

theorem Extends.trans {s t u : Numbering α} (first : s.Extends t) (second : t.Extends u) :
    s.Extends u := fun i v here => second i v (first i v here)

/-- A value has one number only. -/
theorem value?_inj {t : Numbering α} {i j : Nat} {v : α} (here : t.value? i = some v)
    (there : t.value? j = some v) : i = j := by
  have found := (t.find?_eq_some_iff v i).mpr here
  rw [(t.find?_eq_some_iff v j).mpr there] at found
  exact (Option.some.inj found).symm

theorem value?_isSome_iff (t : Numbering α) (i : Nat) :
    (∃ v, t.value? i = some v) ↔ i < t.size := by
  simp only [value?_eq_getElem?, size_eq_length_values]
  constructor
  · rintro ⟨v, here⟩
    exact (List.getElem?_eq_some_iff.mp here).1
  · intro bound
    exact ⟨_, List.getElem?_eq_getElem bound⟩

theorem lt_size_of_value? {t : Numbering α} {i : Nat} {v : α} (here : t.value? i = some v) :
    i < t.size := (t.value?_isSome_iff i).mp ⟨v, here⟩

theorem mem_values_iff (t : Numbering α) (v : α) : v ∈ t.values ↔ ∃ i, t.value? i = some v := by
  simp only [value?_eq_getElem?, List.mem_iff_getElem?]

theorem Extends.size_le {s t : Numbering α} (grown : s.Extends t) : s.size ≤ t.size := by
  rcases Nat.eq_zero_or_pos s.size with none | some
  · omega
  · obtain ⟨v, last⟩ := (s.value?_isSome_iff (s.size - 1)).mpr (by omega)
    have bound := lt_size_of_value? (grown _ _ last)
    omega

theorem number_of_known {t : Numbering α} {v : α} {i : Nat} (known : t.find? v = some i) :
    t.number v = (i, t) := by
  simp only [number, numberNew_of_find?_eq_some known]

theorem number_of_new {t : Numbering α} {v : α} (new : t.find? v = none) :
    t.number v = (t.size, t.push v new) := by
  simp only [number, numberNew_of_find?_eq_none new]

/-- The values after numbering one are those before, and this one under its number. -/
theorem value?_number_eq_some_iff (t : Numbering α) (v w : α) (i : Nat) :
    (t.number v).2.value? i = some w ↔ t.value? i = some w ∨ i = (t.number v).1 ∧ w = v := by
  cases found : t.find? v with
  | some k =>
      have here := (t.find?_eq_some_iff v k).mp found
      rw [number_of_known found]
      constructor
      · exact .inl
      · rintro (known | ⟨rfl, rfl⟩)
        · exact known
        · exact here
  | none =>
      simp only [number_of_new found, value?_eq_getElem?, values_push, size_eq_length_values]
      rw [List.getElem?_append, List.getElem?_singleton]
      by_cases old : i < t.values.length
      · simp only [old, ↓reduceIte]
        constructor
        · exact .inl
        · rintro (here | ⟨rfl, -⟩)
          · exact here
          · exact absurd old (Nat.lt_irrefl _)
      · have missing : t.values[i]? = none := List.getElem?_eq_none (by omega)
        simp only [old, ↓reduceIte, missing, reduceCtorEq, false_or]
        by_cases last : i = t.values.length
        · simp [last, eq_comm]
        · have beyond : i - t.values.length ≠ 0 := by omega
          simp [last, beyond]

theorem extends_number (t : Numbering α) (v : α) : t.Extends (t.number v).2 :=
  fun i w here => (t.value?_number_eq_some_iff v w i).mpr (.inl here)

theorem size_number_of_new {t : Numbering α} {v : α} (new : t.contains v = false) :
    (t.number v).2.size = t.size + 1 := by
  unfold contains at new
  rw [size_eq_length_values, values_number, new, size_eq_length_values]
  simp

theorem mem_values_number (t : Numbering α) (v w : α) :
    w ∈ (t.number v).2.values ↔ w ∈ t.values ∨ w = v := by
  simp only [mem_values_iff, value?_number_eq_some_iff]
  constructor
  · rintro ⟨i, here | ⟨-, same⟩⟩
    · exact .inl ⟨i, here⟩
    · exact .inr same
  · rintro (⟨i, here⟩ | same)
    · exact ⟨i, .inl here⟩
    · exact ⟨_, .inr ⟨rfl, same⟩⟩

end CallFlow.Numbering
