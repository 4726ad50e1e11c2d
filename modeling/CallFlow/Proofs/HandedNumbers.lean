import Mathlib.Data.Finset.Card
import Mathlib.Data.List.Induction
import CallFlow.Proofs.Numbering

/-! Numbers that are handed out. However the three ways to ask for the number of a value are mixed,
values get the numbers from zero on in the order in which they are first asked for. -/

namespace CallFlow

/-- A way to ask for the number of a value. -/
inductive Inquiry (α : Type) where
  | number (v : α)
  | numberNew (v : α)
  | findOrNumber (v : α)

def Inquiry.value {α : Type} : Inquiry α → α
  | number v | numberNew v | findOrNumber v => v

/-- What is told: a number, and whether the value is new, if that is asked for. -/
structure Answer where
  word : UInt32
  isNew : Option Bool := none

/-- A list without repetitions ends with a value that is new. -/
theorem eraseDups_append_singleton {α : Type} [DecidableEq α] (xs : List α) (x : α) :
    (xs ++ [x]).eraseDups = if x ∈ xs then xs.eraseDups else xs.eraseDups ++ [x] := by
  rw [List.eraseDups_append]
  split
  · rename_i old
    simp [List.removeAll, old]
  · rename_i new
    simp [List.removeAll, new, List.eraseDups_cons]

namespace Numbering

variable {α : Type} [DecidableEq α] [Placed α]

def word? (t : Numbering α) (v : α) : Option UInt32 := (t.find? v).map UInt32.ofNat

def valueOf? (t : Numbering α) (w : UInt32) : Option α := t.value? w.toNat

def answer (t : Numbering α) : Inquiry α → Answer × Numbering α
  | .number v =>
    let found := t.number v
    ({ word := .ofNat found.1 }, found.2)
  | .numberNew v =>
    let found := t.numberNew v
    ({ word := .ofNat found.1.1, isNew := some found.1.2 }, found.2)
  | .findOrNumber v =>
    let found := t.findOrNumber v
    ({ word := .ofNat found.1 }, found.2)

def answerAll (t : Numbering α) : List (Inquiry α) → List Answer × Numbering α
  | [] => ([], t)
  | q :: qs =>
    let first := t.answer q
    let rest := first.2.answerAll qs
    (first.1 :: rest.1, rest.2)

variable {t : Numbering α}

theorem answer_snd (t : Numbering α) (q : Inquiry α) : (t.answer q).2 = (t.number q.value).2 := by
  cases q with
  | number v => rfl
  | numberNew v => rfl
  | findOrNumber v => exact congrArg Prod.snd (t.findOrNumber_eq_number v)

theorem word_answer (t : Numbering α) (q : Inquiry α) :
    (t.answer q).1.word = .ofNat (t.number q.value).1 := by
  cases q with
  | number v => rfl
  | numberNew v => rfl
  | findOrNumber v =>
      exact congrArg (fun found => UInt32.ofNat found.1) (t.findOrNumber_eq_number v)

theorem find?_number (t : Numbering α) (v : α) :
    (t.number v).2.find? v = some (t.number v).1 :=
  ((t.number v).2.find?_eq_some_iff v _).mpr (t.value?_number v)

theorem mem_values_of_find? {v : α} {i : Nat} (found : t.find? v = some i) : v ∈ t.values :=
  (t.mem_values_iff v).mpr ⟨i, (t.find?_eq_some_iff v i).mp found⟩

theorem find?_of_mem {v : α} (known : v ∈ t.values) : t.find? v = some (t.values.idxOf v) :=
  (t.find?_eq_some_iff v _).mpr (t.value?_eq_getElem? _ ▸ List.getElem?_idxOf known)

theorem numberNew_isNew (t : Numbering α) (v : α) :
    (t.numberNew v).1.2 = decide (v ∉ t.values) := by
  cases found : t.find? v with
  | some i =>
      simp [numberNew_of_find?_eq_some found, mem_values_of_find? found]
  | none =>
      have new := (t.find?_eq_none_iff v).mp found
      simp [numberNew_of_find?_eq_none found, new]

theorem Extends.find? {s t : Numbering α} (grown : s.Extends t) {v : α} {i : Nat}
    (found : s.find? v = some i) : t.find? v = some i :=
  (t.find?_eq_some_iff v i).mpr (grown i v ((s.find?_eq_some_iff v i).mp found))

theorem Extends.word? {s t : Numbering α} (grown : s.Extends t) {v : α} {w : UInt32}
    (kept : s.word? v = some w) : t.word? v = some w := by
  obtain ⟨i, found, rfl⟩ := Option.map_eq_some_iff.mp kept
  exact Option.map_eq_some_iff.mpr ⟨i, grown.find? found, rfl⟩

theorem answerAll_append (t : Numbering α) (qs more : List (Inquiry α)) :
    t.answerAll (qs ++ more) =
      ((t.answerAll qs).1 ++ ((t.answerAll qs).2.answerAll more).1,
        ((t.answerAll qs).2.answerAll more).2) := by
  induction qs generalizing t with
  | nil => rfl
  | cons q qs ih => simp [answerAll, ih]

theorem extends_answerAll (t : Numbering α) (qs : List (Inquiry α)) :
    t.Extends (t.answerAll qs).2 := by
  induction qs generalizing t with
  | nil => exact .refl t
  | cons q qs ih =>
      have first : t.Extends (t.answer q).2 := t.answer_snd q ▸ t.extends_number q.value
      exact first.trans (ih _)

/-- Each number that was told is the place that the value has in the end. -/
theorem words_answerAll (t : Numbering α) (qs : List (Inquiry α)) :
    (t.answerAll qs).1.map Answer.word =
      qs.map fun q => .ofNat ((t.answerAll qs).2.values.idxOf q.value) := by
  induction qs generalizing t with
  | nil => rfl
  | cons q qs ih =>
      -- what the first answer told is still so when all are answered
      have found : (t.answer q).2.find? q.value = some (t.number q.value).1 := by
        rw [answer_snd, find?_number]
      have last := ((t.answer q).2.extends_answerAll qs).find? found
      have place := Option.some.inj (last.symm.trans (find?_of_mem (mem_values_of_find? last)))
      simp only [answerAll, List.map_cons, ih, word_answer, place]

theorem length_answerAll (t : Numbering α) (qs : List (Inquiry α)) :
    (t.answerAll qs).1.length = qs.length := by
  induction qs generalizing t with
  | nil => rfl
  | cons q qs ih => simp [answerAll, ih]

/-- The values stand in the order in which they were first asked for. -/
theorem values_answerAll (qs : List (Inquiry α)) :
    ((empty : Numbering α).answerAll qs).2.values = (qs.map Inquiry.value).eraseDups := by
  -- from the end: only the last value may be new to the values of those before it
  induction qs using List.reverseRecOn with
  | nil => rfl
  | append_singleton qs q ih =>
      have step : ((empty : Numbering α).answerAll (qs ++ [q])).2 =
          ((empty.answerAll qs).2.number q.value).2 := by
        rw [answerAll_append, ← answer_snd]
        rfl
      rw [step, values_number, ih, List.map_append, List.map_singleton,
        eraseDups_append_singleton]
      have known : (((empty : Numbering α).answerAll qs).2.find? q.value).isSome ↔
          q.value ∈ qs.map Inquiry.value := by
        rw [← List.mem_eraseDups, ← ih]
        exact contains_iff_mem _ _
      simp only [known]

theorem size_answerAll (qs : List (Inquiry α)) :
    ((empty : Numbering α).answerAll qs).2.size = (qs.map Inquiry.value).toFinset.card := by
  have values := values_answerAll qs
  have distinct := ((empty : Numbering α).answerAll qs).2.nodup
  have same : ((empty : Numbering α).answerAll qs).2.values.toFinset =
      (qs.map Inquiry.value).toFinset := by
    rw [values]
    ext v
    simp
  rw [size_eq_length_values, ← same]
  exact (List.toFinset_card_of_nodup distinct).symm

/-- A value is called new the first time that it is asked for, whichever way that was. -/
theorem isNew_answerAll (before after : List (Inquiry α)) (v : α) :
    ((empty : Numbering α).answerAll (before ++ .numberNew v :: after)).1[before.length]?.bind
        Answer.isNew =
      some (decide (v ∉ before.map Inquiry.value)) := by
  rw [answerAll_append, List.getElem?_append_right (length_answerAll _ _).le, length_answerAll,
    Nat.sub_self]
  simp only [answerAll, List.getElem?_cons_zero, Option.bind_some, answer, numberNew_isNew,
    values_answerAll, List.mem_eraseDups]

/-- The words that were told for some values, and the table that came of it. -/
structure Agrees (values : List α) (words : List UInt32) (t : Numbering α) : Prop where
  /-- A value gets the number of values that were asked for before it. -/
  order : words.map UInt32.toNat = values.map fun v => values.eraseDups.idxOf v
  all : ∀ w, w ∈ words ↔ w.toNat < t.size
  inverse : ∀ v w, t.word? v = some w ↔ t.valueOf? w = some v
  resolved : words.map t.valueOf? = values.map some
  apart : ∀ i j : Nat, words[i]? = words[j]? ↔ values[i]? = values[j]?

/-- While the numbers fit into words, a word leads to a value and back. -/
theorem word?_eq_some_iff (few : t.size ≤ UInt32.size) (v : α) (w : UInt32) :
    t.word? v = some w ↔ t.valueOf? w = some v := by
  unfold word? valueOf?
  rw [Option.map_eq_some_iff, ← find?_eq_some_iff]
  constructor
  · rintro ⟨i, found, rfl⟩
    have bound := lt_size_of_value? ((t.find?_eq_some_iff v i).mp found)
    rwa [UInt32.toNat_ofNat_of_lt' (by omega)]
  · intro found
    exact ⟨w.toNat, found, UInt32.ofNat_toNat⟩

theorem Agrees.of_told {values : List α} {words : List UInt32} (few : t.size ≤ UInt32.size)
    (seen : t.values = values.eraseDups)
    (told : words = values.map fun v => .ofNat (t.values.idxOf v)) : Agrees values words t := by
  have inverse := word?_eq_some_iff few
  have known : ∀ v ∈ values, v ∈ t.values := fun v member => by
    rwa [seen, List.mem_eraseDups]
  have fits : ∀ v ∈ values, (UInt32.ofNat (t.values.idxOf v)).toNat = t.values.idxOf v := by
    intro v member
    have bound := List.idxOf_lt_length_of_mem (known v member)
    rw [size_eq_length_values] at few
    exact UInt32.toNat_ofNat_of_lt' (Nat.lt_of_lt_of_le bound few)
  have back : ∀ v ∈ values, t.valueOf? (.ofNat (t.values.idxOf v)) = some v := by
    intro v member
    rw [← inverse, word?, find?_of_mem (known v member)]
    rfl
  have resolved : words.map t.valueOf? = values.map some := by
    rw [told, List.map_map]
    exact List.map_congr_left back
  refine ⟨?_, fun w => ⟨fun member => ?_, fun bound => ?_⟩, inverse, resolved, fun i j => ?_⟩
  · rw [told, List.map_map, ← seen]
    exact List.map_congr_left fits
  · rw [told] at member
    obtain ⟨v, here, rfl⟩ := List.mem_map.mp member
    rw [fits v here, size_eq_length_values]
    exact List.idxOf_lt_length_of_mem (known v here)
  · obtain ⟨v, here⟩ := (t.value?_isSome_iff w.toNat).mpr bound
    have member : v ∈ values := by
      rw [← List.mem_eraseDups, ← seen]
      exact (t.mem_values_iff v).mpr ⟨_, here⟩
    have word := (inverse v w).mpr here
    rw [word?, find?_of_mem (known v member)] at word
    rw [told, List.mem_map]
    exact ⟨v, member, Option.some.inj word⟩
  · constructor
    · -- equal words resolve to equal values
      intro same
      have each := fun k : Nat => congrArg (fun l => l[k]?) resolved
      simp only [List.getElem?_map] at each
      have values := (each i).symm.trans ((congrArg (Option.map t.valueOf?) same).trans (each j))
      exact Option.map_injective (Option.some_injective α) values
    · intro same
      simp only [told, List.getElem?_map, same]

/-- However numbers are asked for, the values have the numbers from zero on in the order in which
they were first asked for, and words and values lead to each other. A value is called new just the
first time; looking up first makes no difference; and all that was told stays true. -/
theorem numbers_stable (asked : List (Inquiry α))
    (few : (asked.map Inquiry.value).toFinset.card ≤ UInt32.size) :
    Agrees (asked.map Inquiry.value) ((empty.answerAll asked).1.map Answer.word)
      (empty.answerAll asked).2 ∧
    (∀ before v after, asked = before ++ .numberNew v :: after →
      (empty.answerAll asked).1[before.length]?.bind Answer.isNew =
        some (decide (v ∉ before.map Inquiry.value))) ∧
    (∀ v, (empty.answerAll asked).2.answer (.findOrNumber v) =
      (empty.answerAll asked).2.answer (.number v)) ∧
    ∀ more, (empty.answerAll asked).1 <+: ((empty : Numbering α).answerAll (asked ++ more)).1 ∧
      (∀ v w, (empty.answerAll asked).2.word? v = some w →
        (empty.answerAll (asked ++ more)).2.word? v = some w) ∧
      ∀ w v, (empty.answerAll asked).2.valueOf? w = some v →
        (empty.answerAll (asked ++ more)).2.valueOf? w = some v := by
  refine ⟨?_, fun before v after split => ?_, fun v => ?_, fun more => ?_⟩
  · refine .of_told (size_answerAll asked ▸ few) (values_answerAll asked) ?_
    rw [words_answerAll, List.map_map]
    rfl
  · rw [split]
    exact isNew_answerAll before after v
  · simp only [answer, findOrNumber_eq_number]
  · rw [answerAll_append]
    have grown := ((empty : Numbering α).answerAll asked).2.extends_answerAll more
    exact ⟨List.prefix_append _ _, fun v w => grown.word?, fun w v => grown _ v⟩

/-- The names of an object and of its properties, asked for in all three ways: `o` is known when it
is asked for again, and `y` is new. -/
theorem numbers_stable_names :
    (["o", "x", "o", "y", "x"] : List String).toFinset.card ≤ UInt32.size ∧
    Agrees ["o", "x", "o", "y", "x"] [0, 1, 0, 2, 1]
      (empty.answerAll [.number "o", .findOrNumber "x", .numberNew "o", .numberNew "y",
        .number "x"]).2 ∧
    (empty.answerAll [.number "o", .findOrNumber "x", .numberNew "o", .numberNew "y",
      .number "x"]).1[3]?.bind Answer.isNew = some true := by
  have few : (["o", "x", "o", "y", "x"] : List String).toFinset.card ≤ UInt32.size :=
    Nat.le_trans (List.toFinset_card_le _) (by decide)
  have stable := numbers_stable [.number "o", .findOrNumber "x", .numberNew "o", .numberNew "y",
    .number "x"] few
  exact ⟨few, stable.1,
    stable.2.1 [.number "o", .findOrNumber "x", .numberNew "o"] "y" [.number "x"] rfl⟩

end Numbering

end CallFlow
