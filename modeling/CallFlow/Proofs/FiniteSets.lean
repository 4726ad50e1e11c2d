import Mathlib.Data.Finset.Lattice.Lemmas
import Mathlib.Data.List.Destutter
import Mathlib.Data.List.Sort
import CallFlow.Proofs.IdSet

/-! Sets of numbers as finite sets. However a set is built, its array ascends and holds just the
numbers that were put in, so that each operation does with the array what it says of the members. -/

namespace CallFlow

inductive Recipe where
  | empty
  | singleton (k : Nat)
  | ofList (ks : List Nat)
  | insert (r : Recipe) (k : Nat)
  | union (r q : Recipe)

namespace Recipe

def build : Recipe → IdSet
  | empty => .empty
  | singleton k => .singleton k
  | ofList ks => .ofList ks
  | insert r k => (r.build.insert k).2
  | union r q => (r.build.union q.build).2

def members : Recipe → Finset Nat
  | empty => ∅
  | singleton k => {k}
  | ofList ks => ks.toFinset
  | insert r k => Insert.insert k r.members
  | union r q => r.members ∪ q.members

end Recipe

namespace IdSet

/-- An array ascends and holds just the members of a finite set. -/
structure Represents (s : IdSet) (m : Finset Nat) : Prop where
  ascending : s.Ascending
  mem : ∀ k, k ∈ s.toList ↔ k ∈ m

namespace Represents

variable {s t : IdSet} {m n : Finset Nat}

theorem empty : IdSet.empty.Represents ∅ := ⟨ascending_empty, by simp⟩

theorem singleton (k : Nat) : (IdSet.singleton k).Represents {k} where
  ascending := List.pairwise_singleton _ k
  mem := by simp

theorem insert (h : s.Represents m) (k : Nat) :
    (s.insert k).2.Represents (Insert.insert k m) where
  ascending := h.ascending.insert k
  mem l := by rw [mem_insert, Finset.mem_insert, h.mem]

theorem union (hs : s.Represents m) (ht : t.Represents n) :
    (s.union t).2.Represents (m ∪ n) where
  ascending := hs.ascending.union ht.ascending
  mem l := by rw [mem_union, Finset.mem_union, hs.mem, ht.mem]

theorem foldl_insert (h : s.Represents m) (ks : List Nat) :
    (ks.foldl (fun s k => (s.insert k).2) s).Represents (m ∪ ks.toFinset) := by
  induction ks generalizing s m with
  | nil => simpa using h
  | cons k ks ih =>
      have rest := ih (h.insert k)
      rw [List.toFinset_cons, Finset.union_insert, ← Finset.insert_union]
      exact rest

theorem ofList (ks : List Nat) : (IdSet.ofList ks).Represents ks.toFinset := by
  have all := empty.foldl_insert ks
  rwa [Finset.empty_union] at all

/-- Only one array represents a finite set. -/
theorem eq_iff (hs : s.Represents m) (ht : t.Represents n) : s = t ↔ m = n := by
  constructor
  · rintro rfl
    ext k
    rw [← hs.mem, ← ht.mem]
  · rintro rfl
    have lists : s.toList = t.toList :=
      List.Pairwise.eq_of_mem_iff hs.ascending ht.ascending fun k =>
        (hs.mem k).trans (ht.mem k).symm
    cases s
    cases t
    exact congrArg IdSet.mk (Array.toList_inj.mp lists)

theorem contains_iff (h : s.Represents m) (k : Nat) : s.contains k = true ↔ k ∈ m := by
  rw [← h.mem]
  exact ⟨mem_of_contains, h.ascending.contains_of_mem⟩

theorem isSubset_iff (hs : s.Represents m) (ht : t.Represents n) :
    s.isSubset t = true ↔ m ⊆ n := by
  have members : m ⊆ n ↔ ∀ k ∈ s.toList, k ∈ t.toList := by
    simp only [hs.mem, ht.mem]
    rfl
  rw [members]
  exact ⟨subset_of_isSubset, hs.ascending.isSubset_of_subset ht.ascending⟩

/-- A flag that tells whether the array got longer tells whether there are more members. -/
theorem grown_iff {grown : Bool} (hs : s.Represents m) (ht : t.Represents n) (more : m ⊆ n)
    (kept : grown = false → t = s) (longer : grown = true → s.size < t.size) :
    grown = true ↔ m ⊂ n := by
  rw [Finset.ssubset_iff_subset_ne]
  constructor
  · refine fun yes => ⟨more, fun same => ?_⟩
    rw [(hs.eq_iff ht).mpr same] at longer
    exact Nat.lt_irrefl _ (longer yes)
  · rintro ⟨-, apart⟩
    apply Bool.of_not_eq_false
    intro no
    exact apart ((hs.eq_iff ht).mp (kept no).symm)

theorem insert_grown_iff (h : s.Represents m) (k : Nat) :
    (s.insert k).1 = true ↔ m ⊂ Insert.insert k m := by
  refine h.grown_iff (h.insert k) (Finset.subset_insert k m) insert_of_not_grown fun grown => ?_
  rw [size_insert grown]
  exact Nat.lt_succ_self _

theorem union_grown_iff (hs : s.Represents m) (ht : t.Represents n) :
    (s.union t).1 = true ↔ m ⊂ m ∪ n :=
  hs.grown_iff (hs.union ht) Finset.subset_union_left union_of_not_grown
    (hs.ascending.size_union ht.ascending)

end Represents

/-- Numbers that are collected stand as they do when they are sorted and those are left out that
stand behind themselves. -/
theorem toList_ofList (ks : List Nat) :
    (IdSet.ofList ks).toList = ks.mergeSort.destutter (· ≠ ·) := by
  have sorted : ks.mergeSort.Pairwise (· ≤ ·) := List.pairwise_mergeSort' (· ≤ ·) ks
  have strict : ks.mergeSort.dedup.Pairwise (· < ·) := by
    have nodup : ks.mergeSort.dedup.Pairwise (· ≠ ·) := List.nodup_dedup _
    exact ((sorted.sublist (List.dedup_sublist _)).and nodup).imp fun both =>
      Nat.lt_of_le_of_ne both.1 both.2
  rw [sorted.destutter_eq_dedup]
  refine List.Pairwise.eq_of_mem_iff (Represents.ofList ks).ascending strict fun k => ?_
  rw [(Represents.ofList ks).mem]
  simp

end IdSet

theorem Recipe.represents (r : Recipe) : r.build.Represents r.members := by
  induction r with
  | empty => exact .empty
  | singleton k => exact .singleton k
  | ofList ks => exact .ofList ks
  | insert r k ih => exact ih.insert k
  | union r q ihr ihq => exact ihr.union ihq

/-- The array of a set that was built ascends and holds just what was put in; the operations add
members, and tell whether there are more than before; and membership, inclusion and equality of
such sets are those of their members. -/
theorem built_as_members (r : Recipe) :
    r.build.toList.Pairwise (· < ·) ∧
    (∀ k, k ∈ r.build.toList ↔ k ∈ r.members) ∧
    (∀ k, (r.build.insert k).1 = true ↔ r.members ⊂ (r.insert k).members) ∧
    (∀ k, r.build.contains k = true ↔ k ∈ r.members) ∧
    ∀ q : Recipe,
      ((r.build.union q.build).1 = true ↔ r.members ⊂ (r.union q).members) ∧
      (r.build.isSubset q.build = true ↔ r.members ⊆ q.members) ∧
      (r.build = q.build ↔ r.members = q.members) := by
  have own := r.represents
  refine ⟨own.ascending, own.mem, own.insert_grown_iff, own.contains_iff, fun q => ?_⟩
  have other := q.represents
  exact ⟨own.union_grown_iff other, own.isSubset_iff other, own.eq_iff other⟩

end CallFlow
