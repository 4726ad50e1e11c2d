import Mathlib.Algebra.GroupWithZero.Nat
import CallFlow.Sum

/-! How many things there are: things without repetition that stand for members of a list are not
more than these members. -/

namespace CallFlow

section Powers

variable {w a b m n : Nat}

theorem mul_le_pow (first : a ≤ w ^ m) (second : b ≤ w ^ n) : a * b ≤ w ^ (m + n) := by
  rw [Nat.pow_add]
  exact Nat.mul_le_mul first second

theorem le_pow_succ {c : Nat} (large : c ≤ w) (bound : a ≤ c * w ^ m) : a ≤ w ^ (m + 1) := by
  rw [Nat.pow_succ, Nat.mul_comm]
  exact Nat.le_trans bound (Nat.mul_le_mul_right _ large)

theorem pow_le_pow {c : Nat} (large : c + 1 ≤ w) (less : m ≤ n) : w ^ m ≤ w ^ n :=
  Nat.pow_le_pow_right (by omega) less

end Powers

/-- All pairs of members of two lists. -/
def pairs {α β : Type} (xs : List α) (ys : List β) : List (α × β) :=
  xs.flatMap fun x => ys.map (x, ·)

@[simp]
theorem mem_pairs {α β : Type} {xs : List α} {ys : List β} {x : α} {y : β} :
    (x, y) ∈ pairs xs ys ↔ x ∈ xs ∧ y ∈ ys := by
  simp [pairs]

@[simp]
theorem length_pairs {α β : Type} (xs : List α) (ys : List β) :
    (pairs xs ys).length = xs.length * ys.length := by
  induction xs with
  | nil => simp [pairs]
  | cons x xs ih =>
      simp only [pairs, List.flatMap_cons, List.length_append, List.length_map, List.length_cons,
        Nat.succ_mul] at ih ⊢
      omega

theorem le_sum_of_mem {α : Type} (f : α → Nat) {xs : List α} {x : α} (member : x ∈ xs) :
    f x ≤ sumOver f xs := by
  induction xs with
  | nil => cases member
  | cons y xs ih =>
      rw [sumOver_cons]
      rcases List.mem_cons.mp member with rfl | member
      · omega
      · have := ih member
        omega

theorem length_le_sum {α : Type} (f : α → Nat) (xs : List α) :
    xs.length ≤ sumOver (fun x => 1 + f x) xs := by
  induction xs with
  | nil => exact Nat.le_refl _
  | cons x xs ih =>
      rw [sumOver_cons, List.length_cons]
      omega

theorem length_flatMap_le {α β : Type} {f : α → List β} {g : α → Nat} {xs : List α}
    (each : ∀ x ∈ xs, (f x).length ≤ g x) : (xs.flatMap f).length ≤ sumOver g xs := by
  induction xs with
  | nil => exact Nat.le_refl _
  | cons x xs ih =>
      have first := each x List.mem_cons_self
      have rest := ih fun y member => each y (List.mem_cons_of_mem x member)
      rw [List.flatMap_cons, List.length_append, sumOver_cons]
      omega

theorem sumOver_one_add {α : Type} (g : α → Nat) (xs : List α) :
    sumOver (fun x => 1 + g x) xs = xs.length + sumOver g xs := by
  induction xs with
  | nil => rfl
  | cons x xs ih =>
      rw [sumOver_cons, sumOver_cons, List.length_cons]
      omega

theorem sumOver_le {α : Type} {f : α → Nat} {b : Nat} {xs : List α} (each : ∀ x ∈ xs, f x ≤ b) :
    sumOver f xs ≤ xs.length * b := by
  induction xs with
  | nil => exact Nat.zero_le _
  | cons x xs ih =>
      have first := each x List.mem_cons_self
      have rest := ih fun y member => each y (List.mem_cons_of_mem x member)
      rw [sumOver_cons, List.length_cons, Nat.succ_mul]
      omega

/-- Things that stand for different members of a list are not more than these. -/
theorem length_le_of_stand {α β : Type} {R : α → β → Prop} {xs : List α} {ys : List β}
    (nodup : xs.Nodup) (stand : ∀ x ∈ xs, ∃ y ∈ ys, R x y)
    (apart : ∀ x x' y, R x y → R x' y → x = x') : xs.length ≤ ys.length := by
  induction xs generalizing ys with
  | nil => exact Nat.zero_le _
  | cons x xs ih =>
      obtain ⟨new, nodup⟩ := List.nodup_cons.mp nodup
      obtain ⟨y, member, meant⟩ := stand x List.mem_cons_self
      obtain ⟨before, after, rfl⟩ := List.append_of_mem member
      have rest : xs.length ≤ (before ++ after).length := by
        refine ih nodup fun x' later => ?_
        obtain ⟨y', member', meant'⟩ := stand x' (List.mem_cons_of_mem x later)
        refine ⟨y', ?_, meant'⟩
        rcases List.mem_append.mp member' with here | here
        · exact List.mem_append_left _ here
        · rcases List.mem_cons.mp here with rfl | here
          · exact absurd (apart x x' _ meant meant' ▸ later) new
          · exact List.mem_append_right _ here
      simp only [List.length_append, List.length_cons] at rest ⊢
      omega

end CallFlow
