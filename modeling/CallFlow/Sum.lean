/-! Sums over lists. -/

namespace CallFlow

def sumOver {α : Type} (f : α → Nat) (xs : List α) : Nat := xs.foldr (fun x n => f x + n) 0

section

variable {α : Type} (f : α → Nat)

@[simp]
theorem sumOver_nil : sumOver f [] = 0 := rfl

@[simp]
theorem sumOver_cons (x : α) (xs : List α) : sumOver f (x :: xs) = f x + sumOver f xs := rfl

@[simp]
theorem sumOver_append (xs ys : List α) : sumOver f (xs ++ ys) = sumOver f xs + sumOver f ys := by
  induction xs with
  | nil => simp
  | cons x xs ih => simp [ih, Nat.add_assoc]

theorem sumOver_map {β : Type} (g : β → α) (xs : List β) :
    sumOver f (xs.map g) = sumOver (fun x => f (g x)) xs := by
  induction xs with
  | nil => rfl
  | cons x xs ih => rw [List.map_cons, sumOver_cons, sumOver_cons, ih]

end

end CallFlow
