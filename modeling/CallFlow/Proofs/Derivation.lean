/-! What follows by rules, from premises to conclusions: the least collection that is closed under
them. -/

namespace CallFlow

variable {φ : Type} {rule other : List φ → φ → Prop} {D : φ → Prop} {j : φ}

/-- Every conclusion from premises in the collection is in it. -/
def Closed (rule : List φ → φ → Prop) (D : φ → Prop) : Prop :=
  ∀ ps j, rule ps j → (∀ p ∈ ps, D p) → D j

/-- What follows by rules from nothing. -/
inductive Derivable (rule : List φ → φ → Prop) : φ → Prop
  | apply {ps j} : rule ps j → (∀ p ∈ ps, Derivable rule p) → Derivable rule j

namespace Derivable

theorem closed (rule : List φ → φ → Prop) : Closed rule (Derivable rule) :=
  fun _ _ here premises => .apply here premises

theorem least (h : Derivable rule j) (closed : Closed rule D) : D j := by
  induction h with
  | apply here _ ih => exact closed _ _ here ih

/-- Whatever follows is the conclusion of some rule. -/
theorem inversion (h : Derivable rule j) : ∃ ps, rule ps j ∧ ∀ p ∈ ps, Derivable rule p := by
  cases h with
  | apply here premises => exact ⟨_, here, premises⟩

theorem of_start (here : rule [] j) : Derivable rule j :=
  .apply here fun _ member => nomatch member

end Derivable

theorem Closed.of_one (closed : Closed rule D) {p : φ} (here : rule [p] j) (first : D p) : D j := by
  refine closed [p] j here fun q member => ?_
  obtain rfl := List.mem_singleton.mp member
  exact first

theorem Closed.of_two (closed : Closed rule D) {p q : φ} (here : rule [p, q] j) (first : D p)
    (second : D q) : D j := by
  refine closed [p, q] j here fun x member => ?_
  rcases List.mem_cons.mp member with rfl | member
  · exact first
  · obtain rfl := List.mem_singleton.mp member
    exact second

theorem Closed.of_three (closed : Closed rule D) {p q x : φ} (here : rule [p, q, x] j)
    (first : D p) (second : D q) (third : D x) : D j := by
  refine closed [p, q, x] j here fun y member => ?_
  rcases List.mem_cons.mp member with rfl | member
  · exact first
  · rcases List.mem_cons.mp member with rfl | member
    · exact second
    · obtain rfl := List.mem_singleton.mp member
      exact third

end CallFlow
