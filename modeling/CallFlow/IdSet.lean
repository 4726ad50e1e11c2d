/-! Finite sets of numbers, kept as one ascending array. Nothing here checks that an array is
ascending: the operations keep it so for every set built from `empty`, `singleton` and `ofList`. -/

namespace CallFlow

/-- A set of numbers as an array, ascending in every set that the operations build. -/
structure IdSet where
  ids : Array Nat := #[]
deriving DecidableEq, Repr

namespace IdSet

def empty : IdSet := {}

instance : Inhabited IdSet := ⟨empty⟩

def singleton (k : Nat) : IdSet := ⟨#[k]⟩

def toList (s : IdSet) : List Nat := s.ids.toList

def size (s : IdSet) : Nat := s.ids.size

def isEmpty (s : IdSet) : Bool := s.ids.isEmpty

/--
Halves the stretch of `size` entries from `base` on until one entry is left, always keeping the
upper half unless its first entry exceeds `k`; answers where the last entry stands. Each round
takes one unit of `fuel`, and the length of the stretch is fuel enough.
-/
def narrow (ids : Array Nat) (k : Nat) : (fuel base size : Nat) → Nat
  | 0, base, _ => base
  | fuel + 1, base, size =>
    if size ≤ 1 then base
    else
      let half := size / 2
      let middle := base + half
      let base' := if k < ids.getD middle 0 then base else middle
      narrow ids k fuel base' (size - half)

/-- Whether `k` stands at the place that the search ends at, and the place where `k` would go. -/
def search (s : IdSet) (k : Nat) : Bool × Nat :=
  match s.ids[narrow s.ids k s.ids.size 0 s.ids.size]? with
  | none => (false, 0)
  | some found =>
    let base := narrow s.ids k s.ids.size 0 s.ids.size
    if found = k then (true, base) else (false, if found < k then base + 1 else base)

def contains (s : IdSet) (k : Nat) : Bool := (s.search k).1

/-- Adds a number at the place where the search ends; the flag says whether the set grew. -/
def insert (s : IdSet) (k : Nat) : Bool × IdSet :=
  match s.search k with
  | (true, _) => (false, s)
  | (false, i) => (true, ⟨s.ids.insertIdxIfInBounds i k⟩)

def ofList (ks : List Nat) : IdSet := ks.foldl (fun s k => (s.insert k).2) empty

/--
Whether each number of the first list is met, in order, while walking up the second: smaller
entries of the second list are skipped, and an entry serves once.
-/
def walksIn : List Nat → List Nat → Bool
  | [], _ => true
  | k :: ks, others =>
    match others.dropWhile (fun o => decide (o < k)) with
    | [] => false
    | o :: rest => decide (o = k) && walksIn ks rest

def isSubset (s t : IdSet) : Bool := decide (s.size ≤ t.size) && walksIn s.toList t.toList

/-- Places `x`, the head of an ascending list with tail `xs`, into a list that is merged with it;
`rest` merges `xs` with what is left of the other list. -/
def mergeHead (x : Nat) (xs : List Nat) (rest : List Nat → List Nat) : List Nat → List Nat
  | [] => x :: xs
  | y :: ys =>
    if x < y then x :: rest (y :: ys)
    else if y < x then y :: mergeHead x xs rest ys
    else x :: rest ys

def merge : List Nat → List Nat → List Nat
  | [] => fun ys => ys
  | x :: xs => mergeHead x xs (merge xs)

def union (s t : IdSet) : Bool × IdSet :=
  if t.isEmpty then (false, s)
  else if s.isEmpty then (true, t)
  else if t.isSubset s then (false, s)
  else (true, ⟨(merge s.toList t.toList).toArray⟩)

@[simp]
theorem toList_empty : empty.toList = [] := rfl

@[simp]
theorem toList_singleton (k : Nat) : (singleton k).toList = [k] := rfl

theorem size_eq_length_toList (s : IdSet) : s.size = s.toList.length := rfl

theorem mem_mergeHead {x : Nat} {xs : List Nat} {rest : List Nat → List Nat}
    (mem_rest : ∀ ys k, k ∈ rest ys ↔ k ∈ xs ∨ k ∈ ys) (ys : List Nat) (k : Nat) :
    k ∈ mergeHead x xs rest ys ↔ k ∈ x :: xs ∨ k ∈ ys := by
  induction ys with
  | nil => simp [mergeHead]
  | cons y ys ih =>
    unfold mergeHead
    split
    · simp [mem_rest, or_assoc]
    · split
      · simp only [List.mem_cons, ih, or_assoc, or_left_comm]
      · have same : y = x := by omega
        simp only [List.mem_cons, mem_rest, same]
        grind

theorem mem_merge (xs ys : List Nat) (k : Nat) : k ∈ merge xs ys ↔ k ∈ xs ∨ k ∈ ys := by
  induction xs generalizing ys k with
  | nil => simp [merge]
  | cons x xs ih => exact mem_mergeHead ih ys k

end IdSet

end CallFlow
