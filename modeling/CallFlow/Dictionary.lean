/-! Dictionaries. The binary digits of a key's place lead through a tree to a bucket of keys with
their values. Keys may share a place, and nothing that a dictionary answers depends on places. -/

namespace CallFlow

class Placed (κ : Type) where
  place : κ → Nat

namespace Placed

/-- A place for a number next to another place, far from those for the numbers nearby. -/
def mix (place n : Nat) : Nat := (place * 40503 + n) % 65536

def ofNats (ns : List Nat) : Nat := ns.foldl mix 0

instance : Placed Nat := ⟨id⟩

instance : Placed UInt32 := ⟨UInt32.toNat⟩

instance : Placed String := ⟨fun s => ofNats (s.toList.map Char.toNat)⟩

instance {α β : Type} [Placed α] [Placed β] : Placed (α × β) :=
  ⟨fun p => ofNats [place p.1, place p.2]⟩

end Placed

/-- Values under keys: nothing, a bucket, or the keys of even and of odd places. -/
inductive Dictionary (κ ν : Type) where
  | empty
  | bucket (entries : List (κ × ν))
  | branch (even odd : Dictionary κ ν)
deriving DecidableEq, Repr

namespace Dictionary

variable {κ ν : Type}

instance : Inhabited (Dictionary κ ν) := ⟨empty⟩

def depth : Nat := 16

def entries : Dictionary κ ν → List (κ × ν)
  | bucket es => es
  | empty | branch _ _ => []

def evens : Dictionary κ ν → Dictionary κ ν
  | branch even _ => even
  | empty | bucket _ => empty

def odds : Dictionary κ ν → Dictionary κ ν
  | branch _ odd => odd
  | empty | bucket _ => empty

/-- The bucket at a place of which so many digits are left. -/
def bucketAt : (digits place : Nat) → Dictionary κ ν → List (κ × ν)
  | 0, _, d => d.entries
  | digits + 1, place, d =>
    if place % 2 = 0 then bucketAt digits (place / 2) d.evens
    else bucketAt digits (place / 2) d.odds

def changeAt (f : List (κ × ν) → List (κ × ν)) :
    (digits place : Nat) → Dictionary κ ν → Dictionary κ ν
  | 0, _, d => bucket (f d.entries)
  | digits + 1, place, d =>
    if place % 2 = 0 then branch (changeAt f digits (place / 2) d.evens) d.odds
    else branch d.evens (changeAt f digits (place / 2) d.odds)

theorem bucketAt_empty (digits place : Nat) :
    bucketAt digits place (empty : Dictionary κ ν) = [] := by
  induction digits generalizing place with
  | zero => rfl
  | succ digits ih => simp [bucketAt, evens, odds, ih]

theorem bucketAt_changeAt_self (f : List (κ × ν) → List (κ × ν)) (digits place : Nat)
    (d : Dictionary κ ν) :
    bucketAt digits place (changeAt f digits place d) = f (bucketAt digits place d) := by
  induction digits generalizing place d with
  | zero => rfl
  | succ digits ih =>
    simp only [changeAt, bucketAt]
    split
    · exact ih ..
    · exact ih ..

theorem bucketAt_changeAt (f : List (κ × ν) → List (κ × ν)) (digits place other : Nat)
    (d : Dictionary κ ν) :
    bucketAt digits other (changeAt f digits place d) = bucketAt digits other d ∨
      bucketAt digits other (changeAt f digits place d) = f (bucketAt digits other d) := by
  induction digits generalizing place other d with
  | zero => exact .inr rfl
  | succ digits ih =>
    simp only [changeAt, bucketAt]
    by_cases even : place % 2 = 0 <;> by_cases otherEven : other % 2 = 0 <;>
      simp only [even, otherEven, ↓reduceIte]
    · exact ih ..
    · exact .inl rfl
    · exact .inl rfl
    · exact ih ..

variable [DecidableEq κ]

def without (k : κ) (entries : List (κ × ν)) : List (κ × ν) :=
  entries.filter fun e => !decide (e.1 = k)

theorem lookup_cons (k other : κ) (x : ν) (entries : List (κ × ν)) :
    ((k, x) :: entries).lookup other = if other = k then some x else entries.lookup other := by
  by_cases same : other = k
  · simp [same]
  · have differ : (other == k) = false := by simpa using same
    rw [List.lookup_cons, differ]
    simp [same]

theorem lookup_without (k other : κ) (entries : List (κ × ν)) :
    (without k entries).lookup other = if other = k then none else entries.lookup other := by
  induction entries with
  | nil => simp [without]
  | cons e entries ih =>
    have shorter : without k (e :: entries) =
        if e.1 = k then without k entries else e :: without k entries := by
      by_cases dropped : e.1 = k <;> simp [without, dropped]
    rw [shorter, lookup_cons e.1 other e.2 entries]
    split
    · rename_i dropped
      rw [ih, dropped]
      split <;> rfl
    · rename_i stays
      rw [lookup_cons e.1 other e.2, ih]
      grind

variable [Placed κ]

/-- The value under a key; of several, the one that was added first. -/
def get? (d : Dictionary κ ν) (k : κ) : Option ν :=
  (bucketAt depth (Placed.place k) d).lookup k

def contains (d : Dictionary κ ν) (k : κ) : Bool := (d.get? k).isSome

/-- Adds a value under a key, behind those that are there. -/
def add (d : Dictionary κ ν) (k : κ) (x : ν) : Dictionary κ ν :=
  changeAt (· ++ [(k, x)]) depth (Placed.place k) d

def erase (d : Dictionary κ ν) (k : κ) : Dictionary κ ν :=
  changeAt (without k) depth (Placed.place k) d

@[simp]
theorem get?_empty (k : κ) : (empty : Dictionary κ ν).get? k = none := by
  simp [get?, bucketAt_empty]

theorem get?_add (d : Dictionary κ ν) (k : κ) (x : ν) (other : κ) :
    (d.add k x).get? other = (d.get? other).or (if other = k then some x else none) := by
  unfold get? add
  by_cases same : other = k
  · subst same
    rw [bucketAt_changeAt_self]
    simp [List.lookup_append]
  · rcases bucketAt_changeAt (· ++ [(k, x)]) depth (Placed.place k) (Placed.place other) d with
      kept | changed
    · simp [kept, same]
    · have differ : (other == k) = false := by simpa using same
      rw [changed, List.lookup_append, lookup_cons, if_neg same, if_neg same]
      simp

theorem get?_erase (d : Dictionary κ ν) (k other : κ) :
    (d.erase k).get? other = if other = k then none else d.get? other := by
  unfold get? erase
  by_cases same : other = k
  · subst same
    rw [bucketAt_changeAt_self, lookup_without]
  · rcases bucketAt_changeAt (without k) depth (Placed.place k) (Placed.place other) d with
      kept | changed
    · simp [kept, same]
    · rw [changed, lookup_without]

@[simp]
theorem contains_empty (k : κ) : (empty : Dictionary κ ν).contains k = false := by
  simp [contains]

theorem contains_add (d : Dictionary κ ν) (k : κ) (x : ν) (other : κ) :
    (d.add k x).contains other = (d.contains other || decide (other = k)) := by
  simp only [contains, get?_add, Option.isSome_or]
  split <;> rename_i same <;> simp [same]

theorem contains_erase (d : Dictionary κ ν) (k other : κ) :
    (d.erase k).contains other = (d.contains other && decide (other ≠ k)) := by
  simp only [contains, get?_erase]
  split <;> rename_i same <;> simp [same]

end Dictionary

abbrev KeySet (κ : Type) := Dictionary κ Unit

namespace KeySet

variable {κ : Type} [DecidableEq κ] [Placed κ]

def insert (s : KeySet κ) (k : κ) : KeySet κ := s.add k ()

def ofList (ks : List κ) : KeySet κ := ks.foldl insert .empty

theorem contains_insert (s : KeySet κ) (k other : κ) :
    (s.insert k).contains other = (s.contains other || decide (other = k)) :=
  Dictionary.contains_add s k () other

theorem contains_foldl_insert (s : KeySet κ) (ks : List κ) (k : κ) :
    (ks.foldl insert s).contains k = (s.contains k || decide (k ∈ ks)) := by
  induction ks generalizing s with
  | nil => simp
  | cons l ks ih => simp [ih, contains_insert, Bool.or_assoc]

theorem contains_ofList (ks : List κ) (k : κ) : (ofList ks).contains k = decide (k ∈ ks) := by
  simp [ofList, contains_foldl_insert]

end KeySet

end CallFlow
