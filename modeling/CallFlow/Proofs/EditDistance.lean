import Mathlib.Order.Bounds.Defs
import CallFlow.Options.Basic

/-! The nearest valid word. Row by row, the distances from all beginnings of the second text are
computed, each row written over the one before the last; what comes out is the least number of
edits. -/

namespace CallFlow.Text

/-- A character is put in, taken out or replaced, at any place. -/
inductive Edit : List Char → List Char → Prop
  | insert (before after : List Char) (c : Char) : Edit (before ++ after) (before ++ c :: after)
  | delete (before after : List Char) (c : Char) : Edit (before ++ c :: after) (before ++ after)
  | replace (before after : List Char) (c d : Char) :
      Edit (before ++ c :: after) (before ++ d :: after)

inductive Edits : Nat → List Char → List Char → Prop
  | none (s : List Char) : Edits 0 s s
  | more {n : Nat} {s t u : List Char} : Edit s t → Edits n t u → Edits (n + 1) s u

/-- The cost of turning the first of two characters into the second one. -/
def replacing (c d : Char) : Nat := if c = d then 0 else 1

/-- The distance by the first characters: the first one of the first text is taken out, that of the
second text is put in, or the one becomes the other. -/
def distance : List Char → List Char → Nat
  | [], t => t.length
  | _ :: s, [] => s.length + 1
  | c :: s, d :: t =>
    min (min (distance s (d :: t) + 1) (distance (c :: s) t + 1)) (distance s t + replacing c d)
termination_by s t => s.length + t.length

section Distance

variable {n : Nat} {s t u : List Char} {c d : Char}

@[simp]
theorem distance_nil_left (t : List Char) : distance [] t = t.length := by
  rw [distance]

@[simp]
theorem distance_nil_right (s : List Char) : distance s [] = s.length := by
  cases s with
  | nil => simp
  | cons c s => simp [distance]

theorem distance_cons_cons (c d : Char) (s t : List Char) :
    distance (c :: s) (d :: t) =
      min (min (distance s (d :: t) + 1) (distance (c :: s) t + 1))
        (distance s t + replacing c d) := by
  rw [distance]

theorem replacing_le_one (c d : Char) : replacing c d ≤ 1 := by
  unfold replacing
  split <;> omega

theorem distance_self (s : List Char) : distance s s = 0 := by
  induction s with
  | nil => simp
  | cons c s ih => simp [distance_cons_cons, ih, replacing]

theorem distance_insert_right (s t : List Char) (d : Char) :
    distance s (d :: t) ≤ distance s t + 1 := by
  cases s with
  | nil => simp
  | cons c s =>
      rw [distance_cons_cons]
      omega

theorem distance_delete_left (s t : List Char) (c : Char) :
    distance (c :: s) t ≤ distance s t + 1 := by
  cases t with
  | nil => simp
  | cons d t =>
      rw [distance_cons_cons]
      omega

theorem distance_insert_left (s t : List Char) (c : Char) :
    distance s t ≤ distance (c :: s) t + 1 := by
  induction t with
  | nil =>
      simp only [distance_nil_right, List.length_cons]
      omega
  | cons d t ih =>
      have inserted := distance_insert_right s t d
      rw [distance_cons_cons]
      omega

theorem distance_replace_left (s t : List Char) (c d : Char) :
    distance (c :: s) t ≤ distance (d :: s) t + 1 := by
  induction t with
  | nil => simp
  | cons e t ih =>
      have cheap := replacing_le_one c e
      rw [distance_cons_cons, distance_cons_cons]
      omega

/-- What holds behind a character holds with it. -/
theorem distance_cons_le (near : ∀ t, distance s t ≤ distance u t + 1) (c : Char)
    (t : List Char) : distance (c :: s) t ≤ distance (c :: u) t + 1 := by
  induction t with
  | nil =>
      have rest := near []
      simp only [distance_nil_right, List.length_cons] at rest ⊢
      omega
  | cons d t ih =>
      have taken := near (d :: t)
      have both := near t
      rw [distance_cons_cons, distance_cons_cons]
      omega

theorem distance_append_le (near : ∀ t, distance s t ≤ distance u t + 1) (before t : List Char) :
    distance (before ++ s) t ≤ distance (before ++ u) t + 1 := by
  induction before generalizing t with
  | nil => exact near t
  | cons c before ih => exact distance_cons_le ih c t

theorem Edit.distance_le (edit : Edit s u) (t : List Char) :
    distance s t ≤ distance u t + 1 := by
  cases edit with
  | insert before after c =>
      exact distance_append_le (fun t => distance_insert_left after t c) before t
  | delete before after c =>
      exact distance_append_le (fun t => distance_delete_left after t c) before t
  | replace before after c d =>
      exact distance_append_le (fun t => distance_replace_left after t c d) before t

theorem Edits.distance_le (edits : Edits n s t) : distance s t ≤ n := by
  induction edits with
  | none s => exact Nat.le_of_eq (distance_self s)
  | @more n s t u edit _ ih =>
      have gained := edit.distance_le u
      omega

theorem Edit.cons (edit : Edit s t) (c : Char) : Edit (c :: s) (c :: t) := by
  cases edit with
  | insert before after d => exact .insert (c :: before) after d
  | delete before after d => exact .delete (c :: before) after d
  | replace before after d e => exact .replace (c :: before) after d e

theorem Edits.cons (edits : Edits n s t) (c : Char) : Edits n (c :: s) (c :: t) := by
  induction edits with
  | none s => exact .none (c :: s)
  | more edit _ ih => exact .more (edit.cons c) ih

theorem Edits.insert (edits : Edits n s t) (d : Char) : Edits (n + 1) s (d :: t) :=
  .more (.insert [] s d) (edits.cons d)

theorem Edits.delete (edits : Edits n s t) (c : Char) : Edits (n + 1) (c :: s) t :=
  .more (.delete [] s c) edits

theorem Edits.replace (edits : Edits n s t) (c d : Char) :
    Edits (n + replacing c d) (c :: s) (d :: t) := by
  unfold replacing
  split
  · rename_i same
    exact same ▸ edits.cons c
  · exact .more (.replace [] s c d) (edits.cons d)

theorem edits_distance (s t : List Char) : Edits (distance s t) s t := by
  -- the least of the three distances says which edit comes first
  induction s, t using distance.induct with
  | case1 t =>
      rw [distance_nil_left]
      induction t with
      | nil => exact .none []
      | cons d t ih => exact ih.insert d
  | case2 c s =>
      rw [distance_nil_right]
      induction s generalizing c with
      | nil => exact (Edits.none []).delete c
      | cons d s ih => exact (ih d).delete c
  | case3 c s d t deleted inserted replaced =>
      rw [distance_cons_cons]
      have smallest : ∀ m, m = distance s (d :: t) + 1 ∨ m = distance (c :: s) t + 1 ∨
          m = distance s t + replacing c d → Edits m (c :: s) (d :: t) := by
        rintro m (rfl | rfl | rfl)
        · exact deleted.delete c
        · exact inserted.insert d
        · exact replaced.replace c d
      exact smallest _ (by omega)

theorem Edit.reverse (edit : Edit s t) : Edit s.reverse t.reverse := by
  cases edit with
  | insert before after c => simpa using Edit.insert after.reverse before.reverse c
  | delete before after c => simpa using Edit.delete after.reverse before.reverse c
  | replace before after c d => simpa using Edit.replace after.reverse before.reverse c d

theorem Edits.reverse (edits : Edits n s t) : Edits n s.reverse t.reverse := by
  induction edits with
  | none s => exact .none s.reverse
  | more edit _ ih => exact .more edit.reverse ih

theorem distance_reverse_le (s t : List Char) : distance s.reverse t.reverse ≤ distance s t :=
  (edits_distance s t).reverse.distance_le

theorem distance_reverse (s t : List Char) : distance s.reverse t.reverse = distance s t := by
  apply Nat.le_antisymm (distance_reverse_le s t)
  simpa using distance_reverse_le s.reverse t.reverse

end Distance

section Rows

variable {c d : Char} {s t : List Char} {n : Nat} {above row : Array Nat} {rows : RowPair}

/-- The first entries of a row are the distances of a text from the beginnings of another one, both
of which stand reversed. -/
structure Filled (s t : List Char) (n : Nat) (row : Array Nat) : Prop where
  size : row.size = t.length + 1
  entry : ∀ i ≤ n, row.getD i 0 = distance s (t.take i).reverse

theorem getD_setIfInBounds_self {i v : Nat} (bound : i < row.size) :
    (row.setIfInBounds i v).getD i 0 = v := by
  simp [bound]

theorem getD_setIfInBounds_of_ne {i j : Nat} (apart : i ≠ j) (v : Nat) :
    (row.setIfInBounds i v).getD j 0 = row.getD j 0 := by
  simp [Array.getD_eq_getD_getElem?, Array.getElem?_setIfInBounds_ne apart]

theorem reverse_take_succ (here : t[n]? = some d) :
    (t.take (n + 1)).reverse = d :: (t.take n).reverse := by
  simp [List.take_add_one, here]

theorem filled_range (t : List Char) : Filled [] t t.length (Array.range (t.length + 1)) where
  size := Array.size_range
  entry i within := by
    have bound : i < t.length + 1 := by omega
    simp [Array.getD, bound, within]

/-- The first entry of a row does not depend on what the row held. -/
theorem filled_first (size : row.size = t.length + 1) (c : Char) (s : List Char) :
    Filled (c :: s) t 0 (row.setIfInBounds 0 (s.length + 1)) where
  size := by simpa using size
  entry i within := by
    obtain rfl := Nat.le_zero.mp within
    rw [getD_setIfInBounds_self (by omega)]
    simp

/-- Each further entry comes from the one at its left and from two of the row above. -/
theorem Filled.write (full : Filled s t t.length above) (partly : Filled (c :: s) t n row)
    (here : t[n]? = some d) : Filled (c :: s) t (n + 1) (writeEntry c above row (d, n)) := by
  have bound : n < t.length := (List.getElem?_eq_some_iff.mp here).1
  have size : row.size = t.length + 1 := partly.size
  unfold writeEntry
  refine ⟨by simpa using size, fun i within => ?_⟩
  rcases Nat.lt_or_eq_of_le within with earlier | rfl
  · rw [getD_setIfInBounds_of_ne (by omega)]
    exact partly.entry i (by omega)
  · rw [getD_setIfInBounds_self (by omega), full.entry (n + 1) (by omega), full.entry n (by omega),
      partly.entry n (by omega), reverse_take_succ here, distance_cons_cons, replacing]

theorem Filled.fill (full : Filled s t t.length above) {passed left : List Char}
    (split : t = passed ++ left) (partly : Filled (c :: s) t passed.length row) :
    Filled (c :: s) t t.length
      ((left.zipIdx passed.length).foldl (writeEntry c above) row) := by
  induction left generalizing passed row with
  | nil =>
      rw [List.append_nil] at split
      rw [split] at partly ⊢
      exact partly
  | cons d left ih =>
      have here : t[passed.length]? = some d := by simp [split]
      -- the row is right up to the entry behind `d`, so `d` counts as passed
      have more := full.write partly here
      rw [List.zipIdx_cons, List.foldl_cons]
      have length : (passed ++ [d]).length = passed.length + 1 := by simp
      rw [← length] at more ⊢
      exact ih (by simpa using split) more

/-- The row that is read is filled; what the other one holds is of no account. -/
structure RowPair.Reads (s t : List Char) (rows : RowPair) : Prop where
  above : Filled s t t.length rows.above
  size : rows.below.size = t.length + 1

theorem RowPair.reads_start (t : List Char) : (RowPair.start t.length).Reads [] t :=
  ⟨filled_range t, Array.size_replicate⟩

theorem RowPair.Reads.next (reads : rows.Reads s t) (c : Char) :
    (rows.next t (c, s.length)).Reads (c :: s) t where
  above := by
    have split : t = [] ++ t := rfl
    exact reads.above.fill split (filled_first reads.size c s)
  size := reads.above.size

theorem RowPair.Reads.foldl (reads : rows.Reads s t) (more : List Char) :
    ((more.zipIdx s.length).foldl (RowPair.next t) rows).Reads (more.reverse ++ s) t := by
  induction more generalizing rows s with
  | nil => exact reads
  | cons c more ih => simpa [List.zipIdx_cons] using ih (reads.next c)

end Rows

/-- What is computed row by row is the distance. -/
theorem editDistanceChars_eq (s t : List Char) : editDistanceChars s t = distance s t := by
  have reads := (RowPair.reads_start t).foldl s
  unfold editDistanceChars
  rw [show s.zipIdx = s.zipIdx ([] : List Char).length from rfl,
    reads.above.entry _ (Nat.le_refl _), List.take_length, List.append_nil, distance_reverse]

theorem isLeast_editDistance (s t : String) :
    IsLeast {n | Edits n s.toList t.toList} (editDistance s t) := by
  unfold editDistance
  rw [editDistanceChars_eq]
  exact ⟨edits_distance s.toList t.toList, fun n edits => edits.distance_le⟩

/-- A candidate is nearest to a text, and all that stand before it are farther away. -/
def FirstNearest (target : String) (candidates : List String) (word : String) : Prop :=
  ∃ before after, candidates = before ++ word :: after ∧
    (∀ v ∈ before, editDistance target word < editDistance target v) ∧
    ∀ v ∈ after, editDistance target word ≤ editDistance target v

variable {target word : String} {candidates : List String}

/-- One more candidate is the nearest one if it is nearer than the best one so far. -/
theorem FirstNearest.nearer (best : FirstNearest target candidates word) (v : String) :
    ∃ next, nearer target (word, editDistance target word) v = (next, editDistance target next) ∧
      FirstNearest target (candidates ++ [v]) next := by
  obtain ⟨before, after, rfl, farther, near⟩ := best
  unfold Text.nearer
  dsimp only
  split
  · rename_i nearer
    refine ⟨v, rfl, before ++ word :: after, [], rfl, fun u member => ?_, by simp⟩
    rcases List.mem_append.mp member with here | here
    · exact Nat.lt_trans nearer (farther u here)
    · rcases List.mem_cons.mp here with rfl | here
      · exact nearer
      · exact Nat.lt_of_lt_of_le nearer (near u here)
  · rename_i farthest
    refine ⟨word, rfl, before, after ++ [v], by simp, farther, fun u member => ?_⟩
    rcases List.mem_append.mp member with here | here
    · exact near u here
    · rw [List.mem_singleton.mp here]
      omega

theorem FirstNearest.foldl (best : FirstNearest target candidates word) (more : List String) :
    FirstNearest target (candidates ++ more)
      (more.foldl (Text.nearer target) (word, editDistance target word)).1 := by
  induction more generalizing candidates word with
  | nil => simpa using best
  | cons v more ih =>
      obtain ⟨next, step, nearest⟩ := best.nearer v
      have rest := ih nearest
      rw [List.append_assoc, List.singleton_append] at rest
      rw [List.foldl_cons, step]
      exact rest

/-- Of some candidates one is found, and it is the first one of the nearest. -/
theorem exists_nearest? (text : String) (some : candidates ≠ []) :
    ∃ word, nearest? text candidates = .some word ∧
      FirstNearest (lowered text) candidates word := by
  cases candidates with
  | nil => exact absurd rfl some
  | cons v rest =>
      have alone : FirstNearest (lowered text) [v] v := ⟨[], [], rfl, by simp, by simp⟩
      exact ⟨_, rfl, alone.foldl rest⟩

end CallFlow.Text

namespace CallFlow

open Text

/-- A refusal names the first of the valid words that are nearest to a text in lower case. -/
def OptionFailure.Suggests (why : OptionFailure) (option text : String) (valid : List String) :
    Prop :=
  ∃ word, FirstNearest (lowered text) valid word ∧
    why.message = "Unknown value '" ++ text ++ "' for option '" ++ option ++ "'. " ++
      ("Did you mean '" ++ word ++ "'?")

theorem OptionFailure.suggests_unknownWord (option text : String) {valid : List String}
    (some : valid ≠ []) : (unknownWord option text valid).Suggests option text valid := by
  obtain ⟨word, found, nearest⟩ := exists_nearest? text some
  have hint : suggestion text valid = "Did you mean '" ++ word ++ "'?" := by
    rw [suggestion, found]
  exact ⟨word, nearest, hint ▸ rfl⟩

/-- Where three words are tried in turn, what none of them matches is refused with a suggestion. -/
theorem OptionFailure.suggests_of_refused {α : Type} {P Q R : Prop} [Decidable P] [Decidable Q]
    [Decidable R] {x y z : α} {option text : String} {valid : List String} {why : OptionFailure}
    (some : valid ≠ [])
    (refused : (if P then Except.ok x else if Q then Except.ok y else if R then Except.ok z
      else Except.error (unknownWord option text valid)) = Except.error why) :
    why.Suggests option text valid := by
  split at refused
  · cases refused
  · split at refused
    · cases refused
    · split at refused
      · cases refused
      · rw [← Except.error.inj refused]
        exact suggests_unknownWord option text some

/-- The distance of two texts is the least number of edits that lead from one to the other; and
whatever text is refused where some words are valid, the first of the nearest of these is
suggested. -/
theorem suggests_nearest :
    (∀ s t : String, IsLeast {n | Edits n s.toList t.toList} (editDistance s t)) ∧
    (∀ (option text : String) (valid : List String), valid ≠ [] →
      (OptionFailure.unknownWord option text valid).Suggests option text valid) ∧
    (∀ (text : String) (why : OptionFailure), Algorithm.ofWord text = .error why →
      why.Suggests "algorithm" text (Algorithm.all.map Algorithm.spelling)) ∧
    ∀ (text : String) (why : OptionFailure), Reflection.ofWord text = .error why →
      why.Suggests "reflection" text (Reflection.all.map Reflection.spelling) := by
  refine ⟨isLeast_editDistance, fun option text valid some => ?_, fun text why refused => ?_,
    fun text why refused => ?_⟩
  · exact OptionFailure.suggests_unknownWord option text some
  · unfold Algorithm.ofWord at refused
    exact OptionFailure.suggests_of_refused (by decide) refused
  · unfold Reflection.ofWord at refused
    exact OptionFailure.suggests_of_refused (by decide) refused

/-- Two modes are equally near to this word, and the first one is suggested. -/
theorem suggests_nearest_tie :
    (∃ why, Reflection.ofWord "NOLL" = .error why ∧
      why.Suggests "reflection" "NOLL" ["none", "string-only", "full"] ∧
      why.message = "Unknown value 'NOLL' for option 'reflection'. Did you mean 'none'?") ∧
    (∃ why, Algorithm.ofWord "one-cf" = .error why ∧
      why.Suggests "algorithm" "one-cf" ["zero-cfa", "zero-one-cfa", "one-cfa"]) ∧
    (["zero-cfa", "one-cfa"] ≠ [] ∧ (OptionFailure.unknownWord "algorithm" "one-cf"
      ["zero-cfa", "one-cfa"]).Suggests "algorithm" "one-cf" ["zero-cfa", "one-cfa"]) ∧
    IsLeast {n | Edits n "kitten".toList "sitting".toList} 3 := by
  obtain ⟨least, unknown, algorithms, modes⟩ := suggests_nearest
  have lower : normalizedWord "NOLL" = "noll" := by decide +kernel
  have mode : Reflection.ofWord "NOLL" =
      .error (.unknownWord "reflection" "NOLL" ["none", "string-only", "full"]) := by
    simp [Reflection.ofWord, lower, Reflection.all, Reflection.spelling]
  have same : normalizedWord "one-cf" = "one-cf" := by decide +kernel
  have algorithm : Algorithm.ofWord "one-cf" =
      .error (.unknownWord "algorithm" "one-cf" ["zero-cfa", "zero-one-cfa", "one-cfa"]) := by
    simp [Algorithm.ofWord, same, Algorithm.all, Algorithm.spelling]
  have three : editDistance "kitten" "sitting" = 3 := by decide +kernel
  refine ⟨⟨_, mode, modes _ _ mode, by decide +kernel⟩, ⟨_, algorithm, algorithms _ _ algorithm⟩,
    ⟨by decide, unknown _ _ _ (by decide)⟩, ?_⟩
  rw [← three]
  exact least "kitten" "sitting"

end CallFlow
