import CallFlow.IdSet

/-! What the operations on sets of numbers do to the members, whether or not the arrays ascend. In
sets that do, no member stands twice, and a set that grew has more members. -/

namespace CallFlow.IdSet

theorem isEmpty_iff (s : IdSet) : s.isEmpty = true ↔ s.toList = [] := by
  obtain ⟨ids⟩ := s
  simp [isEmpty, toList]

/-- The search says yes only at a place where the number stands. -/
theorem mem_of_search {s : IdSet} {k i : Nat} (found : s.search k = (true, i)) :
    k ∈ s.toList := by
  unfold search at found
  split at found
  · cases found
  · rename_i here
    split at found
    · rename_i same
      exact same ▸ Array.mem_toList_iff.mpr (Array.mem_of_getElem? here)
    · cases found

theorem mem_of_contains {s : IdSet} {k : Nat} (found : s.contains k = true) : k ∈ s.toList :=
  mem_of_search (i := (s.search k).2) (Prod.ext found rfl)

/-- Where the search says no, the number can be put in. -/
theorem search_le_size {s : IdSet} {k i : Nat} (missed : s.search k = (false, i)) :
    i ≤ s.ids.size := by
  unfold search at missed
  split at missed
  · obtain ⟨-, rfl⟩ := Prod.mk.inj missed
    exact Nat.zero_le _
  · rename_i here
    have bound := (Array.getElem?_eq_some_iff.mp here).1
    split at missed
    · cases missed
    · obtain ⟨-, rfl⟩ := Prod.mk.inj missed
      split <;> omega

theorem insert_of_not_grown {s : IdSet} {k : Nat} (kept : (s.insert k).1 = false) :
    (s.insert k).2 = s := by
  unfold insert at kept ⊢
  split at kept
  · rfl
  · cases kept

/-- Adding a number adds just this member. -/
theorem mem_insert (s : IdSet) (k m : Nat) :
    m ∈ (s.insert k).2.toList ↔ m = k ∨ m ∈ s.toList := by
  unfold insert
  split
  · rename_i found
    have here := mem_of_search found
    exact ⟨.inr, fun h => h.elim (fun same => same ▸ here) id⟩
  · rename_i i missed
    have bound := search_le_size missed
    simp only [toList, Array.insertIdxIfInBounds, bound, ↓reduceDIte, Array.mem_toList_iff]
    exact Array.mem_insertIdx

/-- A walk that ends well has met every number on its way. -/
theorem mem_of_walksIn {ks others : List Nat} (walks : walksIn ks others = true) :
    ∀ k ∈ ks, k ∈ others := by
  induction ks generalizing others with
  | nil => simp
  | cons k ks ih =>
    unfold walksIn at walks
    have within : ∀ m ∈ others.dropWhile (fun o => decide (o < k)), m ∈ others :=
      fun m here => (List.dropWhile_sublist _).subset here
    split at walks
    · cases walks
    · rename_i o rest left
      simp only [Bool.and_eq_true, decide_eq_true_eq] at walks
      rw [left] at within
      intro m here
      rcases List.mem_cons.mp here with rfl | later
      · exact within _ (by simp [walks.1])
      · exact within m (List.mem_cons_of_mem o (ih walks.2 m later))

theorem subset_of_isSubset {s t : IdSet} (inside : s.isSubset t = true) :
    ∀ k ∈ s.toList, k ∈ t.toList := by
  simp only [isSubset, Bool.and_eq_true] at inside
  exact mem_of_walksIn inside.2

theorem union_of_not_grown {s t : IdSet} (kept : (s.union t).1 = false) : (s.union t).2 = s := by
  unfold union at kept ⊢
  split
  · rfl
  · split
    · simp_all
    · split
      · rfl
      · simp_all

/-- Adding a set adds just its members. -/
theorem mem_union (s t : IdSet) (m : Nat) :
    m ∈ (s.union t).2.toList ↔ m ∈ s.toList ∨ m ∈ t.toList := by
  unfold union
  split
  · rename_i nothing
    simp [(isEmpty_iff t).mp nothing]
  · split
    · rename_i nothing
      simp [(isEmpty_iff s).mp nothing]
    · split
      · rename_i inside
        exact ⟨.inl, fun h => h.elim id (subset_of_isSubset inside m)⟩
      · simpa [toList] using mem_merge s.toList t.toList m

/-- Only a set with members makes another one grow. -/
theorem ne_nil_of_union {s t : IdSet} (grown : (s.union t).1 = true) : t.toList ≠ [] := by
  intro none
  simp [union, (isEmpty_iff t).mpr none] at grown

/-- The members stand in ascending order. -/
def Ascending (s : IdSet) : Prop := s.toList.Pairwise (· < ·)

theorem ascending_empty : empty.Ascending := List.Pairwise.nil

theorem Ascending.lt_of_lt {s : IdSet} (h : s.Ascending) {i j : Nat} (hi : i < s.ids.size)
    (hj : j < s.ids.size) (earlier : i < j) : s.ids[i] < s.ids[j] := by
  have sorted := List.pairwise_iff_getElem.mp h i j (by simpa [toList] using hi)
    (by simpa [toList] using hj) earlier
  simpa [toList] using sorted

/-- A place that the halving may end at: what stands there does not exceed the number, and what
stands behind the stretch does. -/
structure Bracket (ids : Array Nat) (k base size : Nat) : Prop where
  within : base + size ≤ ids.size
  below : base = 0 ∨ ids.getD base 0 ≤ k
  above : ∀ j, base + size ≤ j → j < ids.size → k < ids.getD j 0

theorem Bracket.narrow {s : IdSet} (h : s.Ascending) {k fuel base size : Nat}
    (bracket : Bracket s.ids k base size) (some : 1 ≤ size) (enough : size ≤ fuel) :
    Bracket s.ids k (narrow s.ids k fuel base size) 1 := by
  induction fuel generalizing base size with
  | zero => omega
  | succ fuel ih =>
      unfold IdSet.narrow
      split
      · obtain rfl : size = 1 := by omega
        exact bracket
      · have within := bracket.within
        dsimp only
        split
        · rename_i beyond
          refine ih ⟨by omega, bracket.below, fun j behind bound => ?_⟩ (by omega) (by omega)
          have middle : base + size / 2 < s.ids.size := by omega
          simp only [Array.getD_eq_getD_getElem?, Array.getElem?_eq_getElem middle,
            Array.getElem?_eq_getElem bound, Option.getD_some] at beyond ⊢
          rcases Nat.eq_or_lt_of_le (show base + size / 2 ≤ j by omega) with same | later
          · subst same
            exact beyond
          · exact Nat.lt_trans beyond (h.lt_of_lt middle bound later)
        · rename_i reached
          refine ih ⟨by omega, .inr (by omega), fun j behind bound => ?_⟩ (by omega) (by omega)
          exact bracket.above j (by omega) bound

/-- Where the search says no, everything before the place is smaller and everything from there on
is larger. -/
theorem Ascending.split_of_search {s : IdSet} (h : s.Ascending) {k i : Nat}
    (missed : s.search k = (false, i)) :
    (∀ m ∈ s.toList.take i, m < k) ∧ ∀ m ∈ s.toList.drop i, k < m := by
  have length : s.toList.length = s.ids.size := Array.length_toList
  rcases Nat.eq_zero_or_pos s.ids.size with none | some
  · have nothing : s.toList = [] := List.eq_nil_of_length_eq_zero (length.trans none)
    simp [nothing]
  · have start : Bracket s.ids k 0 s.ids.size := ⟨by omega, .inl rfl, fun j _ _ => by omega⟩
    have bracket := start.narrow h some (Nat.le_refl _)
    unfold search at missed
    generalize narrow s.ids k s.ids.size 0 s.ids.size = b at bracket missed
    obtain ⟨within, below, above⟩ := bracket
    have bound : b < s.ids.size := by omega
    rw [Array.getElem?_eq_getElem bound] at missed
    simp only [Array.getD_eq_getD_getElem?, Array.getElem?_eq_getElem bound,
      Option.getD_some] at below
    dsimp only at missed
    split at missed
    · cases missed
    · rename_i other
      obtain ⟨-, rfl⟩ := Prod.mk.inj missed
      -- all behind `b` is larger; whether the entry at `b` is smaller decides where to put `k`
      have upper : ∀ m ∈ s.toList.drop (b + 1), k < m := by
        intro m member
        obtain ⟨j, bound, rfl⟩ := List.mem_drop_iff_getElem.mp member
        have here := above (b + 1 + j) (by omega) (by omega)
        rw [Array.getD_eq_getD_getElem?, Array.getElem?_eq_getElem (by omega)] at here
        simpa only [toList, Array.getElem_toList, Option.getD_some] using here
      split
      · rename_i smaller
        refine ⟨fun m member => ?_, upper⟩
        obtain ⟨j, bound', rfl⟩ := List.mem_take_iff_getElem.mp member
        rcases Nat.eq_or_lt_of_le (show j ≤ b by omega) with same | earlier
        · subst same
          simpa only [toList, Array.getElem_toList] using smaller
        · have sorted := h.lt_of_lt (by omega) bound earlier
          simp only [toList, Array.getElem_toList]
          omega
      · rename_i larger
        -- the search ends at an entry that is too large only if it never left the start
        obtain rfl : b = 0 := below.resolve_right (by omega)
        refine ⟨by simp, fun m member => ?_⟩
        rw [List.drop_zero] at member
        obtain ⟨j, bound', rfl⟩ := List.mem_iff_getElem.mp member
        simp only [toList, Array.getElem_toList]
        rcases Nat.eq_zero_or_pos j with rfl | later
        · omega
        · have sorted := h.lt_of_lt bound (show j < s.ids.size by omega) later
          omega

theorem Ascending.contains_of_mem {s : IdSet} (h : s.Ascending) {k : Nat} (member : k ∈ s.toList) :
    s.contains k = true := by
  cases found : s.search k with
  | mk here i =>
      cases here with
      | true => simp [contains, found]
      | false =>
          obtain ⟨below, above⟩ := h.split_of_search found
          rw [← List.take_append_drop i s.toList] at member
          rcases List.mem_append.mp member with before | after
          · exact absurd (below k before) (Nat.lt_irrefl k)
          · exact absurd (above k after) (Nat.lt_irrefl k)

theorem insertIdx_eq_take_drop {xs : List Nat} {i : Nat} (bound : i ≤ xs.length) (x : Nat) :
    xs.insertIdx i x = xs.take i ++ x :: xs.drop i := by
  induction xs generalizing i with
  | nil =>
      obtain rfl : i = 0 := by simpa using bound
      rfl
  | cons y ys ih =>
      cases i with
      | zero => rfl
      | succ i =>
          have shorter : i ≤ ys.length := by simpa using bound
          simp [ih shorter]

theorem toList_insert {s : IdSet} {k i : Nat} (missed : s.search k = (false, i)) :
    (s.insert k).2.toList = s.toList.take i ++ k :: s.toList.drop i := by
  have bound := search_le_size missed
  unfold insert
  rw [missed]
  simp only [toList, Array.insertIdxIfInBounds, bound, ↓reduceDIte, Array.toList_insertIdx]
  exact insertIdx_eq_take_drop (by simpa using bound) k

theorem Ascending.insert {s : IdSet} (h : s.Ascending) (k : Nat) : (s.insert k).2.Ascending := by
  cases found : s.search k with
  | mk here i =>
      cases here with
      | true =>
          have kept : (s.insert k).2 = s := by simp [IdSet.insert, found]
          rwa [kept]
      | false =>
          have split := h.split_of_search found
          unfold Ascending
          rw [toList_insert found, List.pairwise_append, List.pairwise_cons]
          refine ⟨h.sublist (List.take_sublist i _),
            ⟨split.2, h.sublist (List.drop_sublist i _)⟩, ?_⟩
          intro a before b after
          rcases List.mem_cons.mp after with rfl | after
          · exact split.1 a before
          · exact Nat.lt_trans (split.1 a before) (split.2 b after)

/-- A set that grew by a number has one member more. -/
theorem size_insert {s : IdSet} {k : Nat} (grown : (s.insert k).1 = true) :
    (s.insert k).2.size = s.size + 1 := by
  cases found : s.search k with
  | mk here i =>
      cases here with
      | true => simp [insert, found] at grown
      | false =>
          have bound := search_le_size found
          rw [size_eq_length_toList, toList_insert found, size_eq_length_toList]
          have length : s.toList.length = s.ids.size := Array.length_toList
          simp only [List.length_append, List.length_cons, List.length_take, List.length_drop]
          omega

theorem mergeHead_eq (x : Nat) (xs ys : List Nat) (rest : List Nat → List Nat) (y : Nat) :
    mergeHead x xs rest (y :: ys) =
      if x < y then x :: rest (y :: ys)
      else if y < x then y :: mergeHead x xs rest ys
      else x :: rest ys := rfl

/-- Merging ascending lists gives an ascending one. -/
theorem pairwise_merge {xs ys : List Nat} (hx : xs.Pairwise (· < ·)) (hy : ys.Pairwise (· < ·)) :
    (merge xs ys).Pairwise (· < ·) := by
  induction xs generalizing ys with
  | nil => exact hy
  | cons x xs ih =>
      obtain ⟨least, sorted⟩ := List.pairwise_cons.mp hx
      unfold merge
      -- `merge` recurs on the first list and `mergeHead`, within it, on the second one
      induction ys with
      | nil => exact hx
      | cons y ys ih' =>
          obtain ⟨least', sorted'⟩ := List.pairwise_cons.mp hy
          rw [mergeHead_eq]
          split
          · rename_i before
            refine List.pairwise_cons.mpr ⟨fun m member => ?_, ih sorted hy⟩
            rcases (mem_merge xs (y :: ys) m).mp member with here | there
            · exact least m here
            · rcases List.mem_cons.mp there with rfl | later
              · exact before
              · exact Nat.lt_trans before (least' m later)
          · split
            · rename_i after
              refine List.pairwise_cons.mpr ⟨fun m member => ?_, ih' sorted'⟩
              rcases (mem_mergeHead (mem_merge xs) ys m).mp member with here | there
              · rcases List.mem_cons.mp here with rfl | later
                · exact after
                · exact Nat.lt_trans after (least m later)
              · exact least' m there
            · have same : x = y := by omega
              refine List.pairwise_cons.mpr ⟨fun m member => ?_, ih sorted sorted'⟩
              rcases (mem_merge xs ys m).mp member with here | there
              · exact least m here
              · exact same ▸ least' m there

theorem Ascending.union {s t : IdSet} (hs : s.Ascending) (ht : t.Ascending) :
    (s.union t).2.Ascending := by
  unfold IdSet.union
  split
  · exact hs
  · split
    · exact ht
    · split
      · exact hs
      · have merged := pairwise_merge hs ht
        simpa [Ascending, toList] using merged

/-- Dropping what is smaller than a member of an ascending list leads to the member, with all that
is larger behind it. -/
theorem dropWhile_of_mem {others : List Nat} (ho : others.Pairwise (· < ·)) {k : Nat}
    (here : k ∈ others) :
    ∃ rest, others.dropWhile (fun o => decide (o < k)) = k :: rest ∧
      rest.Pairwise (· < ·) ∧ ∀ m ∈ others, k < m → m ∈ rest := by
  induction others with
  | nil => cases here
  | cons o others ih =>
      obtain ⟨least, sorted⟩ := List.pairwise_cons.mp ho
      by_cases smaller : o < k
      · have later : k ∈ others := (List.mem_cons.mp here).resolve_left (by omega)
        obtain ⟨rest, dropped, ascending, behind⟩ := ih sorted later
        refine ⟨rest, by simp [smaller, dropped], ascending, fun m member larger => ?_⟩
        exact behind m ((List.mem_cons.mp member).resolve_left (by omega)) larger
      · have first : k = o := by
          rcases List.mem_cons.mp here with same | later
          · exact same
          · have larger := least k later
            omega
        subst first
        refine ⟨others, by simp, sorted, fun m member larger => ?_⟩
        exact (List.mem_cons.mp member).resolve_left (by omega)

/-- A walk meets every number of an ascending list that stands in the other one. -/
theorem walksIn_of_subset {ks others : List Nat} (hk : ks.Pairwise (· < ·))
    (ho : others.Pairwise (· < ·)) (inside : ∀ k ∈ ks, k ∈ others) : walksIn ks others = true := by
  induction ks generalizing others with
  | nil => rfl
  | cons k ks ih =>
      obtain ⟨least, sorted⟩ := List.pairwise_cons.mp hk
      obtain ⟨rest, dropped, ascending, behind⟩ :=
        dropWhile_of_mem ho (inside k List.mem_cons_self)
      have walked := ih sorted ascending fun m member =>
        behind m (inside m (List.mem_cons_of_mem k member)) (least m member)
      simp [walksIn, dropped, walked]

theorem Ascending.nodup {s : IdSet} (h : s.Ascending) : s.toList.Nodup :=
  h.imp fun smaller => Nat.ne_of_lt smaller

theorem Ascending.isSubset_of_subset {s t : IdSet} (hs : s.Ascending) (ht : t.Ascending)
    (inside : ∀ k ∈ s.toList, k ∈ t.toList) : s.isSubset t = true := by
  have shorter : s.size ≤ t.size := hs.nodup.length_le_of_subset inside
  simp [isSubset, shorter, walksIn_of_subset hs ht inside]

/-- A set that grew by another one has more members. -/
theorem Ascending.size_union {s t : IdSet} (hs : s.Ascending) (ht : t.Ascending)
    (grown : (s.union t).1 = true) : s.size < (s.union t).2.size := by
  have all := mem_union s t
  obtain ⟨m, new, missing⟩ : ∃ m ∈ t.toList, m ∉ s.toList := by
    apply Classical.byContradiction
    intro inside
    have within : t.isSubset s = true := ht.isSubset_of_subset hs fun k member =>
      Classical.byContradiction fun missing => inside ⟨k, member, missing⟩
    obtain ⟨m, member⟩ := List.exists_mem_of_ne_nil _ (ne_nil_of_union grown)
    have some : s.isEmpty = false := by
      refine Bool.eq_false_iff.mpr fun none => inside ⟨m, member, ?_⟩
      simp [(isEmpty_iff s).mp none]
    unfold IdSet.union at grown
    rw [some, within] at grown
    split at grown <;> cases grown
  have distinct : (m :: s.toList).Nodup := List.nodup_cons.mpr ⟨missing, hs.nodup⟩
  refine distinct.length_le_of_subset fun k member => ?_
  rcases List.mem_cons.mp member with rfl | member
  · exact (all k).mpr (.inr new)
  · exact (all k).mpr (.inl member)

end CallFlow.IdSet
