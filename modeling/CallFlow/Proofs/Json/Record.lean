import CallFlow.Json.Record
import CallFlow.Proofs.Json.Text

/-! Records in a text: what is written for a leaf, a list or a record is spelled as JSON spells it,
and is read as that leaf, that list or those fields. -/

namespace CallFlow.Json

theorem spelled_text (s : String) : (text s).Spelled := ⟨s.toList, by simp⟩

theorem spelled_nat (n : Nat) : (nat n).Spelled := Number.exists_split?_toString n

theorem asText?_text (s : String) : (text s).asText? = some s := by
  simp [text, asText?, unescape?_escape]

theorem asNat?_nat {bound n : Nat} (below : n < bound) : (nat n).asNat? bound = some n :=
  Number.natural?_toString below

theorem asUInt32?_nat (v : UInt32) : (nat v.toNat).asUInt32? = some v := by
  simp [asUInt32?, asNat?_nat v.toNat_lt_size]

theorem isReadable_text (depth : Nat) (s : String) : (text s).isReadable depth = true := by
  simp [text, isReadable, unescape?_escape]

theorem isReadable_nat (depth : Nat) (v : UInt32) : (nat v.toNat).isReadable depth = true := by
  have below : v.toNat < UInt64.size := Nat.lt_trans v.toNat_lt_size (by decide)
  simp only [nat, isReadable, Number.natural?_toString below, Option.isSome_some, Bool.true_or]

section Lists

variable {α : Type} {f : Json → Option α} {g : α → Json} {xs : List α}

theorem allSpelled_iff {js : List Json} : AllSpelled js ↔ ∀ j ∈ js, j.Spelled := by
  induction js with
  | nil => simp [AllSpelled]
  | cons j js ih => simp [AllSpelled, ih]

theorem spelled_array (each : ∀ x ∈ xs, (g x).Spelled) : (Json.array (xs.map g)).Spelled := by
  refine allSpelled_iff.mpr fun j member => ?_
  obtain ⟨x, here, rfl⟩ := List.mem_map.mp member
  exact each x here

theorem mapM_map_eq {β : Type} {f : β → Option α} {g : α → β} (each : ∀ x ∈ xs, f (g x) = some x) :
    (xs.map g).mapM f = some xs := by
  induction xs with
  | nil => rfl
  | cons x xs ih =>
      have later := ih fun y member => each y (List.mem_cons_of_mem x member)
      simp [List.mapM_cons, each x List.mem_cons_self, later]

theorem asList?_array (each : ∀ x ∈ xs, f (g x) = some x) :
    (Json.array (xs.map g)).asList? f = some xs := mapM_map_eq each

theorem isReadable_array {depth : Nat} (each : ∀ x ∈ xs, (g x).isReadable depth = true) :
    (Json.array (xs.map g)).isReadable (depth + 1) = true := by
  change areReadable depth (xs.map g) = true
  induction xs with
  | nil => rfl
  | cons x xs ih =>
      have later := ih fun y member => each y (List.mem_cons_of_mem x member)
      simp [areReadable, each x List.mem_cons_self, later]

theorem spelled_option {o : Option α} (each : ∀ x, (g x).Spelled) : (option g o).Spelled := by
  cases o with
  | none => trivial
  | some x => exact each x

theorem asOption?_option {o : Option α} (each : ∀ x, f (g x) = some x) (other : ∀ x, g x ≠ .null) :
    (option g o).asOption? f = some o := by
  cases o with
  | none => rfl
  | some x =>
      have here := other x
      have read := each x
      unfold option asOption?
      dsimp only
      split
      · rename_i same
        exact absurd same here
      · rw [read]
        rfl

theorem isReadable_option {o : Option α} {depth : Nat}
    (each : ∀ x, (g x).isReadable depth = true) : (option g o).isReadable depth = true := by
  cases o with
  | none => rfl
  | some x => exact each x

end Lists

section Records

variable {ms : List (String × Json)} {known : List String}

theorem record_eq (ms : List (String × Json)) :
    record ms = .object (ms.map fun m => member m.1 m.2) := rfl

theorem unescape?_member (name : String) (j : Json) :
    unescape? (member name j).1.toList = some name.toList := by
  simp [member, unescape?_escape]

theorem spelled_record (each : ∀ m ∈ ms, m.2.Spelled) : (record ms).Spelled := by
  rw [record_eq, Spelled]
  induction ms with
  | nil => trivial
  | cons m ms ih =>
      refine ⟨⟨m.1.toList, by simp⟩, each m List.mem_cons_self, ?_⟩
      exact ih fun m' member => each m' (List.mem_cons_of_mem m member)

theorem isReadable_record {depth : Nat} (each : ∀ m ∈ ms, m.2.isReadable depth = true) :
    (record ms).isReadable (depth + 1) = true := by
  rw [record_eq, isReadable]
  induction ms with
  | nil => rfl
  | cons m ms ih =>
      have later := ih fun m' member => each m' (List.mem_cons_of_mem m member)
      have name := unescape?_member m.1 m.2
      have here : (member m.1 m.2).2.isReadable depth = true := each m List.mem_cons_self
      simp only [List.map_cons, membersReadable, name, here, later, Option.isSome_some,
        Bool.and_self]

theorem named?_map_member : named? (ms.map fun m => member m.1 m.2) = some ms := by
  induction ms with
  | nil => rfl
  | cons m ms ih =>
      have name := unescape?_member m.1 m.2
      simp only [List.map_cons, named?, name, ih, Option.map_some, String.ofList_toList]
      rfl

theorem distinctNames_of_nodup (distinct : (ms.map (·.1)).Nodup) : distinctNames ms = true := by
  induction ms with
  | nil => rfl
  | cons m ms ih =>
      obtain ⟨new, later⟩ := List.nodup_cons.mp distinct
      have apart : ms.any (fun m' => decide (m'.1 = m.1)) = false := by
        rw [List.any_eq_false]
        intro m' here same
        exact new (List.mem_map.mpr ⟨m', here, of_decide_eq_true same⟩)
      simp [distinctNames, apart, ih later]

/-- Of a record whose names all differ, those fields are read that are known. -/
theorem fields?_record (distinct : (ms.map (·.1)).Nodup) :
    (record ms).fields? known false = some ⟨false, ms.filter fun m => decide (m.1 ∈ known)⟩ := by
  have names := distinctNames_of_nodup
    (distinct.sublist (List.filter_sublist.map _) :
      ((ms.filter fun m => decide (m.1 ∈ known)).map (·.1)).Nodup)
  simp only [record_eq, fields?, named?_map_member, names, Bool.false_and, Bool.not_false,
    Bool.and_self, if_true]

/-- A record of all fields that are known is read as these fields. -/
theorem fields?_record_all (names : ms.map (·.1) = known) (distinct : known.Nodup) :
    (record ms).fields? known false = some ⟨false, ms⟩ := by
  rw [fields?_record (names ▸ distinct), List.filter_eq_self.mpr]
  intro m here
  exact decide_eq_true (names ▸ List.mem_map_of_mem here)

end Records

end CallFlow.Json
