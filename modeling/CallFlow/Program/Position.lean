/-! Source positions of instructions, in ascending order of the instructions and at most one for
each. Both facts are part of the type, so a table is determined by what it answers. -/

namespace CallFlow

structure Position where
  line : UInt32
  column : UInt32
deriving DecidableEq, Repr

def Position.text (p : Position) : String := toString p.line ++ ":" ++ toString p.column

abbrev PositionEntry := UInt32 × Position

namespace PositionEntry

/-- Puts a position where its instruction belongs in an ascending list, in place of the one that
the list already holds for the instruction. -/
def insertInto (entry : PositionEntry) : List PositionEntry → List PositionEntry
  | [] => [entry]
  | other :: rest =>
    if entry.1 < other.1 then entry :: other :: rest
    else if entry.1 = other.1 then entry :: rest
    else other :: insertInto entry rest

theorem eq_or_mem_of_mem_insertInto {entry e : PositionEntry} {es : List PositionEntry}
    (h : e ∈ insertInto entry es) : e = entry ∨ e ∈ es := by
  induction es with
  | nil => simpa [insertInto] using h
  | cons other rest ih =>
    simp only [insertInto] at h
    split at h
    · simpa using h
    · split at h
      · rcases List.mem_cons.1 h with h | h
        · exact Or.inl h
        · exact Or.inr (List.mem_cons_of_mem _ h)
      · rcases List.mem_cons.1 h with h | h
        · exact Or.inr (h ▸ List.mem_cons_self)
        · exact (ih h).imp_right (List.mem_cons_of_mem _)

theorem ascending_insertInto (entry : PositionEntry) {es : List PositionEntry}
    (h : es.Pairwise (fun a b => a.1 < b.1)) :
    (insertInto entry es).Pairwise (fun a b => a.1 < b.1) := by
  induction es with
  | nil => simp [insertInto]
  | cons other rest ih =>
    obtain ⟨first, later⟩ := List.pairwise_cons.1 h
    simp only [insertInto]
    split
    · rename_i lt
      refine List.pairwise_cons.2 ⟨fun e he => ?_, h⟩
      rcases List.mem_cons.1 he with rfl | he
      · exact lt
      · exact UInt32.lt_trans lt (first e he)
    · split
      · rename_i eq
        exact List.pairwise_cons.2 ⟨fun e he => eq ▸ first e he, later⟩
      · rename_i notLt ne
        refine List.pairwise_cons.2 ⟨fun e he => ?_, ih later⟩
        rcases eq_or_mem_of_mem_insertInto he with rfl | he
        · exact UInt32.lt_of_le_of_ne (UInt32.not_lt.1 notLt) (fun h => ne h.symm)
        · exact first e he

end PositionEntry

structure PositionTable where
  entries : List PositionEntry := []
  ascending : entries.Pairwise (fun a b => a.1 < b.1) := by simp
deriving DecidableEq, Repr

namespace PositionTable

def empty : PositionTable := {}

instance : Inhabited PositionTable := ⟨empty⟩

def set (t : PositionTable) (pc : UInt32) (p : Position) : PositionTable :=
  ⟨PositionEntry.insertInto (pc, p) t.entries, PositionEntry.ascending_insertInto _ t.ascending⟩

def ofList (es : List PositionEntry) : PositionTable :=
  es.foldl (fun t (pc, p) => t.set pc p) empty

def find? (t : PositionTable) (pc : Nat) : Option Position :=
  (t.entries.find? fun (k, _) => decide (k.toNat = pc)).map (·.2)

end PositionTable

end CallFlow
