import CallFlow.Proofs.Listing

/-! The listing as a table of rows, each ended by a line feed, with tabs between the cells. A reader
gets the rows back exactly if no cell has one of these signs, and names and files may have them. -/

namespace CallFlow

/-- The lines of a text, each ended by a line feed; nothing if text stands behind the last one. -/
def endedLines? (s : String) : Option (List (List Char)) :=
  if (s.toList.splitOn '\n').getLast? = some [] then some (s.toList.splitOn '\n').dropLast else none

def cells (line : List Char) : List String := (line.splitOn '\t').map String.ofList

def tableRows? (s : String) : Option (List (List String)) := (endedLines? s).map (·.map cells)

def tableText (rows : List (List String)) : String :=
  String.join ((rows.map "\t".intercalate).map (· ++ "\n"))

/-- A piece of a text between signs is a part of the text and has no such sign. -/
theorem notMem_and_sublist_of_mem_splitOn {c : Char} {cs piece : List Char}
    (member : piece ∈ cs.splitOn c) : c ∉ piece ∧ piece.Sublist cs := by
  induction cs generalizing piece with
  | nil => simp_all
  | cons x cs ih =>
      rw [List.splitOn_cons_eq_if_modifyHead] at member
      obtain ⟨first, rest, pieces⟩ := List.exists_cons_of_ne_nil (List.splitOn_ne_nil c cs)
      rw [pieces] at member ih
      split at member
      · rcases List.mem_cons.mp member with rfl | later
        · exact ⟨List.not_mem_nil, List.nil_sublist _⟩
        · obtain ⟨lacks, part⟩ := ih later
          exact ⟨lacks, part.cons x⟩
      · rename_i other
        rcases List.mem_cons.mp member with rfl | later
        · obtain ⟨lacks, part⟩ := ih List.mem_cons_self
          have apart : c ≠ x := fun same => other (by simp [same])
          exact ⟨List.not_mem_cons_of_ne_of_not_mem apart lacks, part.cons_cons x⟩
        · obtain ⟨lacks, part⟩ := ih (List.mem_cons_of_mem _ later)
          exact ⟨lacks, part.cons x⟩

section Tables

variable {lines row : List String} {rows : List (List String)}

theorem toList_join_lines : (String.join (lines.map (· ++ "\n"))).toList =
    ['\n'].intercalate (lines.map String.toList ++ [[]]) := by
  induction lines with
  | nil => rfl
  | cons line lines ih =>
      rw [List.map_cons, String.join_cons, String.toList_append, ih, List.map_cons,
        List.cons_append, List.intercalate_cons_of_ne_nil (by simp)]
      simp

theorem endedLines?_join (ended : ∀ line ∈ lines, Lacks '\n' line) :
    endedLines? (String.join (lines.map (· ++ "\n"))) = some (lines.map String.toList) := by
  have pieces : (String.join (lines.map (· ++ "\n"))).toList.splitOn '\n' =
      lines.map String.toList ++ [[]] := by
    rw [toList_join_lines]
    refine List.splitOn_intercalate '\n' (fun l member => ?_) (by simp)
    rcases List.mem_append.mp member with here | last
    · obtain ⟨line, listed, rfl⟩ := List.mem_map.mp here
      exact ended line listed
    · rw [List.mem_singleton.mp last]
      exact List.not_mem_nil
  simp [endedLines?, pieces, -String.toList_join]

theorem cells_intercalate (filled : row ≠ []) (plain : ∀ cell ∈ row, Lacks '\t' cell) :
    cells ("\t".intercalate row).toList = row := by
  have split : ("\t".intercalate row).toList.splitOn '\t' = row.map String.toList := by
    rw [String.toList_intercalate]
    refine List.splitOn_intercalate '\t' (fun l member => ?_) (by simpa using filled)
    obtain ⟨cell, here, rfl⟩ := List.mem_map.mp member
    exact plain cell here
  rw [cells, split, List.map_map]
  exact (List.map_congr_left fun cell _ => String.ofList_toList).trans (List.map_id row)

/-- What is read as a cell has neither sign, wherever it is read from. -/
theorem unbroken_of_tableRows? {s : String} (read : tableRows? s = some rows) :
    ∀ row ∈ rows, ∀ cell ∈ row, Unbroken cell := by
  obtain ⟨lines, ended, rfl⟩ := Option.map_eq_some_iff.mp read
  obtain rfl := Option.some.inj (Option.ite_none_right_eq_some.mp ended).2
  intro row member cell here
  obtain ⟨line, listed, rfl⟩ := List.mem_map.mp member
  obtain ⟨piece, apart, rfl⟩ := List.mem_map.mp here
  obtain ⟨noTab, part⟩ := notMem_and_sublist_of_mem_splitOn apart
  obtain ⟨noEnd, -⟩ := notMem_and_sublist_of_mem_splitOn (List.dropLast_subset _ listed)
  unfold Unbroken Lacks
  rw [String.toList_ofList]
  exact ⟨noTab, fun ending => noEnd (part.subset ending)⟩

/-- A table is read back exactly if none of its cells has a sign that takes it apart. -/
theorem tableRows?_tableText_iff (filled : ∀ row ∈ rows, row ≠ []) :
    tableRows? (tableText rows) = some rows ↔ ∀ row ∈ rows, ∀ cell ∈ row, Unbroken cell := by
  refine ⟨unbroken_of_tableRows?, fun plain => ?_⟩
  have ended : ∀ line ∈ rows.map "\t".intercalate, Lacks '\n' line := by
    intro line member
    obtain ⟨row, here, rfl⟩ := List.mem_map.mp member
    exact lacks_intercalate (by decide) fun cell inside => (plain row here cell inside).2
  have back : ∀ row ∈ rows, cells ("\t".intercalate row).toList = row := fun row here =>
    cells_intercalate (filled row here) fun cell inside => (plain row here cell inside).1
  rw [tableRows?, tableText, endedLines?_join ended, Option.map_some, List.map_map, List.map_map]
  exact congrArg some ((List.map_congr_left back).trans (List.map_id rows))

end Tables

namespace CallGraph

variable {p : Program} {places : Bool} {g : CallGraph} {e : Edge}

/-- The columns of an edge as the nodes at its ends give them. -/
def edgeRow? (p : Program) (places : Bool) (g : CallGraph) (e : Edge) : Option (List String) :=
  match g.node? e.caller, g.node? e.callee with
  | some caller, some callee => some (edgeColumns p places caller e.site callee)
  | _, _ => none

theorem edgeLine?_eq_map :
    g.edgeLine? p places e = (g.edgeRow? p places e).map "\t".intercalate := by
  unfold edgeLine? edgeRow?
  cases g.node? e.caller <;> cases g.node? e.callee <;> rfl

theorem edgeRow?_eq_some_iff {row : List String} : g.edgeRow? p places e = some row ↔ ∃ n m,
    g.node? e.caller = some n ∧ g.node? e.callee = some m ∧
      row = edgeColumns p places n e.site m := by
  unfold edgeRow?
  cases g.node? e.caller <;> cases g.node? e.callee <;> simp [eq_comm]

theorem length_of_edgeRow? {row : List String} (found : g.edgeRow? p places e = some row) :
    row.length = 5 := by
  obtain ⟨n, m, -, -, rfl⟩ := edgeRow?_eq_some_iff.mp found
  rfl

/-- A row of a listing is that of one of its edges. -/
theorem exists_edge_of_rows {rows : List (List String)} {row : List String}
    (all : g.edges.map (g.edgeRow? p places) = rows.map some) (member : row ∈ rows) :
    ∃ e ∈ g.edges, g.edgeRow? p places e = some row :=
  List.mem_map.mp (all ▸ List.mem_map_of_mem member)

theorem edgeLines_of_rows {rows : List (List String)}
    (all : g.edges.map (g.edgeRow? p places) = rows.map some) :
    g.edgeLines p places = rows.map "\t".intercalate := by
  have lines : g.edges.filterMap (g.edgeLine? p places) =
      (g.edges.map (g.edgeRow? p places)).filterMap (Option.map "\t".intercalate) := by
    rw [List.filterMap_map]
    exact congrArg (List.filterMap · g.edges) (funext fun e => edgeLine?_eq_map)
  rw [edgeLines, lines, all, List.filterMap_map]
  exact congrFun List.filterMap_eq_map rows

/-- In a graph whose calls lead somewhere each edge has a row, and the rows make the listing. -/
theorem WellFormed.exists_rows (wf : g.WellFormed) (p : Program) (places : Bool) :
    ∃ rows, g.edges.map (g.edgeRow? p places) = rows.map some ∧
      g.written p places = (tableText rows, rows.length) := by
  have each : ∀ e ∈ g.edges, ∃ row, g.edgeRow? p places e = some row := by
    intro e member
    have listed : (g.edgeLine? p places e).isSome := wf.edgeLine?_isSome member
    rw [edgeLine?_eq_map, Option.isSome_map] at listed
    exact Option.isSome_iff_exists.mp listed
  obtain ⟨rows, all⟩ := exists_map_eq each
  refine ⟨rows, all, ?_⟩
  rw [written, listing, edgeLines_of_rows all, List.length_map]
  rfl

theorem Spelled.unbroken_rows (spelled : g.Spelled p) (wf : g.WellFormed)
    (plain : p.UnbrokenFor places) {rows : List (List String)}
    (all : g.edges.map (g.edgeRow? p places) = rows.map some) :
    ∀ row ∈ rows, ∀ cell ∈ row, Unbroken cell := by
  intro row member
  obtain ⟨e, here, found⟩ := exists_edge_of_rows all member
  obtain ⟨n, m, caller, callee, rfl⟩ := edgeRow?_eq_some_iff.mp found
  exact (spelled.columns wf here caller callee).unbroken plain

end CallGraph

variable {p : Program} {o : Options} {monitor : Nat → Option CancelReason} {a : Analysis}

/-- The listing of an answer has one row of five columns for each edge, in their order, and says how
many these are. Read as a table it answers the rows exactly if no column has a sign that takes
tables apart, as none does where neither names nor files have one. -/
theorem listing_tabular (run : analyze p o monitor = .ok a) (places : Bool) :
    ∃ rows, a.graph.edges.map (a.graph.edgeRow? p places) = rows.map some ∧
      (∀ row ∈ rows, row.length = 5) ∧
      rows.length = a.graph.edgeCount ∧ (a.graph.written p places).2 = a.graph.edgeCount ∧
      (tableRows? (a.graph.written p places).1 = some rows ↔
        ∀ row ∈ rows, ∀ cell ∈ row, Unbroken cell) ∧
      (p.UnbrokenFor places → tableRows? (a.graph.written p places).1 = some rows) := by
  have counted := counted_of_analyze run
  have wf := counted.wellFormed
  obtain ⟨rows, all, written⟩ := wf.exists_rows p places
  have five : ∀ row ∈ rows, row.length = 5 := by
    intro row member
    obtain ⟨e, -, found⟩ := CallGraph.exists_edge_of_rows all member
    exact CallGraph.length_of_edgeRow? found
  have count : rows.length = a.graph.edgeCount := by
    rw [counted.count]
    simpa using (congrArg List.length all).symm
  have read : tableRows? (a.graph.written p places).1 = some rows ↔
      ∀ row ∈ rows, ∀ cell ∈ row, Unbroken cell := by
    rw [written]
    exact tableRows?_tableText_iff fun row member =>
      List.ne_nil_of_length_eq_add_one (five row member)
  refine ⟨rows, all, five, count, ?_, read, fun plain => read.mpr ?_⟩
  · rw [written]
    exact count
  · exact (spelled_of_analyze run).unbroken_rows wf plain all

/-- The small program has no signs in its names, so that its listing has five rows, in either
form. -/
theorem listing_tabular_tour : ∃ a, analyze .tour .thorough (fun _ => none) = .ok a ∧
    ∀ places, Program.tour.UnbrokenFor places ∧ (a.graph.written .tour places).2 = 5 ∧
      (tableRows? (a.graph.written .tour places).1).map List.length = some 5 := by
  have plain : ∀ places, Program.tour.UnbrokenFor places := fun places =>
    ⟨by unfold Program.Unbroken; decide, fun _ => by decide⟩
  have run := analyze_eq (p := .tour) (o := .thorough) (by rfl) (by rfl) fun _ => none
  have five : ((Setup.ofOptions .tour .thorough).run fun _ => none).graph.edgeCount = 5 := by
    decide +kernel
  refine ⟨_, run, fun places => ⟨plain places, ?_⟩⟩
  obtain ⟨rows, -, -, count, said, -, read⟩ := listing_tabular run places
  rw [read (plain places), Option.map_some, count, said]
  exact ⟨five, congrArg some five⟩

/-- A script whose name goes on in a second line, and its function, in whose name is a tab. -/
def Program.torn : Program where
  functions :=
    [{ id := 0
       name := "Lmain\nmenu.js"
       thisVar := 0
       instructions := [.closure 1 1, .invoke { callee := 1 }] },
     { id := 1, name := "Lmain\nmenu.js/tab\tstop", thisVar := 0 }]
  entryPoints := [0]

/-- The two edges of the torn program have five lines, and not all of these have five columns. -/
theorem torn_listing_not_tabular : ¬ ∀ (p : Program) (o : Options)
    (monitor : Nat → Option CancelReason) (a : Analysis) (places : Bool),
    analyze p o monitor = .ok a → ∃ rows, tableRows? (a.graph.written p places).1 = some rows ∧
      rows.length = a.graph.edgeCount ∧ ∀ row ∈ rows, row.length = 5 := by
  intro tabular
  have run := analyze_eq (p := .torn) (o := {}) (by rfl) (by rfl) fun _ => none
  obtain ⟨rows, read, count, -⟩ := tabular _ _ _ _ false run
  have five : (tableRows? (((Setup.ofOptions .torn {}).run fun _ => none).graph.written .torn
      false).1).map List.length = some 5 := by
    decide +kernel
  have two : ((Setup.ofOptions .torn {}).run fun _ => none).graph.edgeCount = 2 := by
    decide +kernel
  rw [read, Option.map_some, Option.some.injEq, count, two] at five
  exact absurd five (by decide)

end CallFlow
