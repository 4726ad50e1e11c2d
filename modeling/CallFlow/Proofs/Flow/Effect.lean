import CallFlow.Proofs.Flow.Builds
import CallFlow.Proofs.Flow.Finding

/-! What a solver knows, by name, and what is done to it. After a list of findings was enacted the
solver knows them, and all else that it knows it knew before or has by passing objects along edges.
-/

namespace CallFlow.Solver

variable {ν : Type}

/-- What the numbers of a solver stand for, if the nodes are these. -/
def tables (s : Solver) (nodes : Nat → Option ν) : Tables ν :=
  ⟨nodes, s.names, s.objects, s.locations⟩

/-- All numbers were handed out. -/
structure Valid (s : Solver) (nodes : Nat → Option ν) : Prop where
  size : s.cells.size = s.locations.size
  locations : ∀ k l, s.locations.value? k = some l → ∃ p, (s.tables nodes).placeOf? l = some p
  members : ∀ k i, i ∈ s.members k → k < s.cells.size ∧ i < s.objects.size
  successors : ∀ a b, b ∈ s.successors a → a < s.cells.size ∧ b < s.cells.size
  constraints : ∀ k c, c ∈ s.constraints k →
    k < s.cells.size ∧ ∃ d, (s.tables nodes).demand? c = some d
  coherent : s.worklist.Coherent
  ascending : ∀ k, (s.facts k).Ascending

/-- What a solver knows. -/
inductive Knows (s : Solver) (nodes : Nat → Option ν) : Finding ν → Prop
  | name {n} : n ∈ s.names.values → Knows s nodes (.name n)
  | object {o} : o ∈ s.objects.values → Knows s nodes (.object o)
  | place {k p} : (s.tables nodes).place? k = some p → Knows s nodes (.place p)
  | holds {k i p o} : (s.tables nodes).place? k = some p → s.objects.value? i = some o →
      i ∈ s.members k → Knows s nodes (.holds p o)
  | self {k p} : (s.tables nodes).place? k = some p → Knows s nodes (.flows p p)
  | flows {a b p q} : (s.tables nodes).place? a = some p → (s.tables nodes).place? b = some q →
      b ∈ s.successors a → Knows s nodes (.flows p q)
  | attached {k c p d} : (s.tables nodes).place? k = some p → (s.tables nodes).demand? c = some d →
      c ∈ s.constraints k → Knows s nodes (.attached p d)

variable {s t u : Solver} {nodes : Nat → Option ν}

theorem Grows.tables (h : s.Grows t) (nodes : Nat → Option ν) :
    (s.tables nodes).Extends (t.tables nodes) :=
  ⟨fun _ _ here => here, h.names, h.objects, h.locations⟩

theorem Keeps.tables (h : s.Keeps t) (nodes : Nat → Option ν) :
    t.tables nodes = s.tables nodes := by
  simp only [Solver.tables, h.names, h.objects, h.locations]

theorem Valid.lt_size (h : s.Valid nodes) {k : Nat} {p : Place ν}
    (here : (s.tables nodes).place? k = some p) : k < s.cells.size := by
  obtain ⟨l, known, -⟩ := Option.bind_eq_some_iff.mp here
  exact h.size ▸ Numbering.lt_size_of_value? known

theorem Valid.lt_size_of_members (h : s.Valid nodes) {k : Nat} (some : s.members k ≠ []) :
    k < s.cells.size := by
  obtain ⟨i, held⟩ := List.exists_mem_of_ne_nil _ some
  exact (h.members k i held).1

theorem Valid.place (h : s.Valid nodes) {k : Nat} (bound : k < s.cells.size) :
    ∃ p, (s.tables nodes).place? k = some p := by
  obtain ⟨l, known⟩ := (s.locations.value?_isSome_iff k).mpr (h.size ▸ bound)
  obtain ⟨p, here⟩ := h.locations k l known
  exact ⟨p, Option.bind_eq_some_iff.mpr ⟨l, known, here⟩⟩

/-- A location that was handed out keeps its place, so that later places of it are earlier ones. -/
theorem Valid.place?_of_grows (h : s.Valid nodes) (grown : s.Grows t) {k : Nat} {p : Place ν}
    (bound : k < s.cells.size) (here : (t.tables nodes).place? k = some p) :
    (s.tables nodes).place? k = some p := by
  obtain ⟨q, before⟩ := h.place bound
  rw [(grown.tables nodes).place? before] at here
  exact Option.some.inj here ▸ before

theorem Valid.object?_of_grows (grown : s.Grows t) {i : Nat} {o : AbstractObject}
    (bound : i < s.objects.size) (here : t.objects.value? i = some o) :
    s.objects.value? i = some o := by
  obtain ⟨v, before⟩ := (s.objects.value?_isSome_iff i).mpr bound
  rw [grown.objects _ _ before] at here
  exact Option.some.inj here ▸ before

theorem Knows.mono {j : Finding ν} (h : s.Knows nodes j) (grown : s.Grows t) : t.Knows nodes j := by
  have extended := grown.tables nodes
  cases h with
  | name here =>
      obtain ⟨i, known⟩ := (Numbering.mem_values_iff _ _).mp here
      exact .name ((Numbering.mem_values_iff _ _).mpr ⟨i, grown.names _ _ known⟩)
  | object here =>
      obtain ⟨i, known⟩ := (Numbering.mem_values_iff _ _).mp here
      exact .object ((Numbering.mem_values_iff _ _).mpr ⟨i, grown.objects _ _ known⟩)
  | place here => exact .place (extended.place? here)
  | holds here known held =>
      exact .holds (extended.place? here) (grown.objects _ _ known) (grown.members _ _ held)
  | self here => exact .self (extended.place? here)
  | flows here there linked =>
      exact .flows (extended.place? here) (extended.place? there) (grown.successors _ _ linked)
  | attached here meant imposed =>
      exact .attached (extended.place? here) (extended.demand? meant)
        (grown.constraints _ _ imposed)

/-- What waits has no part in what is known. -/
theorem knows_worklist {w : Worklist} {j : Finding ν} :
    Knows { s with worklist := w } nodes j ↔ s.Knows nodes j := by
  constructor
  · intro known
    cases known with
    | name here => exact .name here
    | object here => exact .object here
    | place here => exact .place here
    | self here => exact .self here
    | holds here handed held => exact .holds here handed held
    | flows here there linked => exact .flows here there linked
    | attached here meant imposed => exact .attached here meant imposed
  · intro known
    cases known with
    | name here => exact .name here
    | object here => exact .object here
    | place here => exact .place here
    | self here => exact .self here
    | holds here handed held => exact .holds here handed held
    | flows here there linked => exact .flows here there linked
    | attached here meant imposed => exact .attached here meant imposed

theorem Valid.worklist (h : s.Valid nodes) {w : Worklist} (coherent : w.Coherent) :
    Valid { s with worklist := w } nodes :=
  ⟨h.size, h.locations, h.members, h.successors, h.constraints, coherent, h.ascending⟩

section Widen

variable {more : Nat → Option ν} (wider : ∀ i n, nodes i = some n → more i = some n)

include wider

theorem tables_extends (s : Solver) : (s.tables nodes).Extends (s.tables more) :=
  ⟨wider, .refl _, .refl _, .refl _⟩

/-- All that a solver numbered has its meaning already. -/
theorem Valid.place?_widen (h : s.Valid nodes) {k : Nat} {p : Place ν} :
    (s.tables more).place? k = some p ↔ (s.tables nodes).place? k = some p := by
  constructor
  · intro here
    obtain ⟨l, known, -⟩ := Option.bind_eq_some_iff.mp here
    obtain ⟨q, before⟩ := h.place (h.size ▸ Numbering.lt_size_of_value? known)
    rw [(tables_extends wider s).place? before] at here
    exact Option.some.inj here ▸ before
  · exact (tables_extends wider s).place?

theorem Valid.demand?_widen (h : s.Valid nodes) {k : Nat} {c : Constraint} {d : Demand ν}
    (imposed : c ∈ s.constraints k) :
    (s.tables more).demand? c = some d ↔ (s.tables nodes).demand? c = some d := by
  constructor
  · intro here
    obtain ⟨-, e, before⟩ := h.constraints k c imposed
    rw [(tables_extends wider s).demand? before] at here
    exact Option.some.inj here ▸ before
  · exact (tables_extends wider s).demand?

theorem Valid.widen (h : s.Valid nodes) : s.Valid more where
  size := h.size
  locations k l known := by
    obtain ⟨p, here⟩ := h.locations k l known
    exact ⟨p, (tables_extends wider s).placeOf? here⟩
  members := h.members
  successors := h.successors
  constraints k c imposed := by
    obtain ⟨bound, d, here⟩ := h.constraints k c imposed
    exact ⟨bound, d, (tables_extends wider s).demand? here⟩
  coherent := h.coherent
  ascending := h.ascending

theorem Valid.knows_widen (h : s.Valid nodes) (j : Finding ν) :
    s.Knows more j ↔ s.Knows nodes j := by
  constructor
  · intro known
    cases known with
    | name here => exact .name here
    | object here => exact .object here
    | place here => exact .place ((h.place?_widen wider).mp here)
    | self here => exact .self ((h.place?_widen wider).mp here)
    | holds here handed held => exact .holds ((h.place?_widen wider).mp here) handed held
    | flows here there linked =>
        exact .flows ((h.place?_widen wider).mp here) ((h.place?_widen wider).mp there) linked
    | attached here meant imposed =>
        exact .attached ((h.place?_widen wider).mp here) ((h.demand?_widen wider imposed).mp meant)
          imposed
  · intro known
    cases known with
    | name here => exact .name here
    | object here => exact .object here
    | place here => exact .place ((h.place?_widen wider).mpr here)
    | self here => exact .self ((h.place?_widen wider).mpr here)
    | holds here handed held => exact .holds ((h.place?_widen wider).mpr here) handed held
    | flows here there linked =>
        exact .flows ((h.place?_widen wider).mpr here) ((h.place?_widen wider).mpr there) linked
    | attached here meant imposed =>
        exact .attached ((h.place?_widen wider).mpr here)
          ((h.demand?_widen wider imposed).mpr meant) imposed

end Widen

/-- Findings among which objects are passed along edges. -/
structure Passing (D : Finding ν → Prop) : Prop where
  self : ∀ p, D (.place p) → D (.flows p p)
  pass : ∀ p q o, D (.flows p q) → D (.holds p o) → D (.holds q o)

/-- The second solver is what the first one becomes when a list of findings is enacted. -/
structure Enacts (nodes : Nat → Option ν) (s t : Solver) (js : List (Finding ν)) : Prop where
  valid : t.Valid nodes
  grows : s.Grows t
  builds : s.Builds t
  known : ∀ j ∈ js, t.Knows nodes j
  sound : ∀ D : Finding ν → Prop, Passing D → (∀ j, s.Knows nodes j → D j) → (∀ j ∈ js, D j) →
    ∀ j, t.Knows nodes j → D j

theorem Enacts.refl (valid : s.Valid nodes) : Enacts nodes s s [] where
  valid := valid
  grows := .refl s
  builds := .refl
  known := by simp
  sound _ _ before _ := before

theorem Enacts.trans {js ks : List (Finding ν)} (first : Enacts nodes s t js)
    (second : Enacts nodes t u ks) : Enacts nodes s u (js ++ ks) where
  valid := second.valid
  grows := first.grows.trans second.grows
  builds := first.builds.trans second.builds
  known j here := by
    rcases List.mem_append.mp here with here | here
    · exact (first.known j here).mono second.grows
    · exact second.known j here
  sound D passing before all := by
    refine second.sound D passing ?_ fun j here => all j (List.mem_append_right _ here)
    exact first.sound D passing before fun j here => all j (List.mem_append_left _ here)

/-- Doing something for every member of a list enacts what each of them asks for. -/
theorem Enacts.foldl {α : Type} {f : Solver → α → Solver} {g : α → List (Finding ν)}
    {P : Solver → Prop} (stable : ∀ s t : Solver, s.Grows t → P s → P t) (xs : List α)
    (each : ∀ s : Solver, s.Valid nodes → P s → ∀ x ∈ xs, Enacts nodes s (f s x) (g x))
    (valid : s.Valid nodes) (start : P s) :
    Enacts nodes s (xs.foldl f s) (xs.flatMap g) := by
  induction xs generalizing s with
  | nil => exact .refl valid
  | cons x xs ih =>
      have first := each s valid start x List.mem_cons_self
      have rest := ih
        (fun s valid here y member => each s valid here y (List.mem_cons_of_mem x member))
        first.valid (stable _ _ first.grows start)
      exact first.trans rest

/-- What only numbers things enacts that they are known. -/
theorem Enacts.of_cells {js : List (Finding ν)} (valid : s.Valid nodes) (grows : s.Grows t)
    (builds : s.Builds t) (cells : ∀ k, t.cell k = s.cell k)
    (size : t.cells.size = t.locations.size) (worklist : t.worklist = s.worklist)
    (names : ∀ n, n ∈ t.names.values → n ∈ s.names.values ∨ .name n ∈ js)
    (objects : ∀ o, o ∈ t.objects.values → o ∈ s.objects.values ∨ .object o ∈ js)
    (places : ∀ k l, t.locations.value? k = some l → s.locations.value? k = some l ∨
      ∃ p, (t.tables nodes).placeOf? l = some p ∧ .place p ∈ js)
    (known : ∀ j ∈ js, t.Knows nodes j) : Enacts nodes s t js := by
  have extended := grows.tables nodes
  have wider : s.cells.size ≤ t.cells.size := by
    rw [valid.size, size]
    exact grows.locations.size_le
  -- a place is old, or it is one of those that are asked for
  have place : ∀ D : Finding ν → Prop, (∀ j, s.Knows nodes j → D j) → (∀ j ∈ js, D j) →
      ∀ k p, (t.tables nodes).place? k = some p → D (.place p) := by
    intro D before all k p here
    obtain ⟨l, handed, meant⟩ := Option.bind_eq_some_iff.mp here
    rcases places k l handed with old | ⟨q, same, asked⟩
    · obtain ⟨q, placed⟩ := valid.locations k l old
      rw [extended.placeOf? placed] at meant
      cases meant
      exact before _ (.place (Option.bind_eq_some_iff.mpr ⟨l, old, placed⟩))
    · rw [meant] at same
      cases same
      exact all _ asked
  refine ⟨⟨size, ?_, ?_, ?_, ?_, worklist ▸ valid.coherent, builds.ascending valid.ascending⟩,
    grows, builds, known, ?_⟩
  · intro k l handed
    rcases places k l handed with old | ⟨p, placed, -⟩
    · obtain ⟨p, placed⟩ := valid.locations k l old
      exact ⟨p, extended.placeOf? placed⟩
    · exact ⟨p, placed⟩
  · intro k i held
    have bounds := valid.members k i (members_of_cell (cells k) ▸ held)
    exact ⟨Nat.lt_of_lt_of_le bounds.1 wider, Nat.lt_of_lt_of_le bounds.2 grows.objects.size_le⟩
  · intro a b linked
    have bounds := valid.successors a b (successors_of_cell (cells a) ▸ linked)
    exact ⟨Nat.lt_of_lt_of_le bounds.1 wider, Nat.lt_of_lt_of_le bounds.2 wider⟩
  · intro k c imposed
    obtain ⟨bound, d, meant⟩ := valid.constraints k c (constraints_of_cell (cells k) ▸ imposed)
    exact ⟨Nat.lt_of_lt_of_le bound wider, d, extended.demand? meant⟩
  · intro D passing before all j here
    cases here with
    | name here => exact (names _ here).elim (fun old => before _ (.name old)) (all _)
    | object here => exact (objects _ here).elim (fun old => before _ (.object old)) (all _)
    | place here => exact place D before all _ _ here
    | self here => exact passing.self _ (place D before all _ _ here)
    | holds here handed held =>
        rw [members_of_cell (cells _)] at held
        have bounds := valid.members _ _ held
        exact before _ (.holds (valid.place?_of_grows grows bounds.1 here)
          (Valid.object?_of_grows grows bounds.2 handed) held)
    | flows here there linked =>
        rw [successors_of_cell (cells _)] at linked
        have bounds := valid.successors _ _ linked
        exact before _ (.flows (valid.place?_of_grows grows bounds.1 here)
          (valid.place?_of_grows grows bounds.2 there) linked)
    | attached here meant imposed =>
        rw [constraints_of_cell (cells _)] at imposed
        obtain ⟨bound, d, same⟩ := valid.constraints _ _ imposed
        rw [extended.demand? same] at meant
        cases meant
        exact before _ (.attached (valid.place?_of_grows grows bound here) same imposed)

theorem value?_name (s : Solver) (n : String) :
    (s.name n).2.names.value? (s.name n).1 = some n := by
  simp only [name, Numbering.findOrNumber_eq_number]
  exact Numbering.value?_number ..

theorem enacts_name (valid : s.Valid nodes) (n : String) :
    Enacts nodes s (s.name n).2 [.name n] := by
  have names : (s.name n).2.names = (s.names.number n).2 := by
    simp only [name, Numbering.findOrNumber_eq_number]
  have grows : s.Grows (s.name n).2 :=
    .of_cells rfl (names ▸ Numbering.extends_number _ _) (.refl _) (.refl _) (fun _ => rfl)
      (fun _ here => here) fun _ waits => waits
  refine .of_cells valid grows (.name n .refl) (fun _ => rfl) valid.size rfl ?_
    (fun _ here => .inl here)
    (fun _ _ here => .inl here) ?_
  · intro m here
    rw [names, Numbering.mem_values_number] at here
    exact here.imp_right fun same => by simp [same]
  · intro j here
    obtain rfl := List.mem_singleton.mp here
    exact .name ((Numbering.mem_values_iff _ _).mpr ⟨_, value?_name s n⟩)

theorem value?_object (s : Solver) (o : AbstractObject) :
    (s.object o).2.objects.value? (s.object o).1 = some o := Numbering.value?_number ..

theorem enacts_object (valid : s.Valid nodes) (o : AbstractObject) :
    Enacts nodes s (s.object o).2 [.object o] := by
  have grows : s.Grows (s.object o).2 :=
    .of_cells rfl (.refl _) (Numbering.extends_number _ _) (.refl _) (fun _ => rfl)
      (fun _ here => here) fun _ waits => waits
  refine .of_cells valid grows (.object o .refl) (fun _ => rfl) valid.size rfl
    (fun _ here => .inl here) ?_
    (fun _ _ here => .inl here) ?_
  · intro v here
    exact ((Numbering.mem_values_number _ _ _).mp here).imp_right fun same => by simp [same]
  · intro j here
    obtain rfl := List.mem_singleton.mp here
    exact .object ((Numbering.mem_values_iff _ _).mpr ⟨_, value?_object s o⟩)

theorem value?_location (s : Solver) (l : Location) :
    (s.location l).2.locations.value? (s.location l).1 = some l := Numbering.value?_number ..

theorem size_location (s : Solver) (l : Location) (size : s.cells.size = s.locations.size) :
    (s.location l).2.cells.size = (s.location l).2.locations.size := by
  cases known : s.locations.find? l with
  | some k => simpa [location, Numbering.numberNew_of_find?_eq_some known] using size
  | none =>
      simp only [location, Numbering.numberNew_of_find?_eq_none known]
      simp [Numbering.size_eq_length_values, size]

theorem place?_location {l : Location} {p : Place ν}
    (meant : (s.tables nodes).placeOf? l = some p) :
    ((s.location l).2.tables nodes).place? (s.location l).1 = some p :=
  Option.bind_eq_some_iff.mpr ⟨l, value?_location s l, meant⟩

theorem enacts_location (valid : s.Valid nodes) {l : Location} {p : Place ν}
    (meant : (s.tables nodes).placeOf? l = some p) :
    Enacts nodes s (s.location l).2 [.place p] := by
  have grows : s.Grows (s.location l).2 :=
    .of_cells rfl (.refl _) (.refl _) (Numbering.extends_number _ _) (cell_location s l)
      (fun _ here => here) fun _ waits => waits
  refine .of_cells valid grows (.location l .refl) (cell_location s l)
    (size_location s l valid.size) rfl
    (fun _ here => .inl here) (fun _ here => .inl here) ?_ ?_
  · intro k m here
    rcases (Numbering.value?_number_eq_some_iff _ _ _ _).mp here with old | ⟨-, rfl⟩
    · exact .inl old
    · exact .inr ⟨p, (grows.tables nodes).placeOf? meant, List.mem_singleton_self _⟩
  · intro j here
    obtain rfl := List.mem_singleton.mp here
    exact .place (place?_location meant)

/-- What numbers nothing enacts the findings that its additions stand for. Objects may also have
come along an edge that is among the findings. -/
theorem Enacts.of_keeps {js : List (Finding ν)} (valid : s.Valid nodes) (keeps : s.Keeps t)
    (grows : s.Grows t) (builds : s.Builds t)
    (members : ∀ k i, i ∈ t.members k → i ∈ s.members k ∨
      ∃ p o, (s.tables nodes).place? k = some p ∧ s.objects.value? i = some o ∧
        (.holds p o ∈ js ∨ ∃ q, .flows q p ∈ js ∧ s.Knows nodes (.holds q o)))
    (successors : ∀ a b, b ∈ t.successors a → b ∈ s.successors a ∨
      ∃ p q, (s.tables nodes).place? a = some p ∧ (s.tables nodes).place? b = some q ∧
        .flows p q ∈ js)
    (constraints : ∀ k c, c ∈ t.constraints k → c ∈ s.constraints k ∨
      ∃ p d, (s.tables nodes).place? k = some p ∧ (s.tables nodes).demand? c = some d ∧
        .attached p d ∈ js)
    (known : ∀ j ∈ js, t.Knows nodes j) : Enacts nodes s t js := by
  have tables := keeps.tables nodes
  refine ⟨⟨?_, ?_, ?_, ?_, ?_, builds.queues.coherent valid.coherent,
      builds.ascending valid.ascending⟩, grows, builds, known, ?_⟩
  · rw [keeps.size, keeps.locations, valid.size]
  · rw [keeps.locations, tables]
    exact valid.locations
  · intro k i held
    rw [keeps.size, keeps.objects]
    rcases members k i held with old | ⟨p, o, here, handed, -⟩
    · exact valid.members k i old
    · exact ⟨valid.lt_size here, Numbering.lt_size_of_value? handed⟩
  · intro a b linked
    rw [keeps.size]
    rcases successors a b linked with old | ⟨p, q, here, there, -⟩
    · exact valid.successors a b old
    · exact ⟨valid.lt_size here, valid.lt_size there⟩
  · intro k c imposed
    rw [keeps.size, tables]
    rcases constraints k c imposed with old | ⟨p, d, here, meant, -⟩
    · exact valid.constraints k c old
    · exact ⟨valid.lt_size here, d, meant⟩
  · intro D passing before all j found
    cases found with
    | name there => exact before _ (.name (keeps.names ▸ there))
    | object there => exact before _ (.object (keeps.objects ▸ there))
    | place there => exact before _ (.place (tables ▸ there))
    | self there => exact before _ (.self (tables ▸ there))
    | holds there other held =>
        rw [tables] at there
        rw [keeps.objects] at other
        rcases members _ _ held with old | ⟨p, o, here, handed, found⟩
        · exact before _ (.holds there other old)
        · obtain rfl := Option.some.inj (here.symm.trans there)
          obtain rfl := Option.some.inj (handed.symm.trans other)
          rcases found with found | ⟨q, edge, passed⟩
          · exact all _ found
          · -- the object came along an edge that is new, from where it was held already
            exact passing.pass _ _ _ (all _ edge) (before _ passed)
    | flows there other linked =>
        rw [tables] at there other
        rcases successors _ _ linked with old | ⟨p, q, here, target, found⟩
        · exact before _ (.flows there other old)
        · obtain rfl := Option.some.inj (here.symm.trans there)
          obtain rfl := Option.some.inj (target.symm.trans other)
          exact all _ found
    | attached there other imposed =>
        rw [tables] at there other
        rcases constraints _ _ imposed with old | ⟨p, d, here, meant, found⟩
        · exact before _ (.attached there other old)
        · obtain rfl := Option.some.inj (here.symm.trans there)
          obtain rfl := Option.some.inj (meant.symm.trans other)
          exact all _ found

theorem enacts_addFact (valid : s.Valid nodes) {k i : Nat} {p : Place ν} {o : AbstractObject}
    (here : (s.tables nodes).place? k = some p) (handed : s.objects.value? i = some o) :
    Enacts nodes s (s.addFact k i).2 [.holds p o] := by
  have bound := valid.lt_size here
  have keeps := keeps_addFact s k i
  have members := fun i' j => mem_members_addFact (s := s) i bound i' j
  refine .of_keeps valid keeps (grows_addFact i valid.coherent bound) (.addFact i bound .refl)
    ?_ (fun a b linked => .inl (successors_addFact i bound a ▸ linked))
    (fun j c imposed => .inl (constraints_addFact i bound j ▸ imposed)) ?_
  · intro j m held
    rcases (members m j).mp held with old | ⟨rfl, rfl⟩
    · exact .inl old
    · exact .inr ⟨p, o, here, handed, .inl (List.mem_singleton_self _)⟩
  · intro j member
    obtain rfl := List.mem_singleton.mp member
    exact .holds (keeps.tables nodes ▸ here) (keeps.objects ▸ handed)
      ((members i k).mpr (.inr ⟨rfl, rfl⟩))

theorem enacts_addEdge (valid : s.Valid nodes) {a b : Nat} {p q : Place ν}
    (here : (s.tables nodes).place? a = some p) (there : (s.tables nodes).place? b = some q) :
    Enacts nodes s (s.addEdge a b).2 [.flows p q] := by
  have srcBound := valid.lt_size here
  have dstBound := valid.lt_size there
  have tables := (keeps_addEdge s a b).tables nodes
  have successors := mem_successors_addEdge (s := s) srcBound dstBound
  refine .of_keeps valid (keeps_addEdge s a b) (grows_addEdge valid.coherent srcBound dstBound)
    (.addEdge srcBound dstBound .refl) ?_ ?_
    (fun k c imposed => .inl (constraints_addEdge srcBound dstBound k ▸ imposed)) ?_
  · intro k i held
    rcases mem_members_of_addEdge srcBound dstBound held with old | ⟨rfl, old⟩
    · exact .inl old
    · obtain ⟨o, handed⟩ := (s.objects.value?_isSome_iff i).mpr (valid.members a i old).2
      exact .inr ⟨q, o, there, handed, .inr ⟨p, List.mem_singleton_self _, .holds here handed old⟩⟩
  · intro c d linked
    rcases (successors c d).mp linked with old | ⟨-, rfl, rfl⟩
    · exact .inl old
    · exact .inr ⟨p, q, here, there, List.mem_singleton_self _⟩
  · intro j member
    obtain rfl := List.mem_singleton.mp member
    by_cases same : a = b
    · subst same
      obtain rfl := Option.some.inj (here.symm.trans there)
      exact .self (tables ▸ here)
    · exact .flows (tables ▸ here) (tables ▸ there) ((successors a b).mpr (.inr ⟨same, rfl, rfl⟩))

theorem enacts_addConstraint (valid : s.Valid nodes) {k : Nat} {c : Constraint} {p : Place ν}
    {d : Demand ν} (here : (s.tables nodes).place? k = some p)
    (meant : (s.tables nodes).demand? c = some d) :
    Enacts nodes s (s.addConstraint k c).2 [.attached p d] := by
  have bound := valid.lt_size here
  have tables := (keeps_addConstraint s k c).tables nodes
  have constraints := mem_constraints_addConstraint (s := s) c bound
  refine .of_keeps valid (keeps_addConstraint s k c) (grows_addConstraint c valid.coherent bound)
    (.addConstraint c bound .refl) (fun j i held => .inl (members_addConstraint c bound j ▸ held))
    (fun a b linked => .inl (successors_addConstraint c bound a ▸ linked)) ?_ ?_
  · intro j e imposed
    rcases (constraints j e).mp imposed with old | ⟨rfl, rfl⟩
    · exact .inl old
    · exact .inr ⟨p, d, here, meant, List.mem_singleton_self _⟩
  · intro j member
    obtain rfl := List.mem_singleton.mp member
    exact .attached (tables ▸ here) (tables ▸ meant) ((constraints k c).mpr (.inr ⟨rfl, rfl⟩))

end CallFlow.Solver
