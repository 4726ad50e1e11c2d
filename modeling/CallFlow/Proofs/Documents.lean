import CallFlow.Program.Document
import CallFlow.Proofs.Json.Record

/-! Program documents that are read back. The one thing that a document may lose is a number
constant, since a text is not always read as the number nearest to it. -/

namespace CallFlow

open Json

theorem Position.ofJson?_toJson (p : Position) : ofJson? p.toJson = some p := by
  have fields : p.toJson.fields? ["line", "column"] false =
      some ⟨false, [("line", .nat p.line.toNat), ("column", .nat p.column.toNat)]⟩ :=
    fields?_record_all rfl (by decide)
  simp [ofJson?, fields, Fields.required, Fields.get?, List.lookup_cons, asUInt32?_nat]

theorem Position.spelled_toJson (p : Position) : p.toJson.Spelled :=
  spelled_record (by simp [spelled_nat])

namespace PositionTable

theorem entry?_member (e : PositionEntry) :
    entry? (Json.member (toString e.1) e.2.toJson) = some e := by
  have number : Number.natural? UInt32.size (toString e.1.toNat) = some e.1.toNat :=
    Number.natural?_toString e.1.toNat_lt_size
  have name : (Json.member (toString e.1) e.2.toJson).1 = toString e.1.toNat := by
    have digits := escape_of_isDigit (Number.isDigit_of_mem_toDigits e.1.toNat)
    have same : toString e.1 = String.ofList (Nat.toDigits 10 e.1.toNat) := rfl
    simp only [member, same, String.toList_ofList, digits, Nat.toString_eq_ofList_toDigits]
  have position : Position.ofJson? (Json.member (toString e.1) e.2.toJson).2 = some e.2 :=
    Position.ofJson?_toJson e.2
  unfold entry?
  rw [name, number, position]
  simp

theorem insertInto_last {e : PositionEntry} {es : List PositionEntry}
    (later : ∀ other ∈ es, other.1 < e.1) : PositionEntry.insertInto e es = es ++ [e] := by
  induction es with
  | nil => rfl
  | cons other es ih =>
      have before := later other List.mem_cons_self
      have notBefore : ¬ e.1 < other.1 := by
        intro after
        exact absurd (UInt32.lt_trans before after) (UInt32.lt_irrefl _)
      have apart : e.1 ≠ other.1 := by
        intro same
        exact absurd before (same ▸ UInt32.lt_irrefl _)
      rw [PositionEntry.insertInto, if_neg notBefore, if_neg apart,
        ih fun o member => later o (List.mem_cons_of_mem other member)]
      rfl

/-- Positions in ascending order are put into a table one behind the other. -/
theorem entries_foldl_set (t : PositionTable) (es : List PositionEntry)
    (ascending : (t.entries ++ es).Pairwise fun a b => a.1 < b.1) :
    (es.foldl (fun t (pc, p) => t.set pc p) t).entries = t.entries ++ es := by
  induction es generalizing t with
  | nil => simp
  | cons e es ih =>
      have later : ∀ other ∈ t.entries, other.1 < e.1 := fun other member =>
        (List.pairwise_append.mp ascending).2.2 other member e List.mem_cons_self
      have put : (t.set e.1 e.2).entries = t.entries ++ [e] := insertInto_last later
      have rest := ih (t.set e.1 e.2) (by rw [put, List.append_assoc]; exact ascending)
      rw [List.foldl_cons, rest, put, List.append_assoc]
      rfl

theorem ofList_entries (t : PositionTable) : ofList t.entries = t := by
  have same : (ofList t.entries).entries = t.entries :=
    entries_foldl_set empty t.entries t.ascending
  cases t
  cases here : ofList _
  simp_all

theorem ofJson?_toJson (t : PositionTable) : ofJson? t.toJson = some t := by
  have each : (t.entries.map fun e => Json.member (toString e.1) e.2.toJson).mapM entry? =
      some t.entries := mapM_map_eq fun e _ => entry?_member e
  have written : t.toJson =
      .object (t.entries.map fun e => Json.member (toString e.1) e.2.toJson) := by
    simp [toJson, record_eq]
  rw [written]
  simp only [ofJson?, each, Option.map_some, ofList_entries]

theorem spelled_toJson (t : PositionTable) : t.toJson.Spelled := by
  refine spelled_record fun m member => ?_
  obtain ⟨e, -, rfl⟩ := List.mem_map.mp member
  exact e.2.spelled_toJson

end PositionTable

/-- The number that a literal is. -/
def Literal.number? : Literal → Option Binary64
  | .number x => some x
  | .boolean _ | .string _ | .null => none

def Instruction.number? : Instruction → Option Binary64
  | .constant _ value => value.number?
  | _ => none

def FunctionBody.numbers (f : FunctionBody) : List Binary64 :=
  f.instructions.filterMap Instruction.number?

/-- The numbers that the instructions of a program make constant. -/
def Program.numbers (p : Program) : List Binary64 := p.functions.flatMap FunctionBody.numbers

/-- A number is finite, and its text in a document is read as that number. -/
structure Binary64.ReadsBack (x : Binary64) : Prop where
  finite : x.isFinite = true
  reread : Number.read? x.toDocumentText = some x

theorem Binary64.ReadsBack.json {x : Binary64} (back : x.ReadsBack) :
    Json.float x = .number x.toDocumentText := if_pos back.finite

namespace Literal

variable {l : Literal} (back : ∀ x, l.number? = some x → x.ReadsBack)

include back

theorem ofJson?_toJson : ofJson? (l.toJson Json.float) = some l := by
  cases l with
  | boolean b => rfl
  | number x =>
      have here := back x rfl
      simp [toJson, here.json, ofJson?, here.reread]
  | string s =>
      change (Json.text s).asText?.map string = some (string s)
      rw [asText?_text]
      rfl
  | null => rfl

theorem spelled_toJson : (l.toJson Json.float).Spelled := by
  cases l with
  | boolean b => trivial
  | number x =>
      have here := back x rfl
      rw [toJson, here.json]
      exact Number.exists_split?_of_read? here.reread
  | string s => exact spelled_text s
  | null => trivial

theorem isReadable_toJson (depth : Nat) : (l.toJson Json.float).isReadable depth = true := by
  cases l with
  | boolean b => rfl
  | number x =>
      have here := back x rfl
      simp [toJson, here.json, isReadable, here.reread]
  | string s => exact isReadable_text depth s
  | null => rfl

end Literal

theorem CallKind.ofWord?_word (k : CallKind) : ofWord? k.word = some k := by
  cases k <;> rfl

namespace Instruction

theorem names_members (number : Binary64 → Json) (i : Instruction) :
    fieldsOfWord? i.word = some ((i.members number).map (·.1)) := by
  cases i <;> simp [fieldsOfWord?, word, members, List.lookup_cons]

theorem nodup_names (number : Binary64 → Json) (i : Instruction) :
    ("op" :: (i.members number).map (·.1)).Nodup := by
  cases i <;> simp [members]

theorem asUInt32?_varJson (v : VarId) : (varJson v).asUInt32? = some v := asUInt32?_nat v

theorem varJson_ne_null (v : VarId) : varJson v ≠ .null := nofun

theorem asOption?_varJson (o : Option VarId) :
    (Json.option varJson o).asOption? Json.asUInt32? = some o :=
  asOption?_option asUInt32?_varJson varJson_ne_null

theorem asList?_varJson (vs : List VarId) :
    (Json.array (vs.map varJson)).asList? Json.asUInt32? = some vs :=
  asList?_array fun v _ => asUInt32?_varJson v

theorem ofWord?_text (k : CallKind) :
    ((Json.text k.word).asInnerWord?.bind CallKind.ofWord?) = some k := by
  have read : (Json.text k.word).asInnerWord? = some k.word := asText?_text k.word
  rw [read]
  exact k.ofWord?_word

theorem spelled_varJson (v : VarId) : (varJson v).Spelled := spelled_nat v.toNat

theorem spelled_varsJson (vs : List VarId) : (Json.array (vs.map varJson)).Spelled :=
  spelled_array fun v _ => spelled_varJson v

theorem isReadable_varJson (depth : Nat) (v : VarId) : (varJson v).isReadable depth = true :=
  isReadable_nat depth v

theorem isReadable_varsJson (depth : Nat) (vs : List VarId) :
    (Json.array (vs.map varJson)).isReadable (depth + 1) = true :=
  isReadable_array fun v _ => isReadable_varJson depth v

/-- What is left of members without the one that names the form. -/
theorem filterMap_zip_members {ms : List (String × Json)} (plain : "op" ∉ ms.map (·.1)) :
    ((ms.map fun m => member m.1 m.2).zip ms).filterMap (fun (m, n) =>
      if n.1 = "op" then none else some m) = ms.map fun m => member m.1 m.2 := by
  induction ms with
  | nil => rfl
  | cons m ms ih =>
      have here : m.1 ≠ "op" := fun same => plain (by simp [same])
      have later := ih fun there => plain (List.mem_cons_of_mem _ there)
      simp [here, later]

/-- The form of an instruction is split off its fields. -/
theorem split?_record {op : String} {ms : List (String × Json)}
    (distinct : ("op" :: ms.map (·.1)).Nodup) :
    split? (.record (("op", .text op) :: ms)) = some (op, .record ms) := by
  have plain := (List.nodup_cons.mp distinct).1
  have others : ms.filter (fun m => decide (m.1 ∈ ["op"])) = [] := by
    rw [List.filter_eq_nil_iff]
    intro m here same
    have named : m.1 = "op" := by simpa using same
    exact plain (List.mem_map.mpr ⟨m, here, named⟩)
  have fields : (Json.record (("op", .text op) :: ms)).fields? ["op"] false =
      some ⟨false, [("op", .text op)]⟩ := by
    have nodup : ((("op", Json.text op) :: ms).map (·.1)).Nodup := distinct
    rw [fields?_record nodup, List.filter_cons, others]
    rfl
  have names : named? ((("op", Json.text op) :: ms).map fun m => member m.1 m.2) =
      some (("op", .text op) :: ms) := named?_map_member
  have left := filterMap_zip_members plain
  simp only [record_eq] at fields ⊢
  simp only [split?, fields, names]
  simp [Fields.required, Fields.get?, asText?_text, left]

section Members

variable {i : Instruction} (back : ∀ x, i.number? = some x → x.ReadsBack)

include back

/-- The fields of an instruction are read as that instruction. -/
theorem ofFields?_members : ofFields? i.word ⟨false, i.members Json.float⟩ = some i := by
  cases i with
  | constant dst value =>
      have read := Literal.ofJson?_toJson (l := value) back
      simp [ofFields?, word, members, Fields.required, Fields.get?, List.lookup_cons, read,
        asUInt32?_varJson]
  | invoke call =>
      simp [ofFields?, word, members, Fields.required, Fields.defaulted, Fields.get?,
        List.lookup_cons, asUInt32?_varJson, asOption?_varJson, asList?_varJson, ofWord?_text]
  | ret value =>
      simp [ofFields?, word, members, Fields.nullable, Fields.get?, asOption?_varJson]
  | _ =>
      simp [ofFields?, word, members, Fields.required, Fields.get?, List.lookup_cons,
        asUInt32?_varJson, asUInt32?_nat, asText?_text, asList?_varJson]

theorem spelled_members : ∀ m ∈ i.members Json.float, m.2.Spelled := by
  cases i with
  | constant dst value =>
      simp [members, spelled_varJson, Literal.spelled_toJson (l := value) back]
  | _ =>
      simp [members, spelled_varJson, spelled_nat, spelled_text, spelled_varsJson,
        spelled_option spelled_varJson]

theorem isReadable_members (depth : Nat) :
    ∀ m ∈ i.members Json.float, m.2.isReadable (depth + 1) = true := by
  cases i with
  | constant dst value =>
      simp [members, isReadable_varJson, Literal.isReadable_toJson (l := value) back]
  | _ =>
      simp [members, isReadable_varJson, isReadable_nat, isReadable_text, isReadable_varsJson,
        isReadable_option (isReadable_varJson _)]

theorem ofJson?_toJson : ofJson? instructionDepth (i.toJson Json.float) = some i := by
  have readable : (i.toJson Json.float).isReadable (nestingLimit - instructionDepth) = true := by
    refine (isReadable_record fun m member => ?_ :
      (i.toJson Json.float).isReadable (122 + 1) = true)
    rcases List.mem_cons.mp member with rfl | member
    · exact isReadable_text _ _
    · exact isReadable_members back 121 m member
  have names := nodup_names Json.float i
  have fields := fields?_record_all (rfl : (i.members Json.float).map (·.1) = _)
    (List.nodup_cons.mp names).2
  unfold ofJson?
  rw [if_pos readable, toJson, split?_record names]
  simp [names_members Json.float, fields, ofFields?_members back]

theorem spelled_toJson : (i.toJson Json.float).Spelled := by
  refine spelled_record fun m member => ?_
  rcases List.mem_cons.mp member with rfl | member
  · exact spelled_text _
  · exact spelled_members back m member

end Members

end Instruction

namespace FunctionBody

variable {f : FunctionBody} (back : ∀ x ∈ f.numbers, x.ReadsBack)

include back

theorem readsBack_of_mem {i : Instruction} (member : i ∈ f.instructions) :
    ∀ x, i.number? = some x → x.ReadsBack :=
  fun x number => back x (List.mem_filterMap.mpr ⟨i, member, number⟩)

theorem ofJson?_toJson : ofJson? (f.toJson Json.float) = some f := by
  have fields : (f.toJson Json.float).fields?
      ["id", "name", "file", "this_param", "params", "instructions", "positions"] false =
        some ⟨false, _⟩ := fields?_record_all rfl (by decide)
  have file : (Json.option Json.text f.file).asOption? Json.asText? = some f.file :=
    asOption?_option asText?_text nofun
  have instructions : (Json.array (f.instructions.map (·.toJson Json.float))).asList?
      (Instruction.ofJson? instructionDepth) = some f.instructions :=
    asList?_array fun i member => Instruction.ofJson?_toJson (readsBack_of_mem back member)
  have params := Instruction.asList?_varJson f.params
  simp [ofJson?, fields, Fields.required, Fields.defaulted, Fields.get?, List.lookup_cons,
    asUInt32?_nat, asText?_text, file, params, instructions, PositionTable.ofJson?_toJson]

theorem spelled_toJson : (f.toJson Json.float).Spelled := by
  have instructions : (Json.array (f.instructions.map (·.toJson Json.float))).Spelled :=
    spelled_array fun i member => Instruction.spelled_toJson (readsBack_of_mem back member)
  refine spelled_record ?_
  simp [spelled_nat, spelled_text, spelled_option spelled_text, Instruction.spelled_varsJson,
    instructions, PositionTable.spelled_toJson]

end FunctionBody

namespace Sample

/-- A script with an instruction of each form and a literal of each kind. -/
def script : FunctionBody :=
  { id := 0
    name := "Lapp.js"
    file := some "app.js"
    thisVar := 0
    params := [1, 2]
    instructions :=
      [.newObject 3, .newArray 4, .closure 5 1, .constant 6 (.number ⟨0x3ff8000000000000⟩),
        .constant 7 (.number ⟨0x8000000000000000⟩), .constant 8 (.string "a \"key\"\x07\n"),
        .constant 9 (.boolean true), .constant 10 .null, .copy 11 3, .phi 12 [3, 4],
        .getProperty 13 3 "run", .putProperty 3 "\\" 6, .getDynamic 14 3 8, .putDynamic 3 8 6,
        .globalRead 15 "window", .globalWrite "app" 3, .lexicalRead 16 "count" 1,
        .lexicalWrite "count" 0 7, .invoke ⟨some 17, 5, some 3, [1, 12], .construct⟩,
        .invoke ⟨none, 5, none, [], .call⟩, .ret (some 17)]
    positions := .ofList [(18, ⟨4, 2⟩), (0, ⟨1, 0⟩)] }

def helper : FunctionBody :=
  { id := 1, name := "Lapp.js/helper", thisVar := 0, instructions := [.ret none] }

def app : Program := ⟨[script, helper], [0]⟩

end Sample

namespace Program

variable {p : Program}

section Parse

variable (back : ∀ x ∈ p.numbers, x.ReadsBack)

include back

theorem readsBack_of_mem {f : FunctionBody} (member : f ∈ p.functions) :
    ∀ x ∈ f.numbers, x.ReadsBack :=
  fun x number => back x (List.mem_flatMap.mpr ⟨f, member, number⟩)

theorem ofJson?_toJson : ofJson? (p.toJson Json.float) = some p := by
  have fields : (p.toJson Json.float).fields? ["functions", "entry_points"] false =
      some ⟨false, _⟩ := fields?_record_all rfl (by decide)
  have functions : (Json.array (p.functions.map (·.toJson Json.float))).asList?
      FunctionBody.ofJson? = some p.functions :=
    asList?_array fun f member => FunctionBody.ofJson?_toJson (readsBack_of_mem back member)
  have entries : (Json.array (p.entryPoints.map fun e => .nat e.toNat)).asList? Json.asUInt32? =
      some p.entryPoints := asList?_array fun e _ => asUInt32?_nat e
  simp [ofJson?, fields, Fields.required, Fields.get?, List.lookup_cons, functions, entries]

theorem spelled_toJson : (p.toJson Json.float).Spelled := by
  have functions : (Json.array (p.functions.map (·.toJson Json.float))).Spelled :=
    spelled_array fun f member => FunctionBody.spelled_toJson (readsBack_of_mem back member)
  have entries : (Json.array (p.entryPoints.map fun e => .nat e.toNat)).Spelled :=
    spelled_array fun e _ => spelled_nat e.toNat
  refine spelled_record ?_
  simp [functions, entries]

/-- The document of a program is read as that program, well-formed or not. -/
theorem parse?_render : parse? p.render = some p := by
  rw [parse?, render, Json.parse?_render (spelled_toJson back)]
  exact ofJson?_toJson back

end Parse

/-- A well-formed program whose constants are finite numbers that their texts write is what is
loaded from its document. -/
theorem load_render (p : Program) (accepted : p.validate = .ok ())
    (finite : ∀ x ∈ p.numbers, x.isFinite = true)
    (reread : ∀ x ∈ p.numbers, Number.read? x.toDocumentText = some x) :
    load p.render = .ok p := by
  have parsed := parse?_render fun x member => ⟨finite x member, reread x member⟩
  unfold load
  rw [parsed]
  dsimp only
  rw [accepted]

theorem load_render_app :
    Sample.app.validate = .ok () ∧ Sample.app.numbers.length = 2 ∧
      load Sample.app.render = .ok Sample.app := by
  have accepted : Sample.app.validate = .ok () := rfl
  have finite : ∀ x ∈ Sample.app.numbers, x.isFinite = true := by decide +kernel
  have reread : ∀ x ∈ Sample.app.numbers, Number.read? x.toDocumentText = some x := by
    decide +kernel
  exact ⟨accepted, by decide +kernel, load_render Sample.app accepted finite reread⟩

end Program

end CallFlow
