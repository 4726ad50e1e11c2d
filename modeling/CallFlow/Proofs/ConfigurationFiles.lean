import CallFlow.Proofs.Json.Record
import CallFlow.Proofs.Overriding
import CallFlow.Proofs.Yaml.Reader

/-! Configuration files that are read back. A limit that is not set has the word for nothing: where
it was left out, the time limit would be the default. -/

namespace CallFlow

namespace Yaml

open Number

theorem digit?_of_isDigit {c : Char} (digit : isDigit c = true) :
    digit? 10 c = some (digitValue c) := by
  simp only [isDigit, Bool.and_eq_true, decide_eq_true_eq] at digit
  have below : digitValue c < 10 := by
    have bound : c.toNat ≤ '9'.toNat := digit.2
    have nine : '9'.toNat = 57 := rfl
    have zero : '0'.toNat = 48 := rfl
    simp only [digitValue]
    omega
  simp only [digit?, digit, and_self, if_true]
  exact if_pos below

theorem digits?_of_isDigit {ds : List Char} (nonempty : ds ≠ [])
    (digits : ∀ c ∈ ds, isDigit c = true) : digits? 10 ds = some (valueOfDigits ds) := by
  have values : ds.mapM (digit? 10) = some (ds.map digitValue) := by
    induction ds with
    | nil => rfl
    | cons c ds ih =>
        have first := digit?_of_isDigit (digits c List.mem_cons_self)
        have later : ds.mapM (digit? 10) = some (ds.map digitValue) := by
          cases ds with
          | nil => rfl
          | cons d ds => exact ih nofun fun x member => digits x (List.mem_cons_of_mem c member)
        simp [List.mapM_cons, first, later]
  cases ds with
  | nil => exact absurd rfl nonempty
  | cons c ds => simp [digits?, values, valueOfDigits, List.foldl_map]

theorem natural?_toDigits (n : Nat) : natural? (Nat.toDigits 10 n) = some n := by
  have digits := isDigit_of_mem_toDigits n
  have read := digits?_of_isDigit Nat.toDigits_ne_nil digits
  rw [valueOfDigits_toDigits] at read
  have sign : (Nat.toDigits 10 n).head? ≠ some '+' := by
    intro first
    cases digits '+' (List.mem_of_head? first)
  have alone {ds : List Char} (here : Nat.toDigits 10 n = '0' :: ds) : ds = [] := by
    have one := length_of_head?_toDigits (n := n) (by rw [here]; rfl)
    simpa [here] using one
  -- A zero stands alone, so neither the sign of another base nor a needless zero is there.
  unfold natural?
  rw [if_neg sign]
  split
  · cases alone ‹_›
  · cases alone ‹_›
  · cases alone ‹_›
  · cases alone ‹_›
  · exact read

theorem isNameChar_of_isDigit {c : Char} (digit : isDigit c = true) : isNameChar c = true := by
  simp only [isDigit, Bool.and_eq_true, decide_eq_true_eq] at digit
  simp [isNameChar, digit]

theorem isWord_toDigits (n : Nat) : IsWord (Nat.toDigits 10 n) where
  nonempty := Nat.toDigits_ne_nil
  names c member := isNameChar_of_isDigit (isDigit_of_mem_toDigits n c member)
  head first := by
    have digit := isDigit_of_mem_toDigits n '-' (List.mem_of_head? first)
    cases digit

/-- A mapping whose keys are words is read entry by entry, if the keys are known and all
different. -/
theorem Document.entries?_words {d : Document} {known : List String} {es : List (String × Yaml)}
    (settled : ∀ e ∈ es, d.follow e.2 = e.2) (names : ∀ e ∈ es, e.1 ∈ known)
    (distinct : (es.map (·.1)).Nodup) :
    d.entries? known (.mapping (es.map fun e => (word e.1.toList, e.2))) = some es := by
  have each : (es.map fun e => (word e.1.toList, e.2)).mapM d.entry? = some es :=
    Json.mapM_map_eq fun e member => by
      unfold Document.entry?
      rw [settled e member]
      simp [follow, word, asText?]
  have known' : es.all (fun e => decide (e.1 ∈ known)) = true :=
    List.all_eq_true.mpr fun e member => decide_eq_true (names e member)
  simp [entries?, each, known', distinct]

end Yaml

namespace Options

open Yaml

theorem toList_toString (n : UInt64) : (toString n).toList = Nat.toDigits 10 n.toNat := by
  rw [show toString n = String.ofList (Nat.toDigits 10 n.toNat) from rfl, String.toList_ofList]

theorem limitOfYaml?_toString (n : UInt64) : limitOfYaml? (word (toString n).toList) = some n := by
  have read : natural? (toString n).toList = some n.toNat := by
    rw [toList_toString, natural?_toDigits]
  have within : n.toNat < UInt64.size := n.toNat_lt_size
  simp [limitOfYaml?, asNat?, word, meaning?, read, within]

/-- The word for a limit, or for none, is read as that. -/
theorem asOption?_limitText (limit : Option UInt64) :
    asOption? limitOfYaml? (word (limitText limit).toList) = some limit := by
  cases limit with
  | none => decide +kernel
  | some n =>
      have number : toString n ∉ "" :: nullWords := by
        intro absent
        have shape :
            ("" :: nullWords).all (fun w => w.toList.isEmpty || !w.toList.all Number.isDigit) =
              true := by decide +kernel
        have digits : (toString n).toList.all Number.isDigit = true := by
          rw [toList_toString]
          exact List.all_eq_true.mpr (Number.isDigit_of_mem_toDigits n.toNat)
        have filled : (toString n).toList ≠ [] := toList_toString n ▸ Nat.toDigits_ne_nil
        have other := List.all_eq_true.mp shape _ absent
        simp [digits, filled] at other
      have kept : (toString n = "" ∨ toString n ∈ nullWords) = False :=
        eq_false fun absent => number (List.mem_cons.mpr absent)
      have read := limitOfYaml?_toString n
      simp only [limitText, asOption?, word, String.ofList_toList] at read ⊢
      simp only [kept, if_false, read, Option.map_some]

theorem isWord_limitText (limit : Option UInt64) : IsWord (limitText limit).toList := by
  cases limit with
  | none => decide +kernel
  | some n => exact toList_toString n ▸ isWord_toDigits n.toNat

/-- The keys of the options in a file with the words for their values. -/
def entryWords (o : Options) : List (String × String) :=
  [("algorithm", o.algorithm.spelling), ("reflection", o.reflection.spelling),
    ("max_nodes", limitText o.maxNodes), ("timeout_ms", limitText o.timeoutMs),
    ("handle_call_apply", toString o.handleCallApply),
    ("use_constant_specific_keys", toString o.constantSpecific),
    ("instance_keys", o.allocationKeys.spelling)]

/-- Characters of words. -/
def characters (es : List (String × String)) : List (List Char × List Char) :=
  es.map fun e => (e.1.toList, e.2.toList)

theorem toList_toFile (o : Options) :
    o.toFile.toList =
      sectionText 2 (characters [("version", toString fileVersion)]) "analysis".toList
        (characters o.entryWords) := by
  simp [toFile, fileLines, String.join, sectionText, Layout.linesText, characters, entryWords]

theorem areWords_entryWords (o : Options) : ∀ e ∈ characters o.entryWords, Layout.AreWords e := by
  have key {k : String} (known : k ∈ fieldNames) : IsWord k.toList ∧ k.toList.length ≤ 1024 := by
    revert k
    decide +kernel
  have algorithm : IsWord o.algorithm.spelling.toList := by cases o.algorithm <;> decide +kernel
  have reflection : IsWord o.reflection.spelling.toList := by cases o.reflection <;> decide +kernel
  have allocations : IsWord o.allocationKeys.spelling.toList := by
    cases o.allocationKeys <;> decide +kernel
  have switch (b : Bool) : IsWord (toString b).toList := by cases b <;> decide +kernel
  have words : ∀ e ∈ o.entryWords, e.1 ∈ fieldNames ∧ IsWord e.2.toList := by
    simp [entryWords, fieldNames, algorithm, reflection, allocations, switch, isWord_limitText]
  intro e member
  obtain ⟨w, here, rfl⟩ := List.mem_map.mp member
  obtain ⟨known, value⟩ := words w here
  exact ⟨(key known).1, (key known).2, value⟩

theorem ofYaml?_entryWords (d : Yaml.Document) (o : Options) :
    ofYaml? d (.mapping (lineEntries (characters o.entryWords))) = some o := by
  let es : List (String × Yaml) := o.entryWords.map fun e => (e.1, word e.2.toList)
  have entries : d.entries? fieldNames (.mapping (lineEntries (characters o.entryWords))) =
      some es := by
    have same : lineEntries (characters o.entryWords) = es.map fun e => (word e.1.toList, e.2) := by
      simp [lineEntries, characters, es]
    rw [same]
    refine Document.entries?_words (fun e member => ?_) (fun e member => ?_) ?_
    · obtain ⟨w, -, rfl⟩ := List.mem_map.mp member
      rfl
    · exact List.mem_map_of_mem (f := (·.1)) member
    · exact (by decide : fieldNames.Nodup)
  have algorithm : Algorithm.ofSpelling? o.algorithm.spelling = some o.algorithm := by
    cases o.algorithm <;> decide +kernel
  have reflection : Reflection.ofSpelling? o.reflection.spelling = some o.reflection := by
    cases o.reflection <;> decide +kernel
  have allocations : AllocationKeys.ofSpelling? o.allocationKeys.spelling =
      some o.allocationKeys := by
    cases o.allocationKeys <;> decide +kernel
  have switch (b : Bool) : asBool? (word (toString b).toList) = some b := by
    cases b <;> decide +kernel
  have spelled (s : String) : asWord? (word s.toList) = some s := by simp [word, asWord?]
  unfold ofYaml?
  rw [entries]
  simp [entryOr, es, entryWords, List.lookup_cons, algorithm, reflection, allocations, switch,
    spelled, asOption?_limitText]

theorem writtenIn_toFile (o : Options) : o.WrittenIn o.toFile := by
  let analysis : Yaml := .mapping (lineEntries (characters o.entryWords))
  let es : List (String × Yaml) := [("version", word ['1']), ("analysis", analysis)]
  let root : Yaml := .mapping (es.map fun e => (word e.1.toList, e.2))
  have version : ∀ e ∈ characters [("version", toString fileVersion)], Layout.AreWords e :=
    List.forall_mem_singleton.mpr ⟨by decide +kernel, by decide +kernel, by decide +kernel⟩
  have parsed : Yaml.parse? o.toFile = some (.ofRoot root) :=
    parse?_sectionText o.toList_toFile (by decide +kernel) (by decide +kernel)
      (by simp [characters, entryWords]) version (by decide +kernel) (by decide +kernel)
      o.areWords_entryWords
  have entries (d : Yaml.Document) : d.entries? ["version", "analysis"] root = some es :=
    Document.entries?_words (by simp [es, analysis, Document.follow, word]) (by simp [es])
      (by simp [es])
  have number : asOption? (asNat? UInt32.size) (word ['1']) = some (some fileVersion) := by
    decide +kernel
  have options (d : Yaml.Document) : ofYaml? d analysis = some o := ofYaml?_entryWords d o
  have follows (d : Yaml.Document) : d.follow root = root := rfl
  unfold WrittenIn
  simp only [parsed, Option.bind_some, fileParts?, Document.ofRoot, follows, entries]
  simp [entryOr, es, List.lookup_cons, number, options]

/-- The file that is written for options is read as these options, or refused for what is wrong with
them. -/
theorem ofFile_toFile (o : Options) :
    ofFile o.toFile =
      match o.validate with
      | .error why => .error why
      | .ok () => .ok o := by
  rw [(writtenIn_toFile o).ofFile_eq]
  cases o.validate <;> rfl

end Options

end CallFlow
