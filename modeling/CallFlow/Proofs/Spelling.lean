import CallFlow.Proofs.Acceptance
import CallFlow.Proofs.Json.Numeral
import CallFlow.Report.EdgeList

/-! How functions are spelled in a listing: without the letters `L` that the name begins with,
however many these are. Where no two functions come to be spelled alike, each text stands for one
thing only. -/

namespace CallFlow

section Lists

variable {α : Type} {a : α} {w x y z : List α}

/-- What stands before the first mark, and after it, is given by the whole. -/
theorem append_cons_inj_left (hw : a ∉ w) (hy : a ∉ y) (same : w ++ a :: x = y ++ a :: z) :
    w = y ∧ x = z := by
  induction w generalizing y with
  | nil =>
      cases y with
      | nil => exact ⟨rfl, (List.cons.inj same).2⟩
      | cons b y => exact absurd ((List.cons.inj same).1 ▸ List.mem_cons_self) hy
  | cons b w ih =>
      cases y with
      | nil => exact absurd ((List.cons.inj same).1 ▸ List.mem_cons_self) hw
      | cons c y =>
          obtain ⟨rfl, rest⟩ := List.cons.inj same
          obtain ⟨rfl, rfl⟩ := ih (fun member => hw (List.mem_cons_of_mem b member))
            (fun member => hy (List.mem_cons_of_mem b member)) rest
          exact ⟨rfl, rfl⟩

/-- What stands before the last mark, and after it, is given by the whole. -/
theorem append_cons_inj_right (hx : a ∉ x) (hz : a ∉ z) (same : w ++ a :: x = y ++ a :: z) :
    w = y ∧ x = z := by
  have mirrored : x.reverse ++ a :: w.reverse = z.reverse ++ a :: y.reverse := by
    simpa using congrArg List.reverse same
  obtain ⟨after, before⟩ := append_cons_inj_left (by simpa using hx) (by simpa using hz) mirrored
  exact ⟨List.reverse_inj.mp before, List.reverse_inj.mp after⟩

end Lists

def Lacks (c : Char) (s : String) : Prop := c ∉ s.toList

instance (c : Char) (s : String) : Decidable (Lacks c s) :=
  inferInstanceAs (Decidable (c ∉ s.toList))

@[simp]
theorem lacks_append {c : Char} {s t : String} : Lacks c (s ++ t) ↔ Lacks c s ∧ Lacks c t := by
  simp [Lacks, not_or]

theorem lacks_toString {c : Char} (other : c.isDigit = false) (n : Nat) : Lacks c (toString n) := by
  intro member
  have digits : c ∈ Nat.toDigits 10 n := by simpa using member
  have digit := Nat.isDigit_of_mem_toDigits (by decide) (by decide) digits
  rw [other] at digit
  cases digit

theorem lacks_intercalate {c : Char} {mark : String} (hm : Lacks c mark) {ss : List String}
    (hs : ∀ s ∈ ss, Lacks c s) : Lacks c (mark.intercalate ss) := by
  induction ss with
  | nil => simp [Lacks]
  | cons s ss ih =>
      have first := hs s List.mem_cons_self
      have rest := ih fun t member => hs t (List.mem_cons_of_mem s member)
      cases ss with
      | nil => simpa using first
      | cons t ss =>
          rw [String.intercalate_cons_cons, lacks_append, lacks_append]
          exact ⟨⟨first, hm⟩, rest⟩

theorem toString_inj {m n : Nat} (same : toString m = toString n) : m = n := by
  have digits : Nat.toDigits 10 m = Nat.toDigits 10 n := by
    simpa using congrArg String.toList same
  rw [← Number.valueOfDigits_toDigits m, digits, Number.valueOfDigits_toDigits]

theorem ne_of_head {s t : String} {c d : Char} (hs : s.toList.head? = some c)
    (ht : t.toList.head? = some d) (apart : c ≠ d) : s ≠ t := by
  rintro rfl
  exact apart (Option.some.inj (hs.symm.trans ht))

/-- Texts between tabs are given by the whole. -/
theorem intercalate_tab_inj {ss ts : List String} (hs : ∀ s ∈ ss, Lacks '\t' s)
    (ht : ∀ t ∈ ts, Lacks '\t' t) (some : ss ≠ []) (some' : ts ≠ [])
    (same : "\t".intercalate ss = "\t".intercalate ts) : ss = ts := by
  have split : ∀ {rs : List String}, (∀ r ∈ rs, Lacks '\t' r) → rs ≠ [] →
      ("\t".intercalate rs).toList.splitOn '\t' = rs.map String.toList := by
    intro rs hr nonempty
    rw [String.toList_intercalate]
    refine List.splitOn_intercalate '\t' (fun l member => ?_) (by simpa using nonempty)
    obtain ⟨r, here, rfl⟩ := List.mem_map.mp member
    exact hr r here
  have columns := split hs some
  rw [same, split ht some'] at columns
  exact (List.map_inj_right fun _ _ => String.toList_injective).mp columns.symm

/-- Lines are given by the text that they make. -/
theorem join_lines_inj {ss ts : List String} (hs : ∀ s ∈ ss, Lacks '\n' s)
    (ht : ∀ t ∈ ts, Lacks '\n' t)
    (same : String.join (ss.map (· ++ "\n")) = String.join (ts.map (· ++ "\n"))) : ss = ts := by
  have ended : ∀ s r : String, (s ++ "\n" ++ r).toList = s.toList ++ '\n' :: r.toList := by
    intro s r
    simp
  induction ss generalizing ts with
  | nil =>
      cases ts with
      | nil => rfl
      | cons t ts =>
          have chars := congrArg String.toList same
          rw [List.map_cons, String.join_cons, ended] at chars
          simp at chars
  | cons s ss ih =>
      cases ts with
      | nil =>
          have chars := congrArg String.toList same
          rw [List.map_cons, String.join_cons, ended] at chars
          simp at chars
      | cons t ts =>
          have chars := congrArg String.toList same
          simp only [List.map_cons, String.join_cons, ended] at chars
          obtain ⟨first, rest⟩ := append_cons_inj_left (hs s List.mem_cons_self)
            (ht t List.mem_cons_self) chars
          rw [String.toList_injective first,
            ih (fun s member => hs s (List.mem_cons_of_mem _ member))
              (fun t member => ht t (List.mem_cons_of_mem _ member)) (String.toList_injective rest)]

/-- The name of a function without the letters `L` that it begins with. -/
def FunctionBody.bareName (f : FunctionBody) : String :=
  String.ofList (f.name.toList.dropWhile (· = 'L'))

theorem FunctionBody.signature_eq (f : FunctionBody) : f.signature = f.bareName ++ signatureTail :=
  rfl

/-- No two functions are spelled alike, and none is spelled like built-in code that calls run. -/
structure Program.KeptApart (p : Program) : Prop where
  functions : ∀ f ∈ p.functions, ∀ g ∈ p.functions, f.bareName = g.bareName → f = g
  builtins : ∀ f ∈ p.functions, ∀ b : Builtin, b.isCallable = true → f.bareName ≠ Method.plainName b

namespace Program

variable {p : Program} {f g : FunctionId} {b b' : FunctionBody}

theorem mem_functions (here : p.function? f = some b) : b ∈ p.functions := List.mem_of_getElem? here

theorem WellFormed.function?_inj (wf : p.WellFormed) (here : p.function? f = some b)
    (there : p.function? g = some b) : f = g :=
  (wf.ids f b here).symm.trans (wf.ids g b there)

theorem Consistent.name_inj (consistent : p.Consistent) (here : p.function? f = some b)
    (there : p.function? g = some b') (same : b.name = b'.name) : f = g :=
  UInt32.toNat_inj.mp (consistent.named _ _ b b' here there same)

/-- Accepted programs keep their functions apart if each name begins with one letter `L` only, and
is not the name of built-in code. -/
theorem keptApart_of_single (valid : p.validate = .ok ())
    (single : ∀ f ∈ p.functions, f.name.toList.head? = some 'L' ∧ f.name.toList[1]? ≠ some 'L')
    (own : ∀ b : Builtin, ∀ f ∈ p.functions, f.name ≠ b.name) : p.KeptApart := by
  have consistent := consistent_of_validate valid
  -- just one letter `L` is dropped, so that the bare name gives the whole one
  have bare : ∀ f ∈ p.functions, f.name.toList = 'L' :: f.bareName.toList := by
    intro f member
    obtain ⟨first, second⟩ := single f member
    obtain ⟨rest, name⟩ : ∃ rest, f.name.toList = 'L' :: rest := List.head?_eq_some_iff.mp first
    have kept : rest.dropWhile (· = 'L') = rest := by
      cases rest with
      | nil => rfl
      | cons c rest => exact List.dropWhile_cons_of_neg (by simpa [name] using second)
    simp [FunctionBody.bareName, name, kept]
  constructor
  · intro f member g member' same
    have names : f.name = g.name := by
      apply String.toList_injective
      rw [bare f member, bare g member', same]
    obtain ⟨j, here⟩ := List.mem_iff_getElem?.mp member
    obtain ⟨k, there⟩ := List.mem_iff_getElem?.mp member'
    obtain rfl := consistent.named j k f g here there names
    exact Option.some.inj (here.symm.trans there)
  · intro f member b _ same
    apply own b f member
    apply String.toList_injective
    rw [bare f member, same]
    cases b <;> simp [Method.plainName, Builtin.name]

end Program

namespace Method

/-- A method that calls run: a function that the program has, callable built-in code, the root or
the unknown. -/
def Known (p : Program) : Method → Prop
  | fakeRoot | unknown => True
  | function f => ∃ b, p.function? f = some b
  | builtin b => b.isCallable = true

/-- A method that calls something: the root, or a function that the program has. -/
def CanCall (p : Program) : Method → Prop
  | fakeRoot => True
  | function f => ∃ b, p.function? f = some b
  | builtin _ | unknown => False

/-- What the name of code is in the text of a callee. -/
def stem? (p : Program) : Method → Option String
  | function f => (p.function? f).map (·.bareName)
  | builtin b => some (plainName b)
  | fakeRoot | unknown => none

variable {p : Program} {m n : Method} {name : String}

theorem signature_of_stem? (stem : m.stem? p = some name) :
    m.signature p = name ++ signatureTail := by
  cases m with
  | function f =>
      obtain ⟨b, here, rfl⟩ := Option.map_eq_some_iff.mp stem
      simp only [signature, here]
      exact b.signature_eq
  | builtin b =>
      cases stem
      rfl
  | fakeRoot => cases stem
  | unknown => cases stem

theorem synthetic_of_stem? (known : m.Known p) (stem : m.stem? p = none) :
    m = fakeRoot ∨ m = unknown := by
  cases m with
  | fakeRoot => exact .inl rfl
  | unknown => exact .inr rfl
  | function f =>
      obtain ⟨b, here⟩ := known
      simp [stem?, here] at stem
  | builtin b => cases stem

theorem signature_ne_of_synthetic (synthetic : m = fakeRoot ∨ m = unknown) (name : String) :
    m.signature p ≠ name ++ signatureTail := by
  intro same
  have last : (m.signature p).toList.getLast? = some ';' := by
    rw [same]
    simp [signatureTail]
  rcases synthetic with rfl | rfl
  · exact absurd last (by simp [signature])
  · exact absurd last (by simp [signature])

theorem plainName_inj {b c : Builtin} (same : plainName b = plainName c) : b = c := by
  cases b <;> cases c <;> first | rfl | exact absurd same (by decide)

theorem stem?_inj (wf : p.WellFormed) (apart : p.KeptApart) (hm : m.Known p) (hn : n.Known p)
    (first : m.stem? p = some name) (second : n.stem? p = some name) : m = n := by
  cases m with
  | function f =>
      obtain ⟨b, here, rfl⟩ := Option.map_eq_some_iff.mp first
      have member := Program.mem_functions here
      cases n with
      | function g =>
          obtain ⟨c, there, same⟩ := Option.map_eq_some_iff.mp second
          obtain rfl := apart.functions c (Program.mem_functions there) b member same
          rw [wf.function?_inj here there]
      | builtin c => exact absurd (Option.some.inj second).symm (apart.builtins b member c hn)
      | fakeRoot => cases second
      | unknown => cases second
  | builtin b =>
      cases n with
      | function g =>
          obtain ⟨c, there, same⟩ := Option.map_eq_some_iff.mp second
          have like : c.bareName = plainName b := same.trans (Option.some.inj first).symm
          exact absurd like (apart.builtins c (Program.mem_functions there) b hm)
      | builtin c => rw [plainName_inj (Option.some.inj (first.trans second.symm))]
      | fakeRoot => cases second
      | unknown => cases second
  | fakeRoot => cases first
  | unknown => cases first

/-- Where functions are kept apart, a callee is given by its text. -/
theorem signature_inj (wf : p.WellFormed) (apart : p.KeptApart) (hm : m.Known p) (hn : n.Known p)
    (same : m.signature p = n.signature p) : m = n := by
  cases first : m.stem? p with
  | some name =>
      rw [signature_of_stem? first] at same
      cases second : n.stem? p with
      | some name' =>
          rw [signature_of_stem? second, String.append_left_inj] at same
          exact stem?_inj wf apart hm hn first (same ▸ second)
      | none => exact absurd same.symm (signature_ne_of_synthetic (synthetic_of_stem? hn second) _)
  | none =>
      have synthetic := synthetic_of_stem? hm first
      cases second : n.stem? p with
      | some name =>
          rw [signature_of_stem? second] at same
          exact absurd same (signature_ne_of_synthetic synthetic _)
      | none =>
          have apart : fakeRoot.signature p ≠ unknown.signature p := by simp [signature]
          rcases synthetic with rfl | rfl <;> rcases synthetic_of_stem? hn second with rfl | rfl
          · rfl
          · exact absurd same apart
          · exact absurd same.symm apart
          · rfl

theorem text_function {f : FunctionId} {b : FunctionBody} (here : p.function? f = some b) :
    (function f).text p = "<Code body of function " ++ b.name ++ ">" := by
  delta text
  dsimp only
  rw [here]
  rfl

theorem text_root_ne {f : FunctionId} {b : FunctionBody} (here : p.function? f = some b) :
    fakeRoot.text p ≠ (function f).text p := by
  rw [text_function here]
  refine ne_of_head (c := 's') (d := '<') ?_ (by simp) (by decide)
  change "synthetic < JavaScriptLoader, LFakeRoot, fakeRootMethod()V >".toList.head? = some 's'
  decide

theorem text_inj (consistent : p.Consistent) (hm : m.CanCall p) (hn : n.CanCall p)
    (same : m.text p = n.text p) : m = n := by
  cases m with
  | fakeRoot =>
      cases n with
      | fakeRoot => rfl
      | function g =>
          obtain ⟨c, there⟩ := hn
          exact absurd same (text_root_ne there)
      | builtin c => exact hn.elim
      | unknown => exact hn.elim
  | function f =>
      obtain ⟨b, here⟩ := hm
      cases n with
      | fakeRoot => exact absurd same.symm (text_root_ne here)
      | function g =>
          obtain ⟨c, there⟩ := hn
          rw [text_function here, text_function there, String.append_left_inj,
            String.append_right_inj] at same
          rw [consistent.name_inj here there same]
      | builtin c => exact hn.elim
      | unknown => exact hn.elim
  | builtin b => exact hm.elim
  | unknown => exact hm.elim

end Method

namespace Context

/-- A context that is everywhere, or for a call of a function that the program has. -/
def Known (p : Program) : Context → Prop
  | everywhere => True
  | callString f _ => ∃ b, p.function? f = some b

variable {p : Program} {c d : Context}

theorem text_callString {f : FunctionId} {b : FunctionBody} (here : p.function? f = some b)
    (pc : Nat) : (callString f pc).text p =
      "CallStringContext: [ " ++ ((b.bareName ++ signatureTail) ++ ("@" ++ toString pc)) ++
        " ]" := by
  delta text
  simp only [here, FunctionBody.signature_eq, String.append_assoc]

theorem text_everywhere_ne {f : FunctionId} {b : FunctionBody} (here : p.function? f = some b)
    (pc : Nat) : everywhere.text p ≠ (callString f pc).text p := by
  rw [text_callString here]
  refine ne_of_head (c := 'E') (d := 'C') ?_ (by simp) (by decide)
  change "Everywhere".toList.head? = some 'E'
  decide

/-- The place of a call stands behind the last mark of a context, as a number has none. -/
theorem text_callString_inj {f g : FunctionId} {b b' : FunctionBody} {pc pc' : Nat}
    (here : p.function? f = some b) (there : p.function? g = some b')
    (same : (callString f pc).text p = (callString g pc').text p) :
    b.bareName = b'.bareName ∧ pc = pc' := by
  rw [text_callString here, text_callString there, String.append_left_inj,
    String.append_right_inj] at same
  have unmarked : ∀ n : Nat, '@' ∉ (toString n).toList := lacks_toString (by decide)
  have chars : (b.bareName ++ signatureTail).toList ++ '@' :: (toString pc).toList =
      (b'.bareName ++ signatureTail).toList ++ '@' :: (toString pc').toList := by
    simpa using congrArg String.toList same
  obtain ⟨front, place⟩ := append_cons_inj_right (unmarked pc) (unmarked pc') chars
  have names := String.toList_injective front
  exact ⟨(String.append_left_inj _).mp names, toString_inj (String.toList_injective place)⟩

/-- Where functions are kept apart, a context is given by its text. -/
theorem text_inj (wf : p.WellFormed) (apart : p.KeptApart) (hc : c.Known p) (hd : d.Known p)
    (same : c.text p = d.text p) : c = d := by
  cases c with
  | everywhere =>
      cases d with
      | everywhere => rfl
      | callString g pc =>
          obtain ⟨b, there⟩ := hd
          exact absurd same (text_everywhere_ne there pc)
  | callString f pc =>
      obtain ⟨b, here⟩ := hc
      cases d with
      | everywhere => exact absurd same.symm (text_everywhere_ne here pc)
      | callString g pc' =>
          obtain ⟨b', there⟩ := hd
          obtain ⟨names, rfl⟩ := text_callString_inj here there same
          obtain rfl := apart.functions b (Program.mem_functions here) b'
            (Program.mem_functions there) names
          rw [wf.function?_inj here there]

end Context

theorem CallSite.text_inj {s t : CallSite} (same : s.text = t.text) : s = t := by
  obtain ⟨pc, kind⟩ := s
  obtain ⟨pc', kind'⟩ := t
  have places : ∀ word : String, word ++ toString pc = word ++ toString pc' → pc = pc' :=
    fun word same => toString_inj ((String.append_right_inj word).mp same)
  have letters : "JSCall@" ++ toString pc ≠ "JSConstruct@" ++ toString pc' ∧
      "JSConstruct@" ++ toString pc ≠ "JSCall@" ++ toString pc' := by
    constructor
    · intro same
      simpa using congrArg String.toList same
    · intro same
      simpa using congrArg String.toList same
  cases kind with
  | call =>
      cases kind' with
      | call =>
          obtain rfl := places _ same
          rfl
      | construct => exact absurd same letters.1
  | construct =>
      cases kind' with
      | call => exact absurd same letters.2
      | construct =>
          obtain rfl := places _ same
          rfl

/-- A text is neither broken into columns nor into lines. -/
def Unbroken (s : String) : Prop := Lacks '\t' s ∧ Lacks '\n' s

instance (s : String) : Decidable (Unbroken s) := inferInstanceAs (Decidable (_ ∧ _))

@[simp]
theorem unbroken_append {s t : String} : Unbroken (s ++ t) ↔ Unbroken s ∧ Unbroken t := by
  simp only [Unbroken, lacks_append]
  exact and_and_and_comm

theorem unbroken_toString (n : Nat) : Unbroken (toString n) :=
  ⟨lacks_toString (by decide) n, lacks_toString (by decide) n⟩

theorem Unbroken.of_sublist {s t : String} (plain : Unbroken s)
    (fewer : t.toList.Sublist s.toList) : Unbroken t :=
  ⟨fun tab => plain.1 (fewer.subset tab), fun ending => plain.2 (fewer.subset ending)⟩

/-- The names of functions break no lines. -/
def Program.Unbroken (p : Program) : Prop := ∀ f ∈ p.functions, CallFlow.Unbroken f.name

/-- Neither the names of functions break lines nor, where calls are given by their places, the files
that they are from. -/
structure Program.UnbrokenFor (places : Bool) (p : Program) : Prop where
  names : p.Unbroken
  files : places = true → ∀ f ∈ p.functions, ∀ file ∈ f.file, CallFlow.Unbroken file

section Unbroken

variable {p : Program} (plain : p.Unbroken)

include plain

theorem Program.Unbroken.bareName {f : FunctionBody} (member : f ∈ p.functions) :
    CallFlow.Unbroken f.bareName := by
  refine (plain f member).of_sublist ?_
  simpa [FunctionBody.bareName] using List.dropWhile_sublist (· = 'L')

theorem Method.unbroken_text {m : Method} (known : m.CanCall p) : Unbroken (m.text p) := by
  cases m with
  | fakeRoot =>
      change Unbroken "synthetic < JavaScriptLoader, LFakeRoot, fakeRootMethod()V >"
      decide
  | function f =>
      obtain ⟨b, here⟩ := known
      rw [text_function here, unbroken_append, unbroken_append]
      exact ⟨⟨by decide, plain b (Program.mem_functions here)⟩, by decide⟩
  | builtin b => exact known.elim
  | unknown => exact known.elim

theorem Method.unbroken_signature {m : Method} (known : m.Known p) : Unbroken (m.signature p) := by
  cases stem : m.stem? p with
  | none =>
      rcases synthetic_of_stem? known stem with rfl | rfl
      · change Unbroken "FakeRoot.fakeRootMethod()V"
        decide
      · change Unbroken "UnknownTarget.unknown()V"
        decide
  | some name =>
      rw [signature_of_stem? stem, unbroken_append]
      refine ⟨?_, by decide⟩
      cases m with
      | function f =>
          obtain ⟨b, here, rfl⟩ := Option.map_eq_some_iff.mp stem
          exact plain.bareName (Program.mem_functions here)
      | builtin b =>
          cases stem
          cases b <;> decide
      | fakeRoot => cases stem
      | unknown => cases stem

theorem Context.unbroken_text {c : Context} (known : c.Known p) : Unbroken (c.text p) := by
  cases c with
  | everywhere =>
      change Unbroken "Everywhere"
      decide
  | callString f pc =>
      obtain ⟨b, here⟩ := known
      rw [text_callString here]
      simp only [unbroken_append]
      exact ⟨⟨by decide, ⟨plain.bareName (Program.mem_functions here), by decide⟩, by decide,
        unbroken_toString pc⟩, by decide⟩

theorem Program.Unbroken.unplaced : p.UnbrokenFor false :=
  ⟨plain, fun places => absurd places (by decide)⟩

end Unbroken

theorem scriptOfName_sublist (name : String) : (scriptOfName name).toList.Sublist name.toList := by
  unfold scriptOfName
  rw [String.toList_ofList]
  refine (List.takeWhile_sublist _).trans ?_
  split
  · rename_i rest spelled
    rw [spelled]
    exact List.sublist_cons_self _ rest
  · exact List.Sublist.refl _

theorem Position.unbroken_text (place : Position) : Unbroken place.text :=
  unbroken_append.mpr
    ⟨unbroken_append.mpr ⟨unbroken_toString place.line.toNat, by decide⟩,
      unbroken_toString place.column.toNat⟩

theorem Program.UnbrokenFor.located {p : Program} (plain : p.UnbrokenFor true) {f : FunctionBody}
    (member : f ∈ p.functions) {pc : Nat} {text : String} (found : f.located? pc = some text) :
    CallFlow.Unbroken text := by
  obtain ⟨place, -, rfl⟩ := Option.map_eq_some_iff.mp found
  have file : CallFlow.Unbroken (f.file.getD (scriptOfName f.name)) := by
    cases given : f.file with
    | none => exact (plain.names f member).of_sublist (scriptOfName_sublist f.name)
    | some file => exact plain.files rfl f member file given
  exact unbroken_append.mpr ⟨unbroken_append.mpr ⟨file, by decide⟩, place.unbroken_text⟩

theorem CallSite.unbroken_text (s : CallSite) : Unbroken s.text := by
  obtain ⟨pc, kind⟩ := s
  cases kind with
  | call => exact unbroken_append.mpr ⟨by decide, unbroken_toString pc⟩
  | construct => exact unbroken_append.mpr ⟨by decide, unbroken_toString pc⟩

end CallFlow
