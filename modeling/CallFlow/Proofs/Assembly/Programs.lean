import CallFlow.Proofs.Acceptance
import CallFlow.Proofs.Assembly.Bodies

/-! Programs under assembly. If whatever a call is given was returned by a call before it, no call
fails, and what has been assembled is accepted. Functions and variables are known by words, so there
must not be more of them than words. -/

namespace CallFlow

/-- A call on a program under assembly; a definition comes with the calls on the body. -/
inductive AssemblyCall where
  | script
  | declare (path : String)
  | entry (f : FunctionId)
  | define (f : FunctionId) (body : List BodyCall)
deriving DecidableEq

namespace AssemblyCall

def path? : AssemblyCall → Option String
  | .declare path => some path
  | _ => none

def name? (file : String) : AssemblyCall → Option String
  | .script => some ("L" ++ file)
  | .declare path => some ("L" ++ file ++ "/" ++ path)
  | _ => none

def body? (k : Nat) : AssemblyCall → Option (List BodyCall)
  | .define f body => if f.toNat = k then some body else none
  | _ => none

/-- The calls of the last definition of the function at a place; none if it was never defined. -/
def bodyOf (calls : List AssemblyCall) (k : Nat) : List BodyCall :=
  ((calls.filterMap (body? k)).getLast?).getD []

/-- Makes a call: the function that is returned, if one is, and the program behind the call; nothing
if the call fails. -/
def run? (a : Assembly) : AssemblyCall → Option (Option FunctionId × Assembly)
  | .script => some (some a.script.1, a.script.2)
  | .declare path => some (some (a.declare path).1, (a.declare path).2)
  | .entry f => some (none, a.entry f)
  | .define f body => (a.define? f (BodyCall.runAll .empty body)).map fun a => (none, a)

def runAll? (a : Assembly) : List AssemblyCall → Option Assembly
  | [] => some a
  | c :: cs =>
    match c.run? a with
    | none => none
    | some (_, a) => runAll? a cs

/-- The call is given functions among those of `ids`, and every call on a body is given these or
variables that the body has handed out before. -/
def InScope (ids : List FunctionId) : AssemblyCall → Prop
  | .script | .declare _ => True
  | .entry f => f ∈ ids
  | .define f body => f ∈ ids ∧ BodyCall.Scoped ids [BodyAssembly.thisVar] .empty body

instance (ids : List FunctionId) : (c : AssemblyCall) → Decidable (c.InScope ids)
  | .script | .declare _ => inferInstanceAs (Decidable True)
  | .entry _ => inferInstanceAs (Decidable (_ ∈ _))
  | .define _ _ => inferInstanceAs (Decidable (_ ∧ _))

/-- Calls, of which each is given functions among those of `ids` or those that calls before it have
returned. -/
def Scoped (ids : List FunctionId) (a : Assembly) : List AssemblyCall → Prop
  | [] => True
  | c :: cs => c.InScope ids ∧
    match c.run? a with
    | none => True
    | some (f, a) => Scoped (ids ++ f.toList) a cs

instance decidableScoped : (cs : List AssemblyCall) → (ids : List FunctionId) → (a : Assembly) →
    Decidable (Scoped ids a cs)
  | [], _, _ => inferInstanceAs (Decidable True)
  | c :: cs, ids, a =>
    have : Decidable (match c.run? a with
        | none => True
        | some (f, a) => Scoped (ids ++ f.toList) a cs) :=
      match c.run? a with
      | none => inferInstanceAs (Decidable True)
      | some (f, a) => decidableScoped cs (ids ++ f.toList) a
    inferInstanceAs (Decidable (_ ∧ _))

/-- Calls that assemble the program of a file: one script and functions of different paths, with
nothing given to a call that was not returned before. -/
structure Lawful (file : String) (calls : List AssemblyCall) : Prop where
  inScope : Scoped [] (.ofFile file) calls
  single : calls.count .script = 1
  distinct : (calls.filterMap path?).Nodup
  /-- A body's variables are known by words. -/
  fewVariables : ∀ f body, .define f body ∈ calls → BodyCall.freshIn body < UInt32.size
  /-- So are the functions of a program. -/
  fewFunctions : (calls.filterMap (name? file)).length ≤ UInt32.size

end AssemblyCall

open AssemblyCall

/-- The program has the functions that calls declare for a file, in their order, and each of them
has what its last definition left behind: the instructions, and their positions, which a table holds
by words. -/
structure Program.AssembledBy (p : Program) (file : String) (calls : List AssemblyCall) : Prop where
  names : p.functions.map (·.name) = calls.filterMap (name? file)
  files : ∀ f ∈ p.functions, f.file = some file
  numbered : ∀ (k : Nat) (f : FunctionBody), p.functions[k]? = some f → f.id.toNat = k
  instructions : ∀ (k : Nat) (f : FunctionBody), p.functions[k]? = some f →
    f.instructions = BodyEvent.instructions (BodyCall.eventsOf 1 (bodyOf calls k))
  positions : ∀ (k : Nat) (f : FunctionBody), p.functions[k]? = some f →
    f.instructions.length ≤ UInt32.size → f.positions.Places (BodyCall.eventsOf 1 (bodyOf calls k))

/-- The function has the body that was assembled for it. -/
structure FunctionBody.HasBody (f : FunctionBody) (b : BodyAssembly) : Prop where
  receiver : f.thisVar = BodyAssembly.thisVar
  params : f.params = b.params
  instructions : f.instructions = b.instructions
  positions : f.positions = .ofList b.positions

def FunctionBody.withBody (f : FunctionBody) (b : BodyAssembly) : FunctionBody :=
  { f with
    thisVar := BodyAssembly.thisVar
    params := b.params
    instructions := b.instructions
    positions := .ofList b.positions }

namespace Assembly

/-- What calls have made of a program under assembly, and which functions they have returned. -/
structure Declares (a : Assembly) (file : String) (calls : List AssemblyCall)
    (ids : List FunctionId) : Prop where
  inFile : a.file = file
  names : a.functions.map (·.name) = calls.filterMap (name? file)
  files : ∀ f ∈ a.functions, f.file = some file
  numbered : ∀ (k : Nat) (f : FunctionBody), a.functions[k]? = some f → f.id = UInt32.ofNat k
  known : ∀ f ∈ ids, f.toNat < a.functions.length
  bodies : ∀ (k : Nat) (f : FunctionBody), a.functions[k]? = some f →
    f.HasBody (BodyCall.runAll .empty (bodyOf calls k))
  undefined : ∀ k, a.functions.length ≤ k → bodyOf calls k = []
  inScope : ∀ k, BodyCall.Scoped ids [BodyAssembly.thisVar] .empty (bodyOf calls k)

/-- Every entry point was declared, and there is one if a script was declared. -/
structure Enters (a : Assembly) (calls : List AssemblyCall) : Prop where
  known : ∀ e ∈ a.entryPoints, e.toNat < a.functions.length
  entered : .script ∈ calls → a.entryPoints ≠ []

variable {a : Assembly} {file : String} {calls : List AssemblyCall} {ids : List FunctionId}

theorem bodyOf_append_singleton (calls : List AssemblyCall) (c : AssemblyCall) (k : Nat) :
    bodyOf (calls ++ [c]) k = (c.body? k).getD (bodyOf calls k) := by
  cases here : c.body? k <;> simp [bodyOf, here]

theorem Declares.length_eq (declares : a.Declares file calls ids) :
    a.functions.length = (calls.filterMap (name? file)).length := by
  rw [← declares.names, List.length_map]

theorem Declares.enter (declares : a.Declares file calls ids) (entryPoints : List FunctionId) :
    { a with entryPoints }.Declares file calls ids :=
  ⟨declares.inFile, declares.names, declares.files, declares.numbered, declares.known,
    declares.bodies, declares.undefined, declares.inScope⟩

theorem Declares.entry (declares : a.Declares file calls ids) (f : FunctionId) :
    a.Declares file (calls ++ [.entry f]) ids := by
  have same (k : Nat) : bodyOf (calls ++ [.entry f]) k = bodyOf calls k :=
    bodyOf_append_singleton _ _ k
  refine ⟨declares.inFile, ?_, declares.files, declares.numbered, declares.known, ?_, ?_, ?_⟩
  · exact declares.names.trans (by simp [name?])
  · simpa only [same] using declares.bodies
  · simpa only [same] using declares.undefined
  · simpa only [same] using declares.inScope

theorem Declares.push (declares : a.Declares file calls ids) {c : AssemblyCall} {name : String}
    (named : c.name? file = some name) (bodiless : ∀ k, c.body? k = none) :
    (a.push name).2.Declares file (calls ++ [c]) (ids ++ [(a.push name).1]) := by
  have same (k : Nat) : bodyOf (calls ++ [c]) k = bodyOf calls k := by
    rw [bodyOf_append_singleton, bodiless, Option.getD_none]
  have more : (a.push name).2.functions.length = a.functions.length + 1 := List.length_append
  have get {k : Nat} {f : FunctionBody} (here : (a.push name).2.functions[k]? = some f) :
      a.functions[k]? = some f ∨ k = a.functions.length ∧
        f = { id := UInt32.ofNat a.functions.length, name, file := some a.file, thisVar := 0 } := by
    rcases Nat.lt_or_ge k a.functions.length with old | new
    · exact .inl ((List.getElem?_append_left old).symm.trans here)
    · have last := (List.getElem?_append_right new).symm.trans here
      rw [List.getElem?_singleton] at last
      split at last
      · exact .inr ⟨by omega, (Option.some.inj last).symm⟩
      · cases last
  refine ⟨declares.inFile, ?_, fun f member => ?_, fun k f here => ?_, fun f member => ?_,
    fun k f here => ?_, fun k beyond => ?_, fun k => ?_⟩
  · simp [Assembly.push, declares.names, named]
  · obtain ⟨k, here⟩ := List.mem_iff_getElem?.mp member
    rcases get here with old | ⟨-, rfl⟩
    · exact declares.files f (List.mem_of_getElem? old)
    · exact congrArg some declares.inFile
  · rcases get here with old | ⟨rfl, rfl⟩
    · exact declares.numbered k f old
    · rfl
  · rw [more]
    rcases List.mem_append.mp member with old | new
    · exact Nat.lt_succ_of_lt (declares.known f old)
    · rw [List.mem_singleton.mp new]
      exact Nat.lt_succ_of_le (Nat.mod_le _ _)
  · rw [same]
    rcases get here with old | ⟨rfl, rfl⟩
    · exact declares.bodies k f old
    -- Only functions that were returned are defined, so nothing was defined for the new one.
    · rw [declares.undefined _ (Nat.le_refl _)]
      exact ⟨rfl, rfl, rfl, rfl⟩
  · rw [same]
    exact declares.undefined k (by omega)
  · rw [same]
    exact (declares.inScope k).mono (List.subset_append_left _ _)

theorem Declares.define (declares : a.Declares file calls ids) {f : FunctionId}
    {body : List BodyCall} (inScope : (AssemblyCall.define f body).InScope ids) :
    ∃ b, a.define? f (BodyCall.runAll .empty body) = some b ∧
      b.Declares file (calls ++ [.define f body]) ids ∧ b.functions.length = a.functions.length ∧
        b.entryPoints = a.entryPoints := by
  obtain ⟨returned, body_inScope⟩ := inScope
  have bound : f.toNat < a.functions.length := declares.known f returned
  have last (k : Nat) : bodyOf (calls ++ [.define f body]) k =
      if f.toNat = k then body else bodyOf calls k := by
    rw [bodyOf_append_singleton, body?]
    split <;> rfl
  -- the function at the place has another body, and nothing else of it has changed
  have get {k : Nat} {g : FunctionBody}
      (here : (a.functions.modify f.toNat (·.withBody (BodyCall.runAll .empty body)))[k]? =
        some g) :
      ∃ old, a.functions[k]? = some old ∧
        g = if f.toNat = k then old.withBody (BodyCall.runAll .empty body) else old := by
    rw [List.getElem?_modify] at here
    obtain ⟨old, there, rfl⟩ := Option.map_eq_some_iff.mp here
    exact ⟨old, there, by split <;> rfl⟩
  have names :
      (a.functions.modify f.toNat (·.withBody (BodyCall.runAll .empty body))).map (·.name) =
        a.functions.map (·.name) := by
    refine List.ext_getElem? fun k => ?_
    rw [List.getElem?_map, List.getElem?_modify, List.getElem?_map]
    split <;> simp [Function.comp_def, FunctionBody.withBody]
  refine ⟨_, if_pos bound, ⟨declares.inFile, ?_, fun g member => ?_, fun k g here => ?_, ?_,
    fun k g here => ?_, fun k beyond => ?_, fun k => ?_⟩, List.length_modify _ _ _, rfl⟩
  · exact names.trans (declares.names.trans (by simp [name?]))
  · obtain ⟨k, here⟩ := List.mem_iff_getElem?.mp member
    obtain ⟨old, there, rfl⟩ := get here
    have inFile := declares.files old (List.mem_of_getElem? there)
    split <;> exact inFile
  · obtain ⟨old, there, rfl⟩ := get here
    have numbered := declares.numbered k old there
    split <;> exact numbered
  · simpa using declares.known
  · obtain ⟨old, there, rfl⟩ := get here
    rw [last]
    split
    · exact ⟨rfl, rfl, rfl, rfl⟩
    · exact declares.bodies k old there
  · have behind : a.functions.length ≤ k := by simpa using beyond
    rw [last, if_neg (by omega), declares.undefined k behind]
  · rw [last]
    split
    · exact body_inScope
    · exact declares.inScope k

/-- Other calls than that for the script keep the entry points, if no function is lost. -/
theorem Enters.keep {b : Assembly} (enters : a.Enters calls) {c : AssemblyCall}
    (other : c ≠ .script) (same : b.entryPoints = a.entryPoints)
    (more : a.functions.length ≤ b.functions.length) :
    b.Enters (calls ++ [c]) where
  known e member := Nat.lt_of_lt_of_le (enters.known e (same ▸ member)) more
  entered there := by
    rw [same]
    rcases List.mem_append.mp there with old | new
    · exact enters.entered old
    · exact absurd (List.mem_singleton.mp new).symm other

/-- No call fails that is given what was returned before. -/
theorem Declares.run? (declares : a.Declares file calls ids) (enters : a.Enters calls)
    {c : AssemblyCall} (inScope : c.InScope ids) :
    ∃ r, c.run? a = some r ∧ r.2.Declares file (calls ++ [c]) (ids ++ r.1.toList) ∧
      r.2.Enters (calls ++ [c]) := by
  have more (name : String) : (a.push name).2.functions.length = a.functions.length + 1 := by
    simp [Assembly.push]
  cases c with
  | script =>
      have named : name? file .script = some ("L" ++ a.file) := by rw [declares.inFile, name?]
      have pushed := declares.push named fun _ => rfl
      refine ⟨_, rfl, pushed.enter _, fun e member => ?_, fun _ => by simp [Assembly.script]⟩
      rcases List.mem_append.mp member with old | new
      · exact Nat.lt_of_lt_of_eq (Nat.lt_succ_of_lt (enters.known e old)) (more _).symm
      · exact pushed.known e (List.mem_append_right _ new)
  | declare path =>
      have named : name? file (.declare path) = some ("L" ++ a.file ++ "/" ++ path) := by
        rw [declares.inFile, name?]
      have pushed := declares.push named fun _ => rfl
      refine ⟨_, rfl, pushed, enters.keep nofun rfl ?_⟩
      exact Nat.le_of_lt (Nat.lt_of_lt_of_eq (Nat.lt_succ_self _) (more _).symm)
  | entry f =>
      have silent := declares.entry f
      refine ⟨(none, a.entry f), rfl, ?_, ?_⟩
      · unfold Assembly.entry
        split
        · simpa using silent
        · simpa using silent.enter (a.entryPoints ++ [f])
      · have old := enters.keep (b := a) (c := .entry f) nofun rfl (Nat.le_refl _)
        unfold Assembly.entry
        split
        · exact old
        · refine ⟨fun e member => ?_, fun _ => by simp⟩
          rcases List.mem_append.mp member with known | new
          · exact enters.known e known
          · exact declares.known e (List.mem_singleton.mp new ▸ inScope)
  | define f body =>
      obtain ⟨b, defined, declares', length, entryPoints⟩ := declares.define inScope
      refine ⟨(none, b), ?_, ?_, enters.keep nofun entryPoints (Nat.le_of_eq length.symm)⟩
      · simp [AssemblyCall.run?, defined]
      · simpa using declares'

theorem Declares.runAll? (declares : a.Declares file calls ids) (enters : a.Enters calls)
    {cs : List AssemblyCall} (inScope : Scoped ids a cs) :
    ∃ b known, AssemblyCall.runAll? a cs = some b ∧ b.Declares file (calls ++ cs) known ∧
      b.Enters (calls ++ cs) := by
  induction cs generalizing a calls ids with
  | nil => exact ⟨a, ids, rfl, by simpa using declares, by simpa using enters⟩
  | cons c cs ih =>
      obtain ⟨first, later⟩ := inScope
      obtain ⟨⟨f, b⟩, made, declares', enters'⟩ := declares.run? enters first
      rw [made] at later
      have rest := ih declares' enters' later
      rw [List.append_assoc, List.singleton_append] at rest
      simpa only [AssemblyCall.runAll?, made] using rest

end Assembly

section Acceptance

variable {p : Program} {f : FunctionBody} {b : BodyAssembly} {ids : List FunctionId}
  {seen : List VarId} {n : Nat}

/-- A function whose body was assembled in sight of functions of a program fits into the program. -/
theorem FunctionBody.HasBody.consistent (has : f.HasBody b) (sound : b.Sound ids seen n)
    (few : n < UInt32.size) (known : ∀ g ∈ ids, ∃ h, p.function? g = some h) : f.Consistent p := by
  have defined : f.defined = BodyAssembly.thisVar :: b.defined := by
    rw [f.defined_eq, has.receiver, has.params, has.instructions]
    rfl
  have distinct : f.defined.Nodup := by
    rw [defined]
    exact (sound.handed.cons _).nodup_iff.mpr (BodyAssembly.nodup_firstVars few)
  refine ⟨nodup_defined_iff.mp distinct, fun i member v reads => ?_, fun i member g refers => ?_⟩
  · rw [has.instructions] at member
    rw [← mem_defined_iff, defined]
    exact sound.reads i member v (Instruction.reads_iff.mp reads)
  · rw [has.instructions] at member
    exact known g (sound.names i member g (Instruction.refers_iff.mp refers))

end Acceptance

namespace AssemblyCall

variable {file : String} {calls : List AssemblyCall}

theorem bodyOf_eq_nil_or_mem (calls : List AssemblyCall) (k : Nat) :
    bodyOf calls k = [] ∨ ∃ f, .define f (bodyOf calls k) ∈ calls := by
  unfold bodyOf
  cases last : (calls.filterMap (body? k)).getLast? with
  | none => exact .inl rfl
  | some body =>
      obtain ⟨c, member, defined⟩ := List.mem_filterMap.mp (List.mem_of_getLast? last)
      cases c with
      | define f own =>
          obtain ⟨-, same⟩ := Option.ite_none_right_eq_some.mp defined
          cases same
          exact .inr ⟨f, member⟩
      | _ => cases defined

theorem Lawful.freshIn_lt (lawful : Lawful file calls) (k : Nat) :
    BodyCall.freshIn (bodyOf calls k) < UInt32.size := by
  rcases bodyOf_eq_nil_or_mem calls k with none | ⟨f, defined⟩
  · rw [none]
    decide
  · exact lawful.fewVariables f _ defined

theorem path_ne_script (file path : String) : "L" ++ file ++ "/" ++ path ≠ "L" ++ file := by
  intro same
  have lengths := congrArg String.length same
  simp only [String.length_append] at lengths
  have slash : "/".length = 1 := rfl
  omega

/-- The names of a file's functions are different ones. -/
theorem Lawful.nodup_names (lawful : Lawful file calls) : (calls.filterMap (name? file)).Nodup := by
  have scripts : calls.Pairwise fun c d => c = .script → d = .script → False := by
    have one : (calls.filter (· == .script)).length = 1 := by
      rw [← List.countP_eq_length_filter]
      exact lawful.single
    obtain ⟨c, alone⟩ := List.length_eq_one_iff.mp one
    have trivially : (calls.filter (· == .script)).Pairwise fun _ _ => False :=
      alone ▸ List.pairwise_singleton _ c
    simpa using List.pairwise_filter.mp trivially
  have paths := List.pairwise_filterMap.mp lawful.distinct
  -- The script's name is too short for a path, and behind one file the paths tell the names apart.
  refine List.pairwise_filterMap.mpr ((scripts.and paths).imp ?_)
  rintro c d ⟨single, distinct⟩ x named y named' rfl
  cases c with
  | script =>
      cases d with
      | script => exact single rfl rfl
      | declare path => exact path_ne_script file path (Option.some.inj (named'.trans named.symm))
      | _ => cases named'
  | declare path =>
      cases d with
      | script => exact path_ne_script file path (Option.some.inj (named.trans named'.symm))
      | declare other =>
          have same := Option.some.inj (named.trans named'.symm)
          have tails := congrArg String.toList same
          simp only [String.toList_append, List.append_cancel_left_eq] at tails
          exact distinct path rfl other rfl (String.toList_inj.mp tails)
      | _ => cases named'
  | _ => cases named

end AssemblyCall

namespace Assembly

variable {a : Assembly} {file : String} {calls : List AssemblyCall} {ids : List FunctionId}

theorem Declares.numbered_toNat (declares : a.Declares file calls ids) (lawful : Lawful file calls)
    {k : Nat} {f : FunctionBody} (here : a.functions[k]? = some f) : f.id.toNat = k := by
  have bound : k < a.functions.length := (List.getElem?_eq_some_iff.mp here).1
  have few : a.functions.length ≤ UInt32.size := declares.length_eq ▸ lawful.fewFunctions
  rw [declares.numbered k f here]
  exact UInt32.toNat_ofNat_of_lt' (Nat.lt_of_lt_of_le bound few)

theorem Declares.consistent (declares : a.Declares file calls ids) (enters : a.Enters calls)
    (lawful : Lawful file calls) : a.program.Consistent := by
  have known : ∀ g ∈ ids, ∃ f, a.program.function? g = some f :=
    fun g member => Program.function?_of_lt (declares.known g member)
  refine ⟨?_, fun k f here => declares.numbered_toNat lawful here,
    fun j k f g first second same => ?_,
    fun e member => Program.function?_of_lt (enters.known e member), fun f member => ?_⟩
  · exact enters.entered (List.count_pos_iff.mp (lawful.single ▸ Nat.one_pos))
  · have distinct : (a.functions.map (·.name)).Nodup := declares.names ▸ lawful.nodup_names
    have bound : j < (a.functions.map (·.name)).length := by
      rw [List.length_map]
      exact (List.getElem?_eq_some_iff.mp first).1
    refine (List.getElem?_inj bound distinct).mp ?_
    change a.functions[j]? = some f at first
    change a.functions[k]? = some g at second
    rw [List.getElem?_map, List.getElem?_map, first, second]
    exact congrArg some same
  · obtain ⟨k, here⟩ := List.mem_iff_getElem?.mp member
    obtain ⟨_, sound⟩ := BodyAssembly.sound_empty.runAll (declares.inScope k)
    rw [Nat.zero_add] at sound
    exact (declares.bodies k f here).consistent sound (lawful.freshIn_lt k) known

theorem Declares.assembledBy (declares : a.Declares file calls ids) (lawful : Lawful file calls) :
    a.program.AssembledBy file calls := by
  have records (k : Nat) := BodyCall.records_runAll BodyAssembly.records_empty (bodyOf calls k)
  refine ⟨declares.names, declares.files, fun k f here => declares.numbered_toNat lawful here,
    fun k f here => ?_, fun k f here room => ?_⟩
  · exact (declares.bodies k f here).instructions.trans (records k).instructions
  · have body := declares.bodies k f here
    have same := body.instructions.trans (records k).instructions
    rw [body.positions]
    exact (records k).positions (same ▸ room)

theorem declares_ofFile (file : String) : (ofFile file).Declares file [] [] where
  inFile := rfl
  names := rfl
  files := nofun
  numbered := nofun
  known := nofun
  bodies := nofun
  undefined _ _ := rfl
  inScope _ := trivial

/-- Calls that are given nothing but what was returned before all succeed, and what they have
assembled is accepted and is what they declared and defined. -/
theorem builds_of_lawful {file : String} {calls : List AssemblyCall} (lawful : Lawful file calls) :
    ∃ a p, runAll? (.ofFile file) calls = some a ∧ a.build = .ok p ∧ p.AssembledBy file calls := by
  obtain ⟨a, ids, made, declares, enters⟩ :=
    (declares_ofFile file).runAll? ⟨nofun, nofun⟩ lawful.inScope
  have accepted := Program.validate_of_consistent (declares.consistent enters lawful)
  refine ⟨a, a.program, made, ?_, declares.assembledBy lawful⟩
  unfold build
  rw [accepted]

/-- A script that is defined twice, with a position before a call of a property and one that is
given twice, beside a function that is never defined. -/
def redefined : List AssemblyCall :=
  [.declare "f", .script, .define 0 [.param, .ret (some 1)], .define 1 [.newObject],
    .declare "g", .entry 0,
    .define 1 [.this, .closure 0, .place 3 1, .newObject, .put 2 "m" 1, .place 4 2, .place 4 5,
      .callProperty 2 "m" [1, 0], .lexicalWrite 0 "x" 4, .ret none]]

theorem builds_redefined :
    ∃ a p, runAll? (.ofFile "app.js") redefined = some a ∧ a.build = .ok p ∧
      p.AssembledBy "app.js" redefined := by
  refine builds_of_lawful
    ⟨by decide +kernel, by decide, by decide, fun f body member => ?_, by decide⟩
  simp only [redefined, List.mem_cons, AssemblyCall.define.injEq, reduceCtorEq, List.not_mem_nil,
    false_or, or_false] at member
  rcases member with ⟨-, rfl⟩ | ⟨-, rfl⟩ | ⟨-, rfl⟩ <;> decide

end Assembly

end CallFlow
