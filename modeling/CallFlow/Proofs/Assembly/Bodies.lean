import Mathlib.Data.List.Nodup
import CallFlow.Program.Assembly

/-! Bodies under assembly. Whatever is called on a body, it is known by what the calls have noted
and emitted, and what its instructions read was handed out if the calls were given nothing else. -/

namespace CallFlow

/-- A call on a body under assembly. -/
inductive BodyCall where
  | this
  | param
  | place (line column : UInt32)
  | newObject
  | newArray
  | closure (f : FunctionId)
  | constant (value : Literal)
  | copy (src : VarId)
  | phi (sources : List VarId)
  | get (object : VarId) (property : String)
  | put (object : VarId) (property : String) (value : VarId)
  | getDynamic (object key : VarId)
  | putDynamic (object key value : VarId)
  | globalRead (name : String)
  | globalWrite (name : String) (value : VarId)
  | lexicalRead (definer : FunctionId) (name : String)
  | lexicalWrite (definer : FunctionId) (name : String) (value : VarId)
  | call (callee : VarId) (args : List VarId)
  | callMethod (callee receiver : VarId) (args : List VarId)
  | callProperty (receiver : VarId) (property : String) (args : List VarId)
  | construct (callee : VarId) (args : List VarId)
  | ret (value : Option VarId)
deriving DecidableEq

namespace BodyCall

def operands : BodyCall → List VarId
  | .this | .param | .place _ _ | .newObject | .newArray | .closure _ | .constant _
  | .globalRead _ | .lexicalRead _ _ => []
  | .copy src => [src]
  | .phi sources => sources
  | .get object _ => [object]
  | .put object _ value => [object, value]
  | .getDynamic object key => [object, key]
  | .putDynamic object key value => [object, key, value]
  | .globalWrite _ value | .lexicalWrite _ _ value => [value]
  | .call callee args | .construct callee args => callee :: args
  | .callMethod callee receiver args => callee :: receiver :: args
  | .callProperty receiver _ args => receiver :: args
  | .ret value => value.toList

def functions : BodyCall → List FunctionId
  | .closure f | .lexicalRead f _ | .lexicalWrite f _ _ => [f]
  | _ => []

def fresh : BodyCall → Nat
  | .this | .place _ _ | .put _ _ _ | .putDynamic _ _ _ | .globalWrite _ _ | .lexicalWrite _ _ _
  | .ret _ => 0
  | .callProperty _ _ _ => 2
  | _ => 1

def parameters (v : VarId) : BodyCall → List VarId
  | .param => [v]
  | _ => []

/-- Makes a call: the variable that is returned, if one is, and the body behind the call. -/
def run (b : BodyAssembly) : BodyCall → Option VarId × BodyAssembly
  | .this => (some BodyAssembly.thisVar, b)
  | .param => returning b.param
  | .place line column => (none, b.place line column)
  | .newObject => returning b.newObject
  | .newArray => returning b.newArray
  | .closure f => returning (b.closure f)
  | .constant value => returning (b.constant value)
  | .copy src => returning (b.copy src)
  | .phi sources => returning (b.phi sources)
  | .get object property => returning (b.get object property)
  | .put object property value => (none, b.put object property value)
  | .getDynamic object key => returning (b.getDynamic object key)
  | .putDynamic object key value => (none, b.putDynamic object key value)
  | .globalRead name => returning (b.globalRead name)
  | .globalWrite name value => (none, b.globalWrite name value)
  | .lexicalRead definer name => returning (b.lexicalRead definer name)
  | .lexicalWrite definer name value => (none, b.lexicalWrite definer name value)
  | .call callee args => returning (b.call callee args)
  | .callMethod callee receiver args => returning (b.callMethod callee receiver args)
  | .callProperty receiver property args => returning (b.callProperty receiver property args)
  | .construct callee args => returning (b.construct callee args)
  | .ret value => (none, b.ret value)
where
  returning (r : VarId × BodyAssembly) : Option VarId × BodyAssembly := (some r.1, r.2)

def runAll (b : BodyAssembly) (cs : List BodyCall) : BodyAssembly :=
  cs.foldl (fun b c => (c.run b).2) b

def freshIn (cs : List BodyCall) : Nat := sumOver fresh cs

/-- Calls, of which each is given functions among those of `ids` and variables among those of `seen`
or among those that calls before it have returned. -/
def Scoped (ids : List FunctionId) (seen : List VarId) (b : BodyAssembly) : List BodyCall → Prop
  | [] => True
  | c :: cs => (∀ f ∈ c.functions, f ∈ ids) ∧ (∀ v ∈ c.operands, v ∈ seen) ∧
    Scoped ids (seen ++ (c.run b).1.toList) (c.run b).2 cs

theorem Scoped.mono {ids more : List FunctionId} (known : ids ⊆ more) {seen : List VarId}
    {b : BodyAssembly} {cs : List BodyCall} (inScope : Scoped ids seen b cs) :
    Scoped more seen b cs := by
  induction cs generalizing seen b with
  | nil => trivial
  | cons c cs ih =>
      obtain ⟨functions, operands, later⟩ := inScope
      exact ⟨fun f member => known (functions f member), operands, ih later⟩

instance decidableScoped (ids : List FunctionId) :
    (cs : List BodyCall) → (seen : List VarId) → (b : BodyAssembly) →
      Decidable (Scoped ids seen b cs)
  | [], _, _ => inferInstanceAs (Decidable True)
  | c :: cs, seen, b =>
    -- The lists are searched; there are too many words to go through all of them.
    have := c.functions.decidableBAll (· ∈ ids)
    have := c.operands.decidableBAll (· ∈ seen)
    have := decidableScoped ids cs (seen ++ (c.run b).1.toList) (c.run b).2
    inferInstanceAs (Decidable (_ ∧ _ ∧ _))

end BodyCall

/-- What a call on a body leaves behind. -/
inductive BodyEvent where
  | noted (p : Position)
  | emitted (i : Instruction)

namespace BodyEvent

def position? : BodyEvent → Option Position
  | .noted p => some p
  | .emitted _ => none

def instruction? : BodyEvent → Option Instruction
  | .noted _ => none
  | .emitted i => some i

def instructions (es : List BodyEvent) : List Instruction := es.filterMap instruction?

/-- The latest position that was noted since an instruction was emitted. -/
def latest? (es : List BodyEvent) : Option Position := es.getLast?.bind position?

end BodyEvent

namespace BodyCall

/-- What a call leaves behind, where `v` is handed out next. -/
def events (v : VarId) : BodyCall → List BodyEvent
  | .this | .param => []
  | .place line column => [.noted ⟨line, column⟩]
  | .newObject => [.emitted (.newObject v)]
  | .newArray => [.emitted (.newArray v)]
  | .closure f => [.emitted (.closure v f)]
  | .constant value => [.emitted (.constant v value)]
  | .copy src => [.emitted (.copy v src)]
  | .phi sources => [.emitted (.phi v sources)]
  | .get object property => [.emitted (.getProperty v object property)]
  | .put object property value => [.emitted (.putProperty object property value)]
  | .getDynamic object key => [.emitted (.getDynamic v object key)]
  | .putDynamic object key value => [.emitted (.putDynamic object key value)]
  | .globalRead name => [.emitted (.globalRead v name)]
  | .globalWrite name value => [.emitted (.globalWrite name value)]
  | .lexicalRead definer name => [.emitted (.lexicalRead v name definer)]
  | .lexicalWrite definer name value => [.emitted (.lexicalWrite name definer value)]
  | .call callee args => [.emitted (.invoke ⟨some v, callee, none, args, .call⟩)]
  | .callMethod callee receiver args =>
    [.emitted (.invoke ⟨some v, callee, some receiver, args, .call⟩)]
  | .callProperty receiver property args =>
    [.emitted (.getProperty v receiver property),
      .emitted (.invoke ⟨some (v + 1), v, some receiver, args, .call⟩)]
  | .construct callee args => [.emitted (.invoke ⟨some v, callee, none, args, .construct⟩)]
  | .ret value => [.emitted (.ret value)]

/-- What calls leave behind one after the other, where `v` is handed out first. -/
def eventsOf (v : VarId) : List BodyCall → List BodyEvent
  | [] => []
  | c :: cs => c.events v ++ eventsOf (v + UInt32.ofNat c.fresh) cs

end BodyCall

namespace BodyAssembly

open BodyEvent

/-- A body behind something that a call leaves behind. -/
def keep (b : BodyAssembly) : BodyEvent → BodyAssembly
  | .noted p => { b with pending := some p }
  | .emitted i => b.emit i

def behind (b : BodyAssembly) (es : List BodyEvent) (fresh : Nat) (params : List VarId) :
    BodyAssembly :=
  { es.foldl keep b with
    next := b.next + UInt32.ofNat fresh
    params := b.params ++ params }

variable {b : BodyAssembly}

@[simp]
theorem emit_next (i : Instruction) : (b.emit i).next = b.next := by
  unfold emit
  split <;> rfl

@[simp]
theorem emit_instructions (i : Instruction) : (b.emit i).instructions = b.instructions ++ [i] := by
  unfold emit
  split <;> rfl

@[simp]
theorem emit_pending (i : Instruction) : (b.emit i).pending = none := by
  unfold emit
  split
  · rfl
  · assumption

theorem emit_eq_behind (i : Instruction) : b.emit i = b.behind [.emitted i] 0 [] := by
  cases b with
  | mk _ _ _ _ pending => cases pending <;> simp [behind, keep, emit]

theorem define_eq_behind (i : VarId → Instruction) :
    (b.define i).2 = b.behind [.emitted (i b.next)] 1 [] := by
  cases b with
  | mk _ _ _ _ pending => cases pending <;> simp [behind, keep, emit, define, fresh]

/-- A call of a property emits two instructions, of which the first one has the position. -/
theorem callProperty_eq_behind (receiver : VarId) (property : String) (args : List VarId) :
    (b.callProperty receiver property args).2 =
      b.behind [.emitted (.getProperty b.next receiver property),
        .emitted (.invoke ⟨some (b.next + 1), b.next, some receiver, args, .call⟩)] 2 [] := by
  have two : b.next + 1 + 1 = b.next + UInt32.ofNat 2 := by
    rw [UInt32.add_assoc]
    rfl
  cases b with
  | mk _ _ _ _ pending =>
      cases pending <;>
        simp [behind, keep, emit, define, fresh, callProperty, callMethod, get, invoke, two]

end BodyAssembly

namespace BodyCall

open BodyAssembly

/-- What a call does: it leaves its events behind, hands out its variables and adds its
parameters. -/
theorem run_snd (c : BodyCall) (b : BodyAssembly) :
    (c.run b).2 = b.behind (c.events b.next) c.fresh (c.parameters b.next) := by
  cases c with
  | this | place => simp [run, behind, events, fresh, parameters, keep, BodyAssembly.place]
  | param => rfl
  | put | putDynamic | globalWrite | lexicalWrite | ret => exact emit_eq_behind _
  | newObject => exact define_eq_behind .newObject
  | newArray => exact define_eq_behind .newArray
  | closure f => exact define_eq_behind fun v => .closure v f
  | constant value => exact define_eq_behind fun v => .constant v value
  | copy src => exact define_eq_behind fun v => .copy v src
  | phi sources => exact define_eq_behind fun v => .phi v sources
  | get object property => exact define_eq_behind fun v => .getProperty v object property
  | getDynamic object key => exact define_eq_behind fun v => .getDynamic v object key
  | globalRead name => exact define_eq_behind fun v => .globalRead v name
  | lexicalRead definer name => exact define_eq_behind fun v => .lexicalRead v name definer
  | call callee args => exact define_eq_behind fun v => .invoke ⟨some v, callee, none, args, .call⟩
  | callMethod callee receiver args =>
      exact define_eq_behind fun v => .invoke ⟨some v, callee, some receiver, args, .call⟩
  | construct callee args =>
      exact define_eq_behind fun v => .invoke ⟨some v, callee, none, args, .construct⟩
  | callProperty receiver property args => exact callProperty_eq_behind receiver property args

/-- The variables that a call defines, by parameters and by instructions, where `v` is handed out
next. -/
def defines (v : VarId) (c : BodyCall) : List VarId :=
  c.parameters v ++ (BodyEvent.instructions (c.events v)).filterMap Instruction.defines?

theorem defines_eq (v : VarId) (c : BodyCall) :
    c.defines v = (List.range c.fresh).map fun k => v + UInt32.ofNat k := by
  have zero : v + UInt32.ofNat 0 = v := UInt32.add_zero v
  cases c <;> simp [defines, parameters, events, BodyEvent.instructions, BodyEvent.instruction?,
    Instruction.defines?, fresh, List.range_succ]

theorem run_fst (c : BodyCall) (b : BodyAssembly) {v : VarId} (returned : v ∈ (c.run b).1) :
    v = thisVar ∨ v ∈ c.defines b.next := by
  cases c with
  | this => exact .inl (Option.some.inj returned).symm
  | place | put | putDynamic | globalWrite | lexicalWrite | ret => cases returned
  | callProperty receiver property args =>
      have second : (b.callProperty receiver property args).1 = b.next + 1 := by
        simp [BodyAssembly.callProperty, BodyAssembly.callMethod, invoke, define, BodyAssembly.get,
          BodyAssembly.fresh]
      have same : v = b.next + 1 := (Option.some.inj returned).symm.trans second
      exact .inr (List.mem_cons_of_mem _ (List.mem_singleton.mpr same))
  | _ => exact .inr (List.mem_singleton.mpr (Option.some.inj returned).symm)

/-- An emitted instruction reads variables that its call is given or defines. -/
theorem uses_events (c : BodyCall) (v : VarId) :
    ∀ i ∈ BodyEvent.instructions (c.events v), ∀ w ∈ i.uses, w ∈ c.operands ∨ w ∈ c.defines v := by
  cases c <;> simp +contextual [defines, parameters, events, BodyEvent.instructions,
    BodyEvent.instruction?, Instruction.defines?, Instruction.uses, operands]

/-- An emitted instruction names functions that its call is given. -/
theorem names_events (c : BodyCall) (v : VarId) :
    ∀ i ∈ BodyEvent.instructions (c.events v), ∀ g, i.names? = some g → g ∈ c.functions := by
  cases c <;> simp [events, BodyEvent.instructions, BodyEvent.instruction?, Instruction.names?,
    functions]

end BodyCall

namespace PositionTable

theorem find?_insertInto (e : PositionEntry) (es : List PositionEntry) (pc : Nat) :
    ((PositionEntry.insertInto e es).find? fun (k, _) => decide (k.toNat = pc)) =
      if e.1.toNat = pc then some e else es.find? fun (k, _) => decide (k.toNat = pc) := by
  induction es with
  | nil => by_cases here : e.1.toNat = pc <;> simp [PositionEntry.insertInto, here]
  | cons o es ih =>
      unfold PositionEntry.insertInto
      split
      · by_cases here : e.1.toNat = pc <;> simp [here]
      · split
        · rename_i same
          by_cases here : e.1.toNat = pc
          · simp [here]
          · simp [here, same ▸ here]
        · rename_i apart
          by_cases there : o.1.toNat = pc
          · have other : e.1.toNat ≠ pc := fun here =>
              apart (UInt32.toNat_inj.mp (here.trans there.symm))
            simp [there, other]
          · simp [there, ih]

theorem find?_set (t : PositionTable) (k : UInt32) (p : Position) (pc : Nat) :
    (t.set k p).find? pc = if k.toNat = pc then some p else t.find? pc := by
  unfold find? set
  rw [find?_insertInto]
  split <;> rfl

theorem ofList_append_singleton (es : List PositionEntry) (k : UInt32) (p : Position) :
    ofList (es ++ [(k, p)]) = (ofList es).set k p := by
  simp [ofList]

open BodyEvent

/-- A table has for each instruction that was emitted the position that was noted right before it,
and no other position. -/
structure Places (t : PositionTable) (es : List BodyEvent) : Prop where
  placed : ∀ before i after, es = before ++ .emitted i :: after →
    t.find? (instructions before).length = latest? before
  others : ∀ pc, (instructions es).length ≤ pc → t.find? pc = none

end PositionTable

namespace BodyAssembly

open BodyEvent

/-- What a body has kept of the events that its calls left behind. -/
structure Records (b : BodyAssembly) (es : List BodyEvent) : Prop where
  instructions : b.instructions = BodyEvent.instructions es
  pending : b.pending = latest? es
  positions : (BodyEvent.instructions es).length ≤ UInt32.size →
    (PositionTable.ofList b.positions).Places es

variable {b : BodyAssembly} {es : List BodyEvent}

/-- What stands in a list with one more event stood in the list before, or is the event. -/
theorem split_append_singleton {e x : BodyEvent} {before after : List BodyEvent}
    (split : es ++ [e] = before ++ x :: after) :
    es = before ∧ e = x ∨ ∃ rest, es = before ++ x :: rest := by
  rcases List.eq_nil_or_concat after with rfl | ⟨rest, y, rfl⟩
  · obtain ⟨same, last⟩ := List.append_inj' split rfl
    exact .inl ⟨same, List.singleton_inj.mp last⟩
  · rw [List.concat_eq_append, ← List.cons_append, ← List.append_assoc] at split
    exact .inr ⟨rest, (List.append_inj' split rfl).1⟩

/-- An instruction gets the position that is pending, and no other one loses its own. -/
theorem find?_emit (i : Instruction) (room : b.instructions.length < UInt32.size)
    (unplaced : (PositionTable.ofList b.positions).find? b.instructions.length = none) (pc : Nat) :
    (PositionTable.ofList (b.emit i).positions).find? pc =
      if b.instructions.length = pc then b.pending
      else (PositionTable.ofList b.positions).find? pc := by
  have number : (UInt32.ofNat b.instructions.length).toNat = b.instructions.length :=
    UInt32.toNat_ofNat_of_lt' room
  unfold emit
  split
  · rename_i p pending
    rw [PositionTable.ofList_append_singleton, PositionTable.find?_set, number, pending]
  · rename_i pending
    split
    · rename_i here
      rw [pending, ← here, unplaced]
    · rfl

theorem records_empty : empty.Records [] where
  instructions := rfl
  pending := rfl
  positions _ := ⟨fun before i after split => by simp at split, fun _ _ => rfl⟩

theorem Records.keep (records : b.Records es) (e : BodyEvent) : (b.keep e).Records (es ++ [e]) := by
  cases e with
  | noted p =>
      have same : BodyEvent.instructions (es ++ [.noted p]) = BodyEvent.instructions es := by
        simp [BodyEvent.instructions, instruction?]
      refine ⟨same ▸ records.instructions, by simp [BodyAssembly.keep, latest?, position?],
        fun room => ?_⟩
      obtain ⟨placed, others⟩ := records.positions (same ▸ room)
      refine ⟨fun before i after split => ?_, same ▸ others⟩
      rcases split_append_singleton split with ⟨-, other⟩ | ⟨rest, earlier⟩
      · cases other
      · exact placed before i rest earlier
  | emitted i =>
      have more : BodyEvent.instructions (es ++ [.emitted i]) =
          BodyEvent.instructions es ++ [i] := by
        simp [BodyEvent.instructions, instruction?]
      have instructions : (b.emit i).instructions =
          BodyEvent.instructions (es ++ [.emitted i]) := by
        rw [emit_instructions, records.instructions, more]
      have pending : (b.emit i).pending = latest? (es ++ [.emitted i]) := by
        simp [latest?, position?]
      refine ⟨instructions, pending, fun room => ?_⟩
      rw [more, List.length_append, List.length_singleton] at room
      obtain ⟨placed, others⟩ := records.positions (Nat.le_of_succ_le room)
      -- only the place of the new instruction is written, and nothing was known of that place
      have found (pc : Nat) : (PositionTable.ofList (b.emit i).positions).find? pc =
          if (BodyEvent.instructions es).length = pc then latest? es
          else (PositionTable.ofList b.positions).find? pc := by
        have here := others _ (Nat.le_refl _)
        rw [← records.instructions] at room here ⊢
        rw [find?_emit i room here, records.pending]
      refine ⟨fun before j after split => ?_, fun pc beyond => ?_⟩
      · refine (found _).trans ?_
        rcases split_append_singleton split with ⟨rfl, -⟩ | ⟨rest, earlier⟩
        · exact if_pos rfl
        · have behind : (BodyEvent.instructions es).length ≠
              (BodyEvent.instructions before).length := by
            simp [earlier, BodyEvent.instructions, instruction?]
          exact (if_neg behind).trans (placed before j rest earlier)
      · rw [more, List.length_append, List.length_singleton] at beyond
        exact (found pc).trans ((if_neg (by omega)).trans (others pc (by omega)))

theorem Records.behind (records : b.Records es) (later : List BodyEvent) (fresh : Nat)
    (params : List VarId) : (b.behind later fresh params).Records (es ++ later) := by
  have kept : (later.foldl BodyAssembly.keep b).Records (es ++ later) := by
    induction later generalizing b es with
    | nil => simpa using records
    | cons e later ih => simpa using ih (records.keep e)
  exact ⟨kept.instructions, kept.pending, kept.positions⟩

end BodyAssembly

theorem BodyCall.records_runAll {b : BodyAssembly} {es : List BodyEvent} (records : b.Records es)
    (cs : List BodyCall) : (runAll b cs).Records (es ++ eventsOf b.next cs) := by
  induction cs generalizing b es with
  | nil => simpa [runAll, eventsOf] using records
  | cons c cs ih =>
      have after : (c.run b).2.Records (es ++ c.events b.next) :=
        run_snd c b ▸ records.behind _ c.fresh (c.parameters b.next)
      have next : (c.run b).2.next = b.next + UInt32.ofNat c.fresh := by
        rw [run_snd]
        rfl
      have rest := ih after
      rw [next, List.append_assoc] at rest
      exact rest

namespace BodyAssembly

/-- The variables that a body defines besides the receiver. -/
def defined (b : BodyAssembly) : List VarId :=
  b.params ++ b.instructions.filterMap Instruction.defines?

/-- The variables that are handed out first. -/
def firstVars (n : Nat) : List VarId := (List.range n).map fun k => UInt32.ofNat (k + 1)

theorem firstVars_add (m n : Nat) :
    firstVars (m + n) =
      firstVars m ++ (List.range n).map fun k => UInt32.ofNat (m + 1) + UInt32.ofNat k := by
  simp only [firstVars, List.range_add, List.map_append, List.map_map]
  congr 1
  refine List.map_congr_left fun k _ => ?_
  rw [Function.comp, ← UInt32.ofNat_add]
  congr 1
  omega

/-- As long as there are words for them, the variables are different ones. -/
theorem nodup_firstVars {n : Nat} (few : n < UInt32.size) : (thisVar :: firstVars n).Nodup := by
  have all : thisVar :: firstVars n = (List.range (n + 1)).map UInt32.ofNat := by
    simp [firstVars, List.range_succ_eq_map, Function.comp_def, thisVar]
  rw [all]
  refine List.nodup_range.map_on fun k here l there same => ?_
  have number {k : Nat} (member : k ∈ List.range (n + 1)) : (UInt32.ofNat k).toNat = k :=
    UInt32.toNat_ofNat_of_lt' (Nat.lt_of_lt_of_le (List.mem_range.mp member) few)
  rw [← number here, ← number there, same]

/-- A body with so many variables that uses nothing but what it defines and the functions of `ids`;
what calls may be given next is among `seen`. -/
structure Sound (ids : List FunctionId) (seen : List VarId) (n : Nat)
    (b : BodyAssembly) : Prop where
  next : b.next = UInt32.ofNat (n + 1)
  handed : b.defined.Perm (firstVars n)
  seen : ∀ v ∈ seen, v ∈ thisVar :: b.defined
  reads : ∀ i ∈ b.instructions, ∀ v ∈ i.uses, v ∈ thisVar :: b.defined
  names : ∀ i ∈ b.instructions, ∀ g, i.names? = some g → g ∈ ids

variable {ids : List FunctionId} {seen : List VarId} {n : Nat} {b : BodyAssembly}

theorem sound_empty : Sound ids [thisVar] 0 empty where
  next := rfl
  handed := .refl _
  seen _ known := List.mem_cons.mpr (.inl (List.mem_singleton.mp known))
  reads := nofun
  names := nofun

theorem instructions_foldl_keep (es : List BodyEvent) :
    (es.foldl keep b).instructions = b.instructions ++ BodyEvent.instructions es := by
  induction es generalizing b with
  | nil => simp [BodyEvent.instructions]
  | cons e es ih =>
      rw [List.foldl_cons, ih]
      cases e <;> simp [keep, BodyEvent.instructions, List.filterMap_cons, BodyEvent.instruction?]

/-- A call adds what it defines to what a body defines. -/
theorem defined_run (c : BodyCall) : (c.run b).2.defined.Perm (b.defined ++ c.defines b.next) := by
  rw [BodyCall.run_snd]
  simp only [defined, behind, instructions_foldl_keep, BodyCall.defines, List.filterMap_append]
  -- Both sides are the same lists, with the added parameters before or behind the old instructions.
  simp only [List.append_assoc]
  refine .append_left _ ?_
  rw [← List.append_assoc, ← List.append_assoc]
  exact .append_right _ List.perm_append_comm

theorem mem_defined_run (c : BodyCall) {v : VarId} :
    v ∈ thisVar :: (c.run b).2.defined ↔ v ∈ thisVar :: b.defined ∨ v ∈ c.defines b.next := by
  rw [List.mem_cons, (defined_run c).mem_iff, List.mem_append, List.mem_cons, or_assoc]

/-- A call that is given functions among those of `ids` and variables that are in sight keeps a body
sound. -/
theorem Sound.run (sound : b.Sound ids seen n) (c : BodyCall)
    (functions : ∀ f ∈ c.functions, f ∈ ids) (operands : ∀ v ∈ c.operands, v ∈ seen) :
    (c.run b).2.Sound ids (seen ++ (c.run b).1.toList) (n + c.fresh) := by
  have instructions : (c.run b).2.instructions =
      b.instructions ++ BodyEvent.instructions (c.events b.next) := by
    rw [BodyCall.run_snd]
    exact instructions_foldl_keep _
  have kept {v : VarId} (old : v ∈ thisVar :: b.defined) : v ∈ thisVar :: (c.run b).2.defined :=
    (mem_defined_run c).mpr (.inl old)
  refine ⟨?_, ?_, fun v known => ?_, fun i member v used => ?_, fun i member g named => ?_⟩
  · rw [BodyCall.run_snd]
    change b.next + UInt32.ofNat c.fresh = _
    rw [sound.next, ← UInt32.ofNat_add]
    congr 1
    omega
  · have new : c.defines b.next = (List.range c.fresh).map fun k => b.next + UInt32.ofNat k :=
      c.defines_eq b.next
    rw [firstVars_add, ← sound.next, ← new]
    exact (defined_run c).trans (sound.handed.append_right _)
  · rcases List.mem_append.mp known with old | returned
    · exact kept (sound.seen v old)
    · rcases c.run_fst b (Option.mem_toList.mp returned) with rfl | new
      · exact List.mem_cons_self
      · exact (mem_defined_run c).mpr (.inr new)
  · rw [instructions] at member
    rcases List.mem_append.mp member with old | emitted
    · exact kept (sound.reads i old v used)
    · rcases c.uses_events b.next i emitted v used with operand | new
      · exact kept (sound.seen v (operands v operand))
      · exact (mem_defined_run c).mpr (.inr new)
  · rw [instructions] at member
    rcases List.mem_append.mp member with old | emitted
    · exact sound.names i old g named
    · exact functions g (c.names_events b.next i emitted g named)

theorem Sound.runAll (sound : b.Sound ids seen n) {cs : List BodyCall}
    (inScope : BodyCall.Scoped ids seen b cs) :
    ∃ known, (BodyCall.runAll b cs).Sound ids known (n + BodyCall.freshIn cs) := by
  induction cs generalizing b seen n with
  | nil => exact ⟨seen, sound⟩
  | cons c cs ih =>
      obtain ⟨functions, operands, later⟩ := inScope
      obtain ⟨known, after⟩ := ih (sound.run c functions operands) later
      rw [Nat.add_assoc] at after
      exact ⟨known, after⟩

end BodyAssembly

end CallFlow
