import Mathlib.Algebra.Group.Int.Defs
import CallFlow.CommandLine.Folder
import CallFlow.Proofs.Spelling

/-! The options that a command line runs with. The file is checked by itself before anything in it
is replaced, so that a value that no analysis can run with is a fault of its file even where it is
replaced. -/

namespace CallFlow

namespace Options

/-- Options that an analysis can run with. -/
structure Admissible (o : Options) : Prop where
  ceiling : o.maxNodes ≠ some 0
  limit : o.timeoutMs ≠ some 0
  strings : o.reflection = .stringOnly → o.constantSpecific = true

theorem validate_eq_ok_iff {o : Options} : o.validate = .ok () ↔ o.Admissible := by
  unfold validate
  split_ifs with zero none conflict
  · exact iff_of_false nofun fun admissible => admissible.ceiling zero
  · exact iff_of_false nofun fun admissible => admissible.limit none
  · refine iff_of_false nofun fun admissible => ?_
    exact absurd (admissible.strings conflict.1) (by simp [conflict.2])
  · exact iff_of_true rfl ⟨zero, none, fun only => by simpa [only] using conflict⟩

/-- The options of a configuration file of the present version, whether or not an analysis can run
with them; those that it does not name are the defaults. -/
def WrittenIn (text : String) (o : Options) : Prop :=
  (Yaml.parse? text).bind fileParts? = some (some fileVersion, o)

theorem WrittenIn.ofFile_eq {text : String} {o : Options} (written : o.WrittenIn text) :
    ofFile text = o.validate.map fun _ => o := by
  unfold ofFile
  rw [show (Yaml.parse? text).bind fileParts? = some (some fileVersion, o) from written]
  cases checked : o.validate <;> simp [checked, Except.map]

end Options

namespace Arguments

/-- Options with each value that is given in place of the one before. As a node ceiling, minus one
stands for none. -/
structure Overrides (a : Arguments) (old new : Options) : Prop where
  algorithm : new.algorithm = a.algorithm.getD old.algorithm
  reflection : new.reflection = a.reflection.getD old.reflection
  timeout : new.timeoutMs = (a.timeoutMs.map some).getD old.timeoutMs
  handling : new.handleCallApply = a.handleCallApply.getD old.handleCallApply
  constants : new.constantSpecific = if a.constantSpecific then true else old.constantSpecific
  allocations : new.allocationKeys =
    if a.contextAllocations then .contextAllocations else old.allocationKeys
  kept : a.maxNodes = none → new.maxNodes = old.maxNodes
  unlimited : a.maxNodes = some (-1) → new.maxNodes = none
  ceiling : ∀ n : Nat, a.maxNodes = some (n : Int) → new.maxNodes.map UInt64.toNat = some n

/-- A node ceiling that a command line can ask for: none, or a number. -/
def CeilingAllowed (a : Arguments) : Prop := ∀ n, a.maxNodes = some n → n = -1 ∨ 0 ≤ n

/-- The node ceiling is a word with a sign. -/
def Bounded (a : Arguments) : Prop := ∀ n, a.maxNodes = some n → n < 2 ^ 63

theorem Bounded.set? {a b : Arguments} {f : Flag} {value : List Char} (bounded : a.Bounded)
    (given : a.set? f value = some b) : b.Bounded := by
  cases f with
  | maxNodes =>
      obtain ⟨v, filled, rfl⟩ := Option.map_eq_some_iff.mp given
      intro n here
      cases given : ceiling? value with
      | none => cases held : a.maxNodes <;> simp [fill, held, given] at filled
      | some m =>
          obtain ⟨-, within⟩ := Option.filter_eq_some_iff.mp given
          have same : v = some m := by
            cases held : a.maxNodes <;> simp_all [fill]
          obtain rfl : m = n := Option.some.inj (same.symm.trans here)
          exact (of_decide_eq_true within).2
  | noSourceNumbers | constantSpecific | contextAllocations | help => cases given
  | _ =>
      obtain ⟨v, filled, rfl⟩ := Option.map_eq_some_iff.mp given
      exact bounded

theorem Bounded.mark? {a b : Arguments} {f : Flag} (bounded : a.Bounded)
    (given : a.mark? f = some b) : b.Bounded := by
  unfold Arguments.mark? at given
  split at given <;> simp at given
  all_goals
    obtain ⟨-, rfl⟩ := given
    exact bounded

/-- A command line that is read to its end keeps what every option given in it keeps. -/
theorem Bounded.parseFrom {a b : Arguments} {args : List (List Char)} (bounded : a.Bounded)
    (parsed : a.parseFrom args = some (.run b)) : b.Bounded := by
  have done : ∀ {c : Arguments}, c.Bounded → some (Request.run c) = some (Request.run b) →
      b.Bounded := by
    rintro c kept same
    cases same
    exact kept
  fun_induction Arguments.parseFrom a args with
  | case1 => exact done bounded parsed
  | case2 => exact done bounded parsed
  | case7 a cs _ f _ _ value rest _ later =>
      obtain ⟨c, given, parsed⟩ := Option.bind_eq_some_iff.mp parsed
      exact later c (bounded.set? given) parsed
  | case8 a cs _ f _ _ value rest _ _ later =>
      obtain ⟨c, given, parsed⟩ := Option.bind_eq_some_iff.mp parsed
      exact later c (bounded.set? given) parsed
  | case12 a cs rest _ f _ _ _ later =>
      obtain ⟨c, given, parsed⟩ := Option.bind_eq_some_iff.mp parsed
      exact later c (bounded.mark? given) parsed
  | _ => cases parsed

theorem bounded_of_parse? {args : List String} {a : Arguments}
    (parsed : parse? args = some (.run a)) : a.Bounded := by
  have start : Arguments.Bounded {} := fun n here => by cases here
  unfold parse? at parsed
  split at parsed
  · rename_i b read
    split at parsed
    · cases parsed
      exact start.parseFrom read
    · cases parsed
  · rename_i other none
    exact absurd parsed (none a)

/-- Options with all but the node ceiling of a command line in place of their own. -/
theorem overrides_of_ceiling {a : Arguments} {old : Options} {ceiling : Option UInt64}
    (kept : a.maxNodes = none → ceiling = old.maxNodes)
    (unlimited : a.maxNodes = some (-1) → ceiling = none)
    (given : ∀ n : Nat, a.maxNodes = some (n : Int) → ceiling.map UInt64.toNat = some n) :
    a.Overrides old
      { algorithm := a.algorithm.getD old.algorithm
        reflection := a.reflection.getD old.reflection
        maxNodes := ceiling
        timeoutMs := a.timeoutMs.orElse fun _ => old.timeoutMs
        handleCallApply := a.handleCallApply.getD old.handleCallApply
        constantSpecific := a.constantSpecific || old.constantSpecific
        allocationKeys :=
          if a.contextAllocations then .contextAllocations else old.allocationKeys } where
  algorithm := rfl
  reflection := rfl
  timeout := by cases a.timeoutMs <;> rfl
  handling := rfl
  constants := by cases a.constantSpecific <;> rfl
  allocations := rfl
  kept := kept
  unlimited := unlimited
  ceiling := given

/-- The command line settles on options unless it asks for a ceiling below none. -/
theorem exists_override {a : Arguments} (allowed : a.CeilingAllowed) (bounded : a.Bounded)
    (old : Options) : ∃ new, a.override old = .ok new ∧ a.Overrides old new := by
  unfold override
  cases asked : a.maxNodes with
  | none =>
      refine ⟨_, rfl, overrides_of_ceiling (fun _ => rfl) (fun same => ?_) fun n same => ?_⟩
      · rw [asked] at same
        cases same
      · rw [asked] at same
        cases same
  | some n =>
      rcases allowed n asked with rfl | positive
      · refine ⟨_, rfl, overrides_of_ceiling (fun same => ?_) (fun _ => rfl) fun m same => ?_⟩
        · rw [asked] at same
          cases same
        · rw [asked, Option.some.injEq] at same
          omega
      · have ceiling : nodeCeiling n = .ok (some (UInt64.ofNat n.toNat)) := by
          rw [nodeCeiling, if_neg (by omega), if_neg (by omega)]
        simp only [ceiling]
        refine ⟨_, rfl, overrides_of_ceiling (fun same => ?_) (fun same => ?_) fun m same => ?_⟩
        · rw [asked] at same
          cases same
        · rw [asked, Option.some.injEq] at same
          omega
        · rw [asked, Option.some.injEq] at same
          have small := bounded n asked
          have fits : m < UInt64.size := Nat.lt_trans (by omega : m < 2 ^ 63) (by decide)
          rw [same, Int.toNat_natCast, Option.map_some, UInt64.toNat_ofNat_of_lt' fits]

/-- What is given and what it is given in place of say which options these are. -/
theorem Overrides.unique {a : Arguments} {old new new' : Options} (allowed : a.CeilingAllowed)
    (first : a.Overrides old new) (second : a.Overrides old new') : new = new' := by
  have ceilings : new.maxNodes = new'.maxNodes := by
    cases asked : a.maxNodes with
    | none => rw [first.kept asked, second.kept asked]
    | some n =>
        rcases allowed n asked with rfl | positive
        · rw [first.unlimited asked, second.unlimited asked]
        · obtain ⟨m, rfl⟩ := Int.eq_ofNat_of_zero_le positive
          have same := (first.ceiling m asked).trans (second.ceiling m asked).symm
          exact Option.map_injective (fun x y => UInt64.toNat_inj.mp) same
  rcases new with ⟨⟩
  rcases new' with ⟨⟩
  simp only [Options.mk.injEq]
  exact ⟨first.algorithm.trans second.algorithm.symm, first.reflection.trans second.reflection.symm,
    ceilings, first.timeout.trans second.timeout.symm, first.handling.trans second.handling.symm,
    first.constants.trans second.constants.symm, first.allocations.trans second.allocations.symm⟩

end Arguments

/-- A run is turned away over its options: those of its file, a ceiling below none, or those that it
settles on. -/
inductive Ending.RejectsOptions : Ending → Prop
  | file (path : String) (why : OptionFailure) :
      RejectsOptions (.failed ⟨"loading config " ++ path, why.causes⟩)
  | ceiling (value : Int) :
      RejectsOptions (.failed ⟨(OptionFailure.negativeCeiling value).message, []⟩)
  | settled (why : OptionFailure) :
      RejectsOptions (.failed ⟨"invalid analysis options", (Failure.options why).causes⟩)

theorem head?_append {s : String} {c : Char} (starts : s.toList.head? = some c) (t : String) :
    (s ++ t).toList.head? = some c := by
  rw [String.toList_append, List.head?_append, starts]
  rfl

/-- Complaints about options are told by how they begin. -/
theorem Ending.RejectsOptions.head {why : Complaint}
    (rejects : (Ending.failed why).RejectsOptions) :
    why.context.toList.head? ∈ [some 'l', some 'I', some 'i'] := by
  cases rejects with
  | file path cause =>
      rw [head?_append (c := 'l') (by decide) path]
      decide
  | ceiling value =>
      have begins : (OptionFailure.negativeCeiling value).message.toList.head? = some 'I' := by
        unfold OptionFailure.message OptionFailure.rangeMessage
        simp only [String.append_assoc]
        exact head?_append (by decide) _
      rw [begins]
      decide
  | settled cause =>
      change "invalid analysis options".toList.head? ∈ _
      decide

namespace Folder

/-- A file that was opened and cannot be written to has no room. -/
theorem noSpace_of_write {d : Folder} {path text : String} {why : FileFailure}
    (failed : d.write path text = .error (.writing why)) : why = .noSpace := by
  have sent : ∀ {device}, d.send text device = .error (.writing why) → why = .noSpace := by
    intro device failed
    cases device with
    | full =>
        simp only [send] at failed
        split_ifs at failed
        cases failed
        rfl
    | _ => cases failed
  unfold write at failed
  split at failed
  · cases failed
  · split_ifs at failed
    · cases failed
    · cases failed
    · unfold put at failed
      split at failed
      · cases failed
      · cases failed
      · exact sent failed
      · cases failed
      · split_ifs at failed
        cases failed

variable (a : Arguments) (p : Program) (g : CallGraph) (d : Folder)

theorem run_write (path text : String) : (host.write path text).run d =
    pure (match d.write path text with
      | .error why => (.error why, d)
      | .ok after => (.ok (), after)) := by
  unfold host
  cases here : d.write path text with
  | error why => simp [here]
  | ok after => simp [here]

/-- Other complaints than those about options begin otherwise. -/
theorem not_rejects_of_head {why : Complaint} {c : Char}
    (begins : why.context.toList.head? = some c) (other : some c ∉ [some 'l', some 'I', some 'i']) :
    ¬ (Ending.failed why).RejectsOptions :=
  fun rejects => other (begins ▸ rejects.head)

theorem not_rejects_of_writeResults : ¬ ((a.writeResults host p g).run d).1.RejectsOptions := by
  unfold Arguments.writeResults
  simp only [StateT.run_bind, run_write, pure_bind]
  cases d.write (a.output.getD "") (g.listing p !a.noSourceNumbers) with
  | error why => exact not_rejects_of_head (head?_append (c := 'w') (by decide) _) (by decide)
  | ok after =>
      cases a.drawing with
      | none => exact nofun
      | some path =>
          simp only [StateT.run_bind, run_write, pure_bind]
          cases drawn : after.write path (g.drawing p) with
          | error failure =>
              cases failure with
              | creating why =>
                  exact not_rejects_of_head (head?_append (c := 'c') (by decide) _) (by decide)
              | writing why =>
                  obtain rfl := noSpace_of_write drawn
                  exact not_rejects_of_head (c := 'N') (by decide) (by decide)
          | ok last => exact nofun

theorem run_read (path : String) : (host.read path).run d = pure (d.read path, d) := rfl

/-- A run is over its options exactly if they break a rule. -/
theorem rejects_of_analyzeUnder_iff (o : Options) :
    ((a.analyzeUnder host o).run d).1.RejectsOptions ↔ ¬ o.Admissible := by
  unfold Arguments.analyzeUnder Session.new
  rw [← Options.validate_eq_ok_iff]
  cases checked : o.validate with
  | error why => exact iff_of_true (.settled why) nofun
  | ok _ =>
      refine iff_of_false ?_ (not_not_intro rfl)
      simp only [StateT.run_bind, run_read, pure_bind]
      cases Arguments.programOfFile (d.read (a.scripts.getD "")) with
      | error why => exact not_rejects_of_head (head?_append (c := 'a') (by decide) _) (by decide)
      | ok p =>
          simp only [StateT.run_bind]
          exact not_rejects_of_writeResults a p _ _

end Folder

namespace Arguments

/-- The configuration file of a command line as it is found in a folder. -/
def fileIn (a : Arguments) (d : Folder) : Option (String × Except FileFailure String) :=
  a.config.map fun path => (path, d.read path)

/-- The options of the configuration file in a folder, or the defaults if there is to be none. -/
def BasedOn (a : Arguments) (d : Folder) (o : Options) : Prop :=
  match a.config with
  | none => o = default
  | some path => ∃ text, d.read path = .ok text ∧ o.WrittenIn text

variable {a : Arguments} {d : Folder} {old new : Options}

theorem run_host (a : Arguments) (d : Folder) : (a.run Folder.host).run d =
    match a.settle (a.fileIn d) with
    | .error why => pure (.failed why, d)
    | .ok o => (a.analyzeUnder Folder.host o).run d := by
  unfold run fileIn
  cases a.config with
  | none =>
      simp only [pure_bind, Option.map_none]
      cases a.settle none <;> rfl
  | some path =>
      simp only [StateT.run_bind, Folder.run_read, pure_bind, Option.map_some]
      cases a.settle (some (path, d.read path)) <;> rfl

theorem settle_eq_override (based : a.BasedOn d old) (admissible : old.Admissible)
    (settled : a.override old = .ok new) : a.settle (a.fileIn d) = .ok new := by
  have base : baseOptions (a.fileIn d) = .ok old := by
    unfold BasedOn at based
    unfold fileIn
    cases named : a.config with
    | none =>
        rw [named] at based
        rw [based]
        rfl
    | some path =>
        rw [named] at based
        obtain ⟨text, found, written⟩ := based
        simp only [Option.map_some, baseOptions, optionsOfFile, found, written.ofFile_eq,
          Options.validate_eq_ok_iff.mpr admissible, Except.map]
  unfold settle
  simp only [base, settled]

theorem settle_eq_error (based : a.BasedOn d old) (broken : ¬ old.Admissible) :
    ∃ path why, a.settle (a.fileIn d) =
      .error ⟨"loading config " ++ path, OptionFailure.causes why⟩ := by
  unfold BasedOn at based
  unfold fileIn
  cases named : a.config with
  | none =>
      rw [named] at based
      exact absurd (Options.validate_eq_ok_iff.mp rfl) (based ▸ broken)
  | some path =>
      rw [named] at based
      obtain ⟨text, found, written⟩ := based
      cases checked : old.validate with
      | ok _ => exact absurd (Options.validate_eq_ok_iff.mp checked) broken
      | error why =>
          refine ⟨path, why, ?_⟩
          simp only [Option.map_some, settle, baseOptions, optionsOfFile, found, written.ofFile_eq,
            checked, Except.map]

end Arguments

/-- The options that a command line settles on are those of its file, with each value that is given
in place of the file's, and the run is over its options exactly if those of the file or these break
a rule. Where those of the file do not, the run is the one under these. -/
theorem settles_or_rejects {d : Folder} {args : List String} {a : Arguments} {file : Options}
    (asked : Arguments.parse? args = some (.run a)) (allowed : a.CeilingAllowed)
    (based : a.BasedOn d file) :
    ∃ merged, a.Overrides file merged ∧ (∀ other, a.Overrides file other → other = merged) ∧
      ((d.execute args).1.RejectsOptions ↔ ¬ file.Admissible ∨ ¬ merged.Admissible) ∧
      (file.Admissible → a.settle (a.fileIn d) = .ok merged ∧
        d.execute args = (a.analyzeUnder Folder.host merged).run d) := by
  obtain ⟨merged, settled, overrides⟩ :=
    Arguments.exists_override allowed (Arguments.bounded_of_parse? asked) file
  have runs : d.execute args = (a.run Folder.host).run d := by
    unfold Folder.execute Arguments.execute
    rw [asked]
  refine ⟨merged, overrides, fun other also => also.unique allowed overrides, ?_, ?_⟩
  · rw [runs, Arguments.run_host]
    by_cases admissible : file.Admissible
    · rw [Arguments.settle_eq_override based admissible settled]
      simpa [admissible] using Folder.rejects_of_analyzeUnder_iff a d merged
    · obtain ⟨path, why, refused⟩ := Arguments.settle_eq_error based admissible
      rw [refused]
      exact iff_of_true (.file path why) (.inl admissible)
  · intro admissible
    have chosen := Arguments.settle_eq_override based admissible settled
    refine ⟨chosen, ?_⟩
    rw [runs, Arguments.run_host, chosen]

/-- A folder with two configuration files. -/
def Folder.settings : Folder where
  files :=
    [("full.yaml", "version: 1\nanalysis:\n  reflection: full\n  timeout_ms: 50\n"),
     ("empty.yaml", "version: 1\nanalysis:\n  max_nodes: 0\n")]

/-- Arguments that replace the reflection of a file, and what goes with it. -/
def Arguments.stricter : Arguments where
  scripts := some "a.json"
  output := some "a.tsv"
  config := some "full.yaml"
  reflection := some .stringOnly
  constantSpecific := true

/-- The reflection is the one that is given, the time limit the one of the file. -/
theorem settles_or_rejects_stricter :
    Arguments.parse? ["--scripts", "a.json", "-o", "a.tsv", "--config", "full.yaml",
      "--reflection-setting", "string-only", "--use-constant-specific-keys"] =
      some (.run .stricter) ∧
    Arguments.stricter.CeilingAllowed ∧
    Arguments.stricter.BasedOn .settings { reflection := .full, timeoutMs := some 50 } ∧
    Arguments.stricter.settle (Arguments.stricter.fileIn .settings) =
      .ok { reflection := .stringOnly, timeoutMs := some 50, constantSpecific := true } := by
  have asked : Arguments.parse? ["--scripts", "a.json", "-o", "a.tsv", "--config", "full.yaml",
      "--reflection-setting", "string-only", "--use-constant-specific-keys"] =
      some (.run .stricter) := by
    decide +kernel
  have allowed : Arguments.stricter.CeilingAllowed := nofun
  have based : Arguments.stricter.BasedOn .settings
      { reflection := .full, timeoutMs := some 50 } := by
    refine ⟨"version: 1\nanalysis:\n  reflection: full\n  timeout_ms: 50\n", by rfl, ?_⟩
    unfold Options.WrittenIn
    decide +kernel
  obtain ⟨merged, -, unique, -, run⟩ := settles_or_rejects asked allowed based
  have overrides : Arguments.stricter.Overrides { reflection := .full, timeoutMs := some 50 }
      { reflection := .stringOnly, timeoutMs := some 50, constantSpecific := true } :=
    ⟨rfl, rfl, rfl, rfl, rfl, rfl, fun _ => rfl, nofun, nofun⟩
  rw [unique _ overrides]
  exact ⟨asked, allowed, based, (run (Options.validate_eq_ok_iff.mp rfl)).1⟩

/-- Arguments that replace the ceiling of a file. -/
def Arguments.raised : Arguments where
  scripts := some "a.json"
  output := some "a.tsv"
  config := some "empty.yaml"
  maxNodes := some 5

/-- A file with a ceiling of zero is turned away although the command line replaces the ceiling. -/
theorem replaced_value_rejects : ¬ ∀ (d : Folder) (args : List String) (a : Arguments)
    (file merged : Options), Arguments.parse? args = some (.run a) → a.CeilingAllowed →
    a.BasedOn d file → a.Overrides file merged →
    ((d.execute args).1.RejectsOptions ↔ ¬ merged.Admissible) := by
  intro only
  have allowed : Arguments.raised.CeilingAllowed := by
    rintro n ⟨⟩
    exact .inr (by decide)
  have based : Arguments.raised.BasedOn .settings { maxNodes := some 0 } := by
    refine ⟨"version: 1\nanalysis:\n  max_nodes: 0\n", by rfl, ?_⟩
    unfold Options.WrittenIn
    decide +kernel
  have overrides : Arguments.raised.Overrides { maxNodes := some 0 } { maxNodes := some 5 } := by
    refine ⟨rfl, rfl, rfl, rfl, rfl, rfl, nofun, nofun, fun n same => ?_⟩
    obtain rfl : n = 5 := by
      cases same
      rfl
    rfl
  have asked : Arguments.parse? ["--scripts", "a.json", "-o", "a.tsv", "--config", "empty.yaml",
      "--max-number-of-nodes", "5"] = some (.run .raised) := by
    decide +kernel
  have ending : (Folder.settings.execute ["--scripts", "a.json", "-o", "a.tsv", "--config",
      "empty.yaml", "--max-number-of-nodes", "5"]).1 =
      .failed ⟨"loading config " ++ "empty.yaml", OptionFailure.zeroCeiling.causes⟩ := by
    decide +kernel
  have rejects := Ending.RejectsOptions.file "empty.yaml" .zeroCeiling
  rw [← ending] at rejects
  exact (only _ _ _ _ _ asked allowed based overrides).mp rejects
    (Options.validate_eq_ok_iff.mp rfl)

end CallFlow
