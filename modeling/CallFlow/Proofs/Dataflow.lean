import CallFlow.Proofs.Analysis
import CallFlow.Proofs.Construction.Instructions

/-! How instructions pass objects: in a complete answer variables, globals and lexical variables
hold just what instructions give and write to them, and fields hold all that is put into them. -/

namespace CallFlow

/-- Some node of an answer writes an object by an instruction of a kind. -/
def Analysis.Writes (p : Program) (a : Analysis) (write : VarId → Instruction)
    (x : AbstractObject) : Prop :=
  ∃ n f v, a.graph.node? n.id = some n ∧ n.body? p = some f ∧ write v ∈ f.instructions ∧
    a.HeldBy n v x

/-- Places of an answer hold just what the instructions give them, and fields no less. -/
structure Analysis.Flowing (p : Program) (o : Options) (a : Analysis) : Prop where
  given : ∀ n f (pc : Nat) i v, a.graph.node? n.id = some n → n.body? p = some f →
    f.instructions[pc]? = some i → i.call? = none → i.defines? = some v → ∀ x,
    a.HeldBy n v x ↔ i.Gives a.Holds n.role (.ofOptions o) o.reflection f.id pc x
  written : ∀ name x, a.Holds (.global name) x ↔ a.Writes p (.globalWrite name) x
  captured : ∀ definer name x,
    a.Holds (.lexical definer name) x ↔ a.Writes p (.lexicalWrite name definer) x
  put : ∀ n f (pc : Nat) i, a.graph.node? n.id = some n → n.body? p = some f →
    f.instructions[pc]? = some i → ∀ y q x, i.Puts a.Holds n.role o.reflection y q x →
    a.Holds (.field y q) x

variable {p : Program} {o : Options} {a : Analysis}

theorem Analysis.Exact.holds_eq {u : Setup} (exact : a.Exact u) : a.Holds = u.Holds :=
  funext fun q => funext fun x => propext (exact.holds q x)

theorem Analysis.Exact.writes_iff (exact : a.Exact (.ofOptions p o)) {write : VarId → Instruction}
    {x : AbstractObject} : a.Writes p write x ↔ (Setup.ofOptions p o).Written write x := by
  constructor
  · rintro ⟨n, f, v, node, body, member, held⟩
    obtain ⟨g, function⟩ := Node.function_of_body? body
    rw [exact.heldBy_eq] at held
    exact ⟨n.role, f, v, exact.follows_function node function, body, member, held⟩
  · rintro ⟨r, f, v, follows, body, member, held⟩
    obtain ⟨i, here⟩ := exact.known r follows
    refine ⟨⟨i, r.1, r.2⟩, f, v, CallGraph.node?_eq_some_iff.mpr ⟨here, rfl⟩, body, member, ?_⟩
    rw [exact.heldBy_eq]
    exact held

theorem Analysis.Exact.follows_body (exact : a.Exact (.ofOptions p o)) {n : Node} {f : FunctionBody}
    (node : a.graph.node? n.id = some n) (body : n.body? p = some f) :
    (Setup.ofOptions p o).Follows (.node n.role) := by
  obtain ⟨g, function⟩ := Node.function_of_body? body
  exact exact.follows_function node function

theorem Analysis.Exact.flowing (exact : a.Exact (.ofOptions p o)) (valid : p.validate = .ok ()) :
    a.Flowing p o := by
  have wf : (Setup.ofOptions p o).program.WellFormed := Program.wellFormed_of_validate valid
  refine ⟨fun n f pc i v node body stands plain defines x => ?_, fun name x => ?_,
    fun definer name x => ?_, fun n f pc i node body stands y q x puts => ?_⟩
  · rw [exact.heldBy_eq, exact.holds_eq]
    exact Setup.held_iff_gives wf (exact.follows_body node body) body stands defines plain
  · rw [exact.holds, exact.writes_iff]
    exact Setup.follows_global_iff
  · rw [exact.holds, exact.writes_iff]
    exact Setup.follows_lexical_iff
  · rw [exact.holds_eq] at puts
    exact (exact.holds _ _).mpr
      (Setup.fields_of_puts (exact.follows_body node body) body stands puts)

/-- Places of a complete answer hold just what the instructions give them. -/
theorem flowing_of_analyze {monitor : Nat → Option CancelReason}
    (run : analyze p o monitor = .ok a) (complete : a.completion = .complete) :
    a.Flowing p o := by
  obtain ⟨valid, -⟩ := exists_reached_of_analyze run
  exact (exact_of_analyze run complete).flowing valid

theorem flowing_tour : ∃ a, analyze .tour .thorough (fun _ => none) = .ok a ∧
    a.completion = .complete ∧ a.Flowing .tour .thorough := by
  obtain ⟨a, run, complete, -⟩ := analyze_tour
  exact ⟨a, run, complete, flowing_of_analyze run complete⟩

end CallFlow
