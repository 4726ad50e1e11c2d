import CallFlow.Construction.Basic
import CallFlow.Proofs.Flow.Cost

/-! What the work of a construction is worth. Besides locations, nodes that run functions and
bindings wait, each of them once, so that all steps done and all that wait are paid for by what was
found. -/

namespace CallFlow.Construction

variable {u : Setup} {c d e : Construction}

/-- How much was done and how much waits. -/
def spent (c : Construction) : Nat := c.iterations + c.solver.pending

def functionNodes (c : Construction) : Nat :=
  c.graph.methods.values.countP fun n => n.1.function?.isSome

/-- The bindings that were made so far, each once. -/
structure Lists (c : Construction) (bs : List Binding) : Prop where
  nodup : bs.Nodup
  mem : ∀ b, b ∈ bs ↔ c.bindings.contains b = true

/-- What is done and waits more is paid for, the counters stay right, and without a ceiling no node
is refused. -/
structure Accounts (u : Setup) (c d : Construction) : Prop where
  counted : c.solver.Counted → d.solver.Counted
  paid : ∀ bs, c.Lists bs → ∃ bs', d.Lists bs' ∧
    d.spent + (c.solver.gains + c.functionNodes + bs.length) ≤
      c.spent + (d.solver.gains + d.functionNodes + bs'.length)
  below : u.maxNodes = none → c.ceilingHit = false → d.ceilingHit = false

theorem Accounts.refl (u : Setup) (c : Construction) : c.Accounts u c where
  counted := id
  paid bs lists := ⟨bs, lists, Nat.le_refl _⟩
  below _ open' := open'

theorem Accounts.trans (first : c.Accounts u d) (second : d.Accounts u e) : c.Accounts u e where
  counted before := second.counted (first.counted before)
  paid bs lists := by
    obtain ⟨bs', middle, one⟩ := first.paid bs lists
    obtain ⟨bs'', last, two⟩ := second.paid bs' middle
    exact ⟨bs'', last, by omega⟩
  below none before := second.below none (first.below none before)

/-- All that was done and waits is paid for. -/
structure Accounted (u : Setup) (c : Construction) : Prop where
  counted : c.solver.Counted
  paid : ∃ bs, c.Lists bs ∧ c.spent ≤ c.solver.gains + c.functionNodes + bs.length
  below : u.maxNodes = none → c.ceilingHit = false

theorem Accounts.accounted (accounts : c.Accounts u d) (before : c.Accounted u) :
    d.Accounted u where
  counted := accounts.counted before.counted
  paid := by
    obtain ⟨bs, lists, paid⟩ := before.paid
    obtain ⟨bs', lists', more⟩ := accounts.paid bs lists
    exact ⟨bs', lists', by omega⟩
  below none := accounts.below none (before.below none)

theorem Accounts.of_paid (counted : c.solver.Counted → d.solver.Counted)
    (bindings : d.bindings = c.bindings)
    (paid : d.spent + (c.solver.gains + c.functionNodes) ≤
      c.spent + (d.solver.gains + d.functionNodes))
    (below : u.maxNodes = none → c.ceilingHit = false → d.ceilingHit = false) :
    c.Accounts u d where
  counted := counted
  paid bs lists := ⟨bs, ⟨lists.nodup, fun b => bindings ▸ lists.mem b⟩, by omega⟩
  below := below

theorem accounts_of_solver {t : Solver} (accounts : c.solver.Accounts t) :
    c.Accounts u { c with solver := t } := by
  refine .of_paid accounts.counted rfl ?_ fun _ before => before
  have paid := accounts.paid
  simp only [spent, functionNodes]
  omega

theorem accounts_of_graph {g : CallGraph} (same : g.methods = c.graph.methods) :
    c.Accounts u { c with graph := g } := by
  refine .of_paid id rfl ?_ fun _ before => before
  simp only [spent, functionNodes, same, Nat.le_refl]

theorem accounts_of_counts (c : Construction) (visited : Nat) (worked : List Nat) :
    c.Accounts u { c with visited, worked } :=
  .of_paid id rfl (Nat.le_refl _) fun _ before => before

/-- A node is refused only below a ceiling. -/
theorem accounts_refuse (full : c.isFull u = true) :
    c.Accounts u { c with ceilingHit := true } := by
  refine .of_paid id rfl (Nat.le_refl _) fun none => ?_
  simp [isFull, none] at full

/-- A node that runs a function pays for its visit. -/
theorem accounts_addNode {m : Method} {ctx : Context} (new : c.graph.find? m ctx = none) :
    let added := c.graph.addNode m ctx
    let c' : Construction := { c with graph := added.2 }
    c.Accounts u (if m.function?.isSome then c'.push (.visit added.1.1) else c') := by
  have values : (c.graph.addNode m ctx).2.methods.values =
      c.graph.methods.values ++ [(m, ctx)] := by
    have unknown : c.graph.methods.find? (m, ctx) = none := new
    simp only [CallGraph.addNode, Numbering.numberNew_of_find?_eq_none unknown,
      Numbering.values_push]
  intro added c'
  have nodes : c'.functionNodes = c.functionNodes + if m.function?.isSome then 1 else 0 := by
    simp only [functionNodes, c', added, values, List.countP_append, List.countP_singleton]
  split
  · rename_i function
    have pending := Solver.pending_push_le c.solver (.visit added.1.1)
    rw [if_pos function] at nodes
    refine .of_paid (fun before => ⟨before.facts, before.constraints⟩) rfl ?_ fun _ before => before
    have same : (c'.push (.visit added.1.1)).functionNodes = c'.functionNodes := rfl
    simp only [spent, same, nodes]
    have gains : (c'.push (.visit added.1.1)).solver.gains = c.solver.gains := rfl
    have steps : (c'.push (.visit added.1.1)).iterations = c.iterations := rfl
    have waits : (c'.push (.visit added.1.1)).solver.pending =
        (c.solver.push (.visit added.1.1)).pending := rfl
    omega
  · refine .of_paid id rfl ?_ fun _ before => before
    have same : c'.solver = c.solver := rfl
    simp only [spent, same]
    have steps : c'.iterations = c.iterations := rfl
    omega

/-- A binding pays for its turn. -/
theorem accounts_addBinding (c : Construction) (b : Binding) : c.Accounts u (c.addBinding b) := by
  unfold addBinding
  split
  · exact .refl u c
  · rename_i new
    refine ⟨fun before => ⟨before.facts, before.constraints⟩,
      fun bs lists => ⟨b :: bs, ⟨?_, ?_⟩, ?_⟩, fun _ before => before⟩
    · exact List.nodup_cons.mpr ⟨fun member => new ((lists.mem b).mp member), lists.nodup⟩
    · intro b'
      simp only [push, KeySet.contains_insert, List.mem_cons, lists.mem, Bool.or_eq_true,
        decide_eq_true_eq]
      exact or_comm
    · have pending := Solver.pending_push_le c.solver (.target b)
      have waits : ({ c with bindings := c.bindings.insert b }.push (.target b)).spent =
          c.iterations + (c.solver.push (.target b)).pending := rfl
      have gains : ({ c with bindings := c.bindings.insert b }.push (.target b)).solver.gains =
          c.solver.gains := rfl
      have nodes : ({ c with bindings := c.bindings.insert b }.push (.target b)).functionNodes =
          c.functionNodes := rfl
      rw [waits, gains, nodes, List.length_cons]
      unfold spent
      omega

end CallFlow.Construction
