import CallFlow.Proofs.Derivation
import CallFlow.Proofs.Flow.Propagation

/-! The rules of flow: objects pass along edges, and demands are met, by one rule for each form of a
demand. -/

namespace CallFlow

variable {ν : Type}

/-- How findings of a solver follow from others. -/
inductive FlowRule (r : Reflection) : List (Finding ν) → Finding ν → Prop
  | self {p} : FlowRule r [.place p] (.flows p p)
  | pass {p q o} : FlowRule r [.flows p q, .holds p o] (.holds q o)
  | load {p s dst o j} : j ∈ s.loadFindings r dst o →
      FlowRule r [.attached p (.load s dst), .holds p o] j
  | store {p s src o j} : j ∈ s.storeFindings r src o →
      FlowRule r [.attached p (.store s src), .holds p o] j
  | loadKey {p object key dst k j} : j ∈ k.keyFindings r →
      FlowRule r [.attached p (.dynamicLoad object key dst), .holds key k] j
  | storeKey {p object key src k j} : j ∈ k.keyFindings r →
      FlowRule r [.attached p (.dynamicStore object key src), .holds key k] j
  | dynamicLoad {p object key dst o k s j} : k.keySlot? r = some s →
      j ∈ s.loadFindings r dst o →
      FlowRule r [.attached p (.dynamicLoad object key dst), .holds object o, .holds key k] j
  | dynamicStore {p object key src o k s j} : k.keySlot? r = some s →
      j ∈ s.storeFindings r src o →
      FlowRule r [.attached p (.dynamicStore object key src), .holds object o, .holds key k] j

/-- What flow finds out are names, edges, loads that wait and fields of objects, and it passes on
what places hold. -/
theorem FlowRule.of_parts {r : Reflection} {ps : List (Finding ν)} {j : Finding ν}
    {P : Finding ν → Prop} (rule : FlowRule r ps j) (names : ∀ n, P (.name n))
    (linked : ∀ p q, P (.flows p q)) (waiting : ∀ p s q, P (.attached p (.load s q)))
    (fields : ∀ o s, o.isPrimitive = false → P (.place (.field o s)))
    (passed : ∀ p q o, .holds p o ∈ ps → P (.holds q o)) : P j := by
  have load : ∀ (s : Slot) dst o, Each P (s.loadFindings r dst o) := fun s dst o =>
    (each_load r s dst o).mpr fun object => ⟨fun q _ => ⟨fields o q object, linked _ _⟩,
      fun _ => ⟨fields o .proto object, waiting _ _ _⟩⟩
  have store : ∀ (s : Slot) src o, Each P (s.storeFindings r src o) := fun s src o =>
    (each_store r s src o).mpr fun object q _ => ⟨fields o q object, linked _ _⟩
  cases rule with
  | self => exact linked _ _
  | pass => exact passed _ _ _ (List.mem_cons_of_mem _ List.mem_cons_self)
  | load member => exact load _ _ _ j member
  | store member => exact store _ _ _ j member
  | loadKey member => exact each_key r _ names j member
  | storeKey member => exact each_key r _ names j member
  | dynamicLoad _ member => exact load _ _ _ j member
  | dynamicStore _ member => exact store _ _ _ j member

namespace Solver

theorem flowing_of_closed {r : Reflection} {D : Finding ν → Prop} (closed : Closed (FlowRule r) D) :
    Flowing r D where
  self _ here := closed.of_one .self here
  pass _ _ _ linked held := closed.of_two .pass linked held
  asked p d j attached asks := by
    cases asks with
    | load held asked => exact closed.of_two (.load asked) attached held
    | store held asked => exact closed.of_two (.store asked) attached held
    | loadKey key asked => exact closed.of_two (.loadKey asked) attached key
    | storeKey key asked => exact closed.of_two (.storeKey asked) attached key
    | dynamicLoad held key slot asked =>
        exact closed.of_three (.dynamicLoad slot asked) attached held key
    | dynamicStore held key slot asked =>
        exact closed.of_three (.dynamicStore slot asked) attached held key

/-- To be closed under the rules of flow is to let objects flow and to meet all demands. -/
theorem Flowing.closed {r : Reflection} {D : Finding ν → Prop} (flowing : Flowing r D) :
    Closed (FlowRule r) D := by
  intro ps j rule premises
  have first : ∀ {q qs}, ps = q :: qs → D q := fun same => premises _ (same ▸ List.mem_cons_self)
  have second : ∀ {q q' qs}, ps = q :: q' :: qs → D q' := fun same =>
    premises _ (same ▸ List.mem_cons_of_mem _ List.mem_cons_self)
  have third : ∀ {q q' q'' qs}, ps = q :: q' :: q'' :: qs → D q'' := fun same =>
    premises _ (same ▸ List.mem_cons_of_mem _ (List.mem_cons_of_mem _ List.mem_cons_self))
  cases rule with
  | self => exact flowing.self _ (first rfl)
  | pass => exact flowing.pass _ _ _ (first rfl) (second rfl)
  | load asked => exact flowing.asked _ _ _ (first rfl) (.load (second rfl) asked)
  | store asked => exact flowing.asked _ _ _ (first rfl) (.store (second rfl) asked)
  | loadKey asked => exact flowing.asked _ _ _ (first rfl) (.loadKey (second rfl) asked)
  | storeKey asked => exact flowing.asked _ _ _ (first rfl) (.storeKey (second rfl) asked)
  | dynamicLoad slot asked =>
      exact flowing.asked _ _ _ (first rfl) (.dynamicLoad (second rfl) (third rfl) slot asked)
  | dynamicStore slot asked =>
      exact flowing.asked _ _ _ (first rfl) (.dynamicStore (second rfl) (third rfl) slot asked)

/-- In a solver in which nothing is left to do objects flow and all demands are met. -/
theorem Settled.flowing {nodes : Nat → Option ν} {s : Solver}
    (settled : s.Settled nodes fun _ => False) (twinned : s.Twinned nodes) :
    Flowing s.reflection (s.Knows nodes) where
  self p here := by
    cases here with
    | place here => exact .self here
  pass p q o linked held := (settled.passed p q o linked held).resolve_left id
  asked p d j attached asks :=
    (settled.asked p d j attached (twinned.watches attached) asks).resolve_left
      fun ⟨_, _, never⟩ => never

end Solver

end CallFlow
