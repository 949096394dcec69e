import TensorGraph.CompactGraph
import TensorGraph.Proofs.Operations
import TensorGraph.Proofs.Order
import TensorGraph.Proofs.Solutions
import TensorGraph.Proofs.WellFormed

/-!
The compact form of a graph: its operations without group markers, in their order. They write each
tensor once and before it is read.
-/

namespace TensorGraph

namespace Graph

def compacted (operation : Operation) (inputs outputs : List Nat) : CompactOperation where
  id := operation.id
  kind := operation.kind
  elementType := operation.elementType.getD default
  inputs
  outputs
  parameters := operation.parameters

def compactNode (node : OperationNode) : CompactOperation :=
  compacted node.operation node.inputs node.outputs

def Typed (graph : Graph) (node : OperationNode) : Prop :=
  ∃ elementType, node.operation.elementType = some elementType ∧
    ∀ tensor ∈ node.inputs ++ node.outputs, ∀ tensorNode,
      graph.tensors[tensor]? = some tensorNode → tensorNode.tensor.elementType = elementType

theorem typeMismatch_eq_none_iff {graph : Graph} {expected : ElementType} {tensors : List Nat} :
    graph.typeMismatch expected tensors = none ↔ ∀ tensor ∈ tensors, ∀ tensorNode,
      graph.tensors[tensor]? = some tensorNode → tensorNode.tensor.elementType = expected := by
  rw [typeMismatch, List.find?_eq_none]
  simp only [List.mem_filterMap, Option.map_eq_some_iff]
  constructor
  · intro alike tensor member tensorNode found
    simpa using alike _ ⟨tensor, member, tensorNode, found, rfl⟩
  · rintro alike elementType ⟨tensor, member, tensorNode, found, same⟩
    simpa [← same] using alike tensor member tensorNode found

theorem compactOperation_ok_iff {graph : Graph} {node : OperationNode}
    {operation : CompactOperation} :
    graph.compactOperation node = .ok operation ↔
      graph.Typed node ∧ operation = compactNode node := by
  simp only [compactOperation, Typed, ← typeMismatch_eq_none_iff]
  cases sameType : node.operation.elementType with
  | none => simp
  | some elementType =>
      simp only [Option.some.injEq, exists_eq_left']
      cases graph.typeMismatch elementType (node.inputs ++ node.outputs) with
      | some actual => simp
      | none => simp [compactNode, compacted, sameType, eq_comm]

theorem compact_ok_iff {graph : Graph} {compactGraph : CompactGraph} :
    graph.compact = .ok compactGraph ↔ graph.Ordered ∧ (∀ node ∈ graph.executable, graph.Typed node) ∧
      compactGraph = ⟨graph.metadata, graph.tensorList, graph.executable.map compactNode⟩ := by
  rw [compact, seq_eq_ok_iff, checkOrder_ok_iff]
  simp only [bind_eq_ok_iff, mapM_eq_ok_iff, compactOperation_ok_iff]
  constructor
  · rintro ⟨ordered, operations, related, same⟩
    have typed : ∀ node ∈ graph.executable, graph.Typed node := by
      intro node member
      obtain ⟨_, _, isTyped, _⟩ := exists_of_forall₂ related member
      exact isTyped
    have sameOperations : graph.executable.map compactNode = operations := by
      rw [← List.forall₂_eq_eq_eq, List.forall₂_map_left_iff]
      exact related.imp fun _ _ holds => holds.2.symm
    refine ⟨ordered, typed, ?_⟩
    rw [sameOperations]
    exact (Except.ok.inj same).symm
  · rintro ⟨ordered, typed, same⟩
    refine ⟨ordered, graph.executable.map compactNode, ?_, by rw [same]; rfl⟩
    rw [List.forall₂_map_right_iff, List.forall₂_same]
    exact fun node member => ⟨typed node member, rfl⟩

theorem mem_executable {graph : Graph} {node : OperationNode} :
    node ∈ graph.executable ↔ node ∈ graph.operations ∧ node.operation.isGroup = false := by
  rw [executable, List.mem_filter, Bool.not_eq_true']

namespace WellFormed

variable {graph : Graph}

theorem computes (wellFormed : graph.WellFormed) {node : OperationNode}
    (member : node ∈ graph.executable) : node.operation.Computes := by
  obtain ⟨listed, plain⟩ := mem_executable.mp member
  exact Operation.computes_of_validate
    (wellFormed.operationsValid _ (List.mem_map_of_mem listed)) plain

theorem equipped_compactNode (wellFormed : graph.WellFormed) {node : OperationNode}
    (member : node ∈ graph.executable) :
    Operation.Equipped (compactNode node).kind (compactNode node).elementType
      (compactNode node).inputs.length (compactNode node).parameters := by
  obtain ⟨listed, plain⟩ := mem_executable.mp member
  obtain ⟨elementType, sameType, equipped⟩ := Operation.exists_equipped_of_validate
    (wellFormed.operationsValid _ (List.mem_map_of_mem listed)) plain
  rw [← (wellFormed.inputs node listed plain).length_eq] at equipped
  rw [compactNode, compacted, sameType]
  exact equipped

theorem sound_compactNode (wellFormed : graph.WellFormed) {node : OperationNode}
    (member : node ∈ graph.executable) (typed : graph.Typed node) :
    (compactNode node).Sound graph.tensorList := by
  obtain ⟨listed, plain⟩ := mem_executable.mp member
  have inputs := wellFormed.inputs node listed plain
  have outputs := wellFormed.outputs node listed plain
  have computes := wellFormed.computes member
  constructor
  case typed =>
    intro index operand
    obtain ⟨tensor, found⟩ : ∃ tensor, graph.tensorList[index]? = some tensor := by
      rcases List.mem_append.mp operand with isInput | isOutput
      · obtain ⟨_, _, tensor, found, _⟩ := exists_of_forall₂ inputs isInput
        exact ⟨tensor, found⟩
      · obtain ⟨_, _, tensor, found, _⟩ := exists_of_forall₂ outputs isOutput
        exact ⟨tensor, found⟩
    obtain ⟨tensorNode, nodeFound, same⟩ := tensorList_getElem?.mp found
    obtain ⟨elementType, hasType, alike⟩ := typed
    refine ⟨tensor, found, ?_⟩
    rw [← same, alike index operand tensorNode nodeFound, compactNode, compacted, hasType]
    rfl
  case writesSomething =>
    intro empty
    refine computes.writesSomething (List.eq_nil_of_length_eq_zero ?_)
    rw [← outputs.length_eq]
    exact List.length_eq_zero_iff.mpr empty
  case outputsOnce => exact outputs.nodup computes.outputsOnce
  case notRead =>
    intro index isInput isOutput
    obtain ⟨tensor, found, read⟩ := (inputs.mem_iff wellFormed.tensorIds).mp isInput
    obtain ⟨other, otherFound, written⟩ := (outputs.mem_iff wellFormed.tensorIds).mp isOutput
    rw [found] at otherFound
    cases otherFound
    exact computes.notRead _ written read

/-- In an ordered graph no operation writes what it or an earlier one reads or writes. -/
theorem apart_of_ordered (wellFormed : graph.WellFormed) (ordered : graph.Ordered) :
    graph.operations.Pairwise fun earlier later =>
      ∀ index ∈ later.outputs, index ∉ earlier.inputs ∧ index ∉ earlier.outputs := by
  rw [List.pairwise_iff_getElem]
  intro first second firstBound secondBound before index written
  have produced := wellFormed.producer?_eq_some_iff.mpr
    ⟨_, List.getElem?_eq_getElem secondBound, written⟩
  constructor
  · intro read
    have := ordered first _ (List.getElem?_eq_getElem firstBound) index read second produced
    omega
  · intro writtenBefore
    have producedBefore := wellFormed.producer?_eq_some_iff.mpr
      ⟨_, List.getElem?_eq_getElem firstBound, writtenBefore⟩
    rw [produced] at producedBefore
    cases producedBefore
    omega

theorem sequential (wellFormed : graph.WellFormed) (ordered : graph.Ordered)
    (typed : ∀ node ∈ graph.executable, graph.Typed node) :
    Sequential graph.tensorList (graph.executable.map compactNode) where
  sound := by
    rw [List.forall_mem_map]
    exact fun node member => wellFormed.sound_compactNode member (typed node member)
  order := by
    rw [List.pairwise_map]
    exact (wellFormed.apart_of_ordered ordered).sublist List.filter_sublist

theorem producer?_eq_none_iff (wellFormed : graph.WellFormed) {index : Nat} :
    graph.producer? index = none ↔
      ∀ operation ∈ graph.executable.map compactNode, index ∉ operation.outputs := by
  rw [List.forall_mem_map]
  constructor
  · intro noProducer node member written
    obtain ⟨position, found⟩ := List.mem_iff_getElem?.mp (mem_executable.mp member).1
    have produced := wellFormed.producer?_eq_some_iff.mpr ⟨node, found, written⟩
    rw [noProducer] at produced
    cases produced
  · intro untouched
    cases produced : graph.producer? index with
    | none => rfl
    | some position =>
        obtain ⟨node, found, written⟩ := wellFormed.producer?_eq_some_iff.mp produced
        have listed := List.mem_of_getElem? found
        cases isGroup : node.operation.isGroup with
        | false => exact absurd written (untouched node (mem_executable.mpr ⟨listed, isGroup⟩))
        | true =>
            rw [(wellFormed.markers node listed isGroup).2] at written
            cases written

end WellFormed

theorem executable_of_build {tensors : List Tensor} {operations : List Operation}
    {capacity : Capacity} {graph : Graph} (built : build tensors operations capacity = .ok graph) :
    graph.executable = (graph.operationList.filter fun operation => !operation.isGroup).map
      (Connections.operationNode graph.tensorList) := by
  obtain ⟨arranged, ranks, _, _, _, same, _⟩ := exists_arranged_of_build built
  rw [same, connected_operationList, connected_tensorList, executable, connected, List.filter_map]
  rfl

end Graph

end TensorGraph
