import TensorGraph.Proofs.Compaction
import TensorGraph.Proofs.Reachability

/-!
Parts of a graph. A part keeps tensors and operations in their order, and with a tensor the operation
that writes it, so a part of an ordered graph is ordered, and a part of a graph with a compact form
has one.
-/

namespace TensorGraph

namespace Graph

/-- The part keeps some tensors and operations of the graph, and all that writes what it keeps. -/
structure CutFrom (part graph : Graph) : Prop where
  tensors : part.tensorList.Sublist graph.tensorList
  operations : part.operationList.Sublist graph.operationList
  writersKept : ∀ operation ∈ graph.operationList, ∀ tensor ∈ part.tensorList,
    operation.writes tensor.id = true → operation ∈ part.operationList

/-- Whatever writes a tensor that is kept, is kept too. -/
theorem WellFormed.mem_keepMarked_of_writes {graph : Graph} (wellFormed : graph.WellFormed)
    {wanted : List Nat} {marks : Reachability} (reached : graph.reachability wanted = .ok marks)
    {operation : Operation} (member : operation ∈ graph.operationList) {tensor : Tensor}
    (kept : tensor ∈ keepMarked graph.tensorList marks.tensors)
    (writes : operation.writes tensor.id = true) :
    operation ∈ keepMarked graph.operationList marks.operations := by
  obtain ⟨_, sameMarks⟩ := reachability_ok_iff.mp reached
  obtain ⟨position, found⟩ := List.mem_iff_getElem?.mp member
  obtain ⟨node, nodeFound, sameOperation⟩ := operationList_getElem?.mp found
  obtain ⟨index, tensorFound, touched⟩ := mem_keepMarked.mp kept
  obtain ⟨tensorNode, tensorNodeFound, sameTensor⟩ := tensorList_getElem?.mp tensorFound
  subst sameOperation sameTensor
  have plain : node.operation.isGroup = false := (Connections.writes_iff.mp writes).1
  have written : index ∈ node.outputs :=
    (wellFormed.mem_outputs_iff (List.mem_of_getElem? nodeFound)).mpr
      ⟨tensorNode, tensorNodeFound, writes⟩
  rw [sameMarks, List.getElem?_map, List.getElem?_range (List.getElem?_eq_some_iff.mp
    tensorNodeFound).1] at touched
  have needed := wellFormed.needed_of_touched nodeFound written (Option.some.inj touched)
  refine mem_keepMarked.mpr ⟨position, found, ?_⟩
  rw [sameMarks, wellFormed.markGroups_get nodeFound plain, needed]

theorem WellFormed.ordered_iff {graph : Graph} (wellFormed : graph.WellFormed) :
    graph.Ordered ↔ graph.operationList.Pairwise fun earlier later =>
      ∀ name, later.writes name = true → earlier.reads name = false := by
  rw [ordered_iff_feeds, List.pairwise_iff_getElem]
  constructor
  · intro ordered first second firstBound secondBound before name writes
    by_contra reads
    rw [Bool.not_eq_false] at reads
    have backward := ordered second first (wellFormed.feeds_iff.mpr
      ⟨_, _, name, List.getElem?_eq_getElem secondBound, List.getElem?_eq_getElem firstBound,
        writes, reads⟩)
    omega
  · intro pairwise producer consumer feeds
    obtain ⟨writer, reader, name, writerFound, readerFound, writes, reads⟩ :=
      wellFormed.feeds_iff.mp feeds
    rcases Nat.lt_trichotomy producer consumer with before | same | behind
    · exact before
    · -- No operation feeds itself, since it does not read what it writes.
      subst same
      exact absurd (.single feeds) (wellFormed.acyclic producer)
    · obtain ⟨readerBound, here⟩ := List.getElem?_eq_some_iff.mp readerFound
      obtain ⟨writerBound, there⟩ := List.getElem?_eq_some_iff.mp writerFound
      have notRead := pairwise consumer producer readerBound writerBound behind name
        (by rw [there]; exact writes)
      rw [here, reads] at notRead
      cases notRead

def TypedBy (tensors : List Tensor) (operation : Operation) : Prop :=
  ∃ elementType, operation.elementType = some elementType ∧ ∀ tensor ∈ tensors,
    tensor.id ∈ operation.inputs ++ operation.outputs → tensor.elementType = elementType

theorem WellFormed.typed_iff {graph : Graph} (wellFormed : graph.WellFormed)
    {node : OperationNode} (member : node ∈ graph.executable) :
    graph.Typed node ↔ TypedBy graph.tensorList node.operation := by
  obtain ⟨listed, plain⟩ := mem_executable.mp member
  have operands : ∀ tensor tensorNode, graph.tensors[tensor]? = some tensorNode →
      (tensor ∈ node.inputs ++ node.outputs ↔
        tensorNode.tensor.id ∈ node.operation.inputs ++ node.operation.outputs) := by
    intro tensor tensorNode found
    rw [List.mem_append, List.mem_append, wellFormed.mem_inputs_iff listed,
      wellFormed.mem_outputs_iff listed]
    simp [found, Connections.reads_iff, Connections.writes_iff, plain]
  refine exists_congr fun elementType => and_congr_right fun _ => ?_
  constructor
  · intro typed tensor present named
    obtain ⟨index, found⟩ := List.mem_iff_getElem?.mp present
    obtain ⟨tensorNode, nodeFound, same⟩ := tensorList_getElem?.mp found
    subst same
    exact typed index ((operands index tensorNode nodeFound).mpr named) tensorNode nodeFound
  · intro typed tensor isOperand tensorNode found
    exact typed _ (List.mem_map_of_mem (List.mem_of_getElem? found))
      ((operands tensor tensorNode found).mp isOperand)

namespace CutFrom

variable {part graph : Graph}

theorem ordered (cut : part.CutFrom graph) (wellFormed : graph.WellFormed)
    (partWellFormed : part.WellFormed) (isOrdered : graph.Ordered) : part.Ordered :=
  partWellFormed.ordered_iff.mpr ((wellFormed.ordered_iff.mp isOrdered).sublist cut.operations)

theorem exists_executable (cut : part.CutFrom graph) {node : OperationNode}
    (member : node ∈ part.executable) :
    ∃ whole ∈ graph.executable, whole.operation = node.operation := by
  obtain ⟨listed, plain⟩ := mem_executable.mp member
  obtain ⟨whole, wholeListed, same⟩ :=
    List.mem_map.mp (cut.operations.subset (List.mem_map_of_mem listed))
  exact ⟨whole, mem_executable.mpr ⟨wholeListed, by rw [same]; exact plain⟩, same⟩

theorem typed (cut : part.CutFrom graph) (wellFormed : graph.WellFormed)
    (partWellFormed : part.WellFormed) (allTyped : ∀ node ∈ graph.executable, graph.Typed node) :
    ∀ node ∈ part.executable, part.Typed node := by
  intro node member
  obtain ⟨whole, wholeMember, same⟩ := cut.exists_executable member
  obtain ⟨elementType, hasType, alike⟩ :=
    (wellFormed.typed_iff wholeMember).mp (allTyped whole wholeMember)
  rw [partWellFormed.typed_iff member, ← same]
  exact ⟨elementType, hasType, fun tensor present =>
    alike tensor (cut.tensors.subset present)⟩

theorem not_written (cut : part.CutFrom graph) (partWellFormed : part.WellFormed)
    {index : Nat} {tensor : Tensor} (found : part.tensorList[index]? = some tensor)
    (noProducer : part.producer? index = none) :
    ∀ operation ∈ graph.operationList, operation.writes tensor.id = false := by
  intro operation member
  by_contra writes
  rw [Bool.not_eq_false] at writes
  have kept := cut.writersKept operation member tensor (List.mem_of_getElem? found) writes
  obtain ⟨position, operationFound⟩ := List.mem_iff_getElem?.mp kept
  obtain ⟨node, nodeFound, same⟩ := WellFormed.operationList_getElem?.mp operationFound
  obtain ⟨tensorNode, tensorFound, sameTensor⟩ := WellFormed.tensorList_getElem?.mp found
  subst same sameTensor
  have produced := partWellFormed.producer?_eq_some_iff.mpr ⟨node, nodeFound,
    (partWellFormed.mem_outputs_iff (List.mem_of_getElem? nodeFound)).mpr
      ⟨tensorNode, tensorFound, writes⟩⟩
  rw [noProducer] at produced
  cases produced

end CutFrom

end Graph

end TensorGraph
