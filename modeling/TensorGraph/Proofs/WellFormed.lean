import TensorGraph.Proofs.Building
import TensorGraph.Proofs.Slots

/-!
What holds of every graph that was built: positions and names agree in both directions, no operation
feeds itself through others, and groups and slots match.
-/

namespace TensorGraph

open Operation (ids)

namespace Graph

def Feeds (graph : Graph) (producer consumer : Nat) : Prop :=
  ∃ node, graph.operations[consumer]? = some node ∧
    ∃ tensor ∈ node.inputs, graph.producer? tensor = some producer

def InGroup (graph : Graph) (header position : Nat) : Prop :=
  ∃ marker, graph.operationList[header]? = some marker ∧ marker.isGroup = true ∧
    header < position ∧ position ≤ header + marker.inputs.length

structure WellFormed (graph : Graph) : Prop where
  tensorCount : graph.tensors.length ≤ graph.capacity.tensors.toNat
  operationCount : graph.operations.length ≤ graph.capacity.operations.toNat
  tensorIds : (graph.tensorList.map Tensor.id).Nodup
  operationIds : (ids graph.operationList).Nodup
  tensorsValid : ∀ tensor ∈ graph.tensorList, tensor.validate = .ok ()
  operationsValid : ∀ operation ∈ graph.operationList, operation.validate = .ok ()
  /-- Inputs are, position by position, the tensors that the operation names. -/
  inputs : ∀ node ∈ graph.operations, node.operation.isGroup = false →
    Connections.Named graph.tensorList node.inputs node.operation.inputs
  outputs : ∀ node ∈ graph.operations, node.operation.isGroup = false →
    Connections.Named graph.tensorList node.outputs node.operation.outputs
  markers : ∀ node ∈ graph.operations, node.operation.isGroup = true →
    node.inputs = [] ∧ node.outputs = []
  producer : ∀ node ∈ graph.tensors, ∀ position, node.producer = some position ↔
    ∃ writer, graph.operationList[position]? = some writer ∧
      writer.writes node.tensor.id = true
  consumers : ∀ node ∈ graph.tensors, ∀ position, position ∈ node.consumers ↔
    ∃ reader, graph.operationList[position]? = some reader ∧ reader.reads node.tensor.id = true
  consumersIncreasing : ∀ node ∈ graph.tensors, node.consumers.Pairwise (· < ·)
  fanOut : ∀ node ∈ graph.tensors, node.consumers.length ≤ Limit.fanOut
  acyclic : ∀ position, ¬Relation.TransGen graph.Feeds position position
  /-- The members of a group stand right behind its marker, in declared order. -/
  members : ∀ header marker, graph.operationList[header]? = some marker →
    marker.isGroup = true →
    ids ((graph.operationList.drop (header + 1)).take marker.inputs.length) = marker.inputs
  slotCount : graph.slots.length = graph.operations.length
  headerSlots : ∀ header marker, graph.operationList[header]? = some marker →
    marker.isGroup = true →
    graph.slots[header]? = some (.header marker.inputs.length marker.isPinned) ∧
      ∀ offset < marker.inputs.length,
        graph.slots[header + 1 + offset]? = some (.member header marker.isPinned)
  memberSlots : ∀ position header pinned,
    graph.slots[position]? = some (.member header pinned) → graph.InGroup header position
  freeSlots : ∀ position operation, graph.operationList[position]? = some operation →
    operation.isGroup = false → (∀ header, ¬graph.InGroup header position) →
    ∃ rank, graph.slots[position]? = some (.free rank)

section Connected

variable {capacity : Capacity} {tensors : List Tensor} {operations : List Operation}
  {ranks : List Nat}

theorem exists_operation_of_mem {node : OperationNode}
    (member : node ∈ (connected capacity tensors operations ranks).operations) :
    ∃ operation ∈ operations, node = Connections.operationNode tensors operation := by
  obtain ⟨operation, listed, same⟩ := List.mem_map.mp member
  exact ⟨operation, listed, same.symm⟩

theorem exists_tensor_of_mem {node : TensorNode}
    (member : node ∈ (connected capacity tensors operations ranks).tensors) :
    ∃ tensor ∈ tensors, node = Connections.tensorNode operations tensor := by
  obtain ⟨tensor, listed, same⟩ := List.mem_map.mp member
  exact ⟨tensor, listed, same.symm⟩

theorem connected_inputs
    (sound : Connections.Sound (tensors.map fun tensor => tensor.id) operations) :
    ∀ node ∈ (connected capacity tensors operations ranks).operations,
      node.operation.isGroup = false →
      Connections.Named tensors node.inputs node.operation.inputs := by
  intro node member plain
  obtain ⟨operation, listed, same⟩ := exists_operation_of_mem member
  subst same
  have notGroup : operation.isGroup = false := plain
  simp only [Connections.operationNode, notGroup]
  exact Connections.locate_named fun name here =>
    sound.inputsKnown operation listed name (Connections.reads_iff.mpr ⟨notGroup, here⟩)

theorem connected_outputs
    (sound : Connections.Sound (tensors.map fun tensor => tensor.id) operations) :
    ∀ node ∈ (connected capacity tensors operations ranks).operations,
      node.operation.isGroup = false →
      Connections.Named tensors node.outputs node.operation.outputs := by
  intro node member plain
  obtain ⟨operation, listed, same⟩ := exists_operation_of_mem member
  subst same
  have notGroup : operation.isGroup = false := plain
  simp only [Connections.operationNode, notGroup]
  exact Connections.locate_named fun name here =>
    sound.outputsKnown operation listed name (Connections.writes_iff.mpr ⟨notGroup, here⟩)

theorem connected_markers :
    ∀ node ∈ (connected capacity tensors operations ranks).operations,
      node.operation.isGroup = true → node.inputs = [] ∧ node.outputs = [] := by
  intro node member isGroup
  obtain ⟨operation, _, same⟩ := exists_operation_of_mem member
  subst same
  have isMarker : operation.isGroup = true := isGroup
  simp [Connections.operationNode, isMarker]

theorem connected_producer
    (sound : Connections.Sound (tensors.map fun tensor => tensor.id) operations) :
    ∀ node ∈ (connected capacity tensors operations ranks).tensors, ∀ position,
      node.producer = some position ↔
        ∃ writer, operations[position]? = some writer ∧ writer.writes node.tensor.id = true := by
  intro node member position
  obtain ⟨tensor, _, same⟩ := exists_tensor_of_mem member
  subst same
  exact Connections.head?_writers_eq_some_iff sound

theorem connected_consumers :
    ∀ node ∈ (connected capacity tensors operations ranks).tensors,
      node.consumers = Connections.readers operations node.tensor.id := by
  intro node member
  obtain ⟨tensor, _, same⟩ := exists_tensor_of_mem member
  subst same
  rfl

theorem lists_of_feeds {producer consumer : Nat}
    (feeds : (connected capacity tensors operations ranks).Feeds producer consumer) :
    (connectedSources tensors operations).Lists consumer producer := by
  obtain ⟨node, found, tensor, member, written⟩ := feeds
  refine ⟨node.inputs.map fun input =>
    ((tensors.map (Connections.tensorNode operations))[input]?).bind TensorNode.producer, ?_,
    List.mem_map.mpr ⟨tensor, member, written⟩⟩
  rw [connectedSources, sources, List.getElem?_map]
  exact congrArg (Option.map _) found

theorem connected_acyclic {known : List Ranking}
    (ranked : (rankings (connectedSources tensors operations)).mapM id = some known)
    (position : Nat) :
    ¬Relation.TransGen (connected capacity tensors operations ranks).Feeds position position := by
  intro circle
  have allRanked : ∀ node < (connectedSources tensors operations).length,
      ((rankings (connectedSources tensors operations)).get? node).isSome := by
    intro node bound
    rw [← length_rankings] at bound
    obtain ⟨ranking, _, found⟩ :=
      exists_of_forall₂ (mapM_eq_some_iff.mp ranked) (List.getElem_mem bound)
    rw [Rankings.get?_eq_getElem bound]
    exact Option.isSome_iff_exists.mpr ⟨ranking, found⟩
  refine acyclic_of_ranked allRanked position (Relation.transGen_swap.mp ?_)
  exact Relation.TransGen.mono (fun _ _ feeds => lists_of_feeds feeds) position position circle

theorem length_ranks {known : List Ranking}
    (ranked : (rankings (connectedSources tensors operations)).mapM id = some known) :
    (known.map Ranking.rank).length = operations.length := by
  rw [List.length_map, ← (mapM_eq_some_iff.mp ranked).length_eq, length_rankings,
    length_connectedSources]

end Connected

theorem arranged_members {operations : List Operation} (arranged : Grouping.Arranged operations)
    {header : Nat} {marker : Operation} (found : operations[header]? = some marker)
    (isGroup : marker.isGroup = true) :
    ids ((operations.drop (header + 1)).take marker.inputs.length) = marker.inputs := by
  obtain ⟨bound, here⟩ := List.getElem?_eq_some_iff.mp found
  have split : operations = operations.take header ++ marker :: operations.drop (header + 1) := by
    rw [← here, List.getElem_cons_drop, List.take_append_drop]
  obtain ⟨members, rest, follow, listed, _⟩ := arranged.members_follow split isGroup
  have counted : marker.inputs.length = members.length := by rw [← listed, ids, List.length_map]
  rw [follow, counted, List.take_left, listed]

theorem connected_wellFormed {capacity : Capacity} {tensors : List Tensor}
    {operations : List Operation} {known : List Ranking}
    (acceptable : Acceptable tensors operations capacity)
    (arranged : Grouping.Arranged operations)
    (checked : Connections.check tensors operations = .ok ())
    (ranked : (rankings (connectedSources tensors operations)).mapM id = some known) :
    (connected capacity tensors operations (known.map Ranking.rank)).WellFormed := by
  have sound := (Connections.check_ok_iff tensors operations).mp checked
  have fits := slotsFrom_fits arranged 0 0 false (length_ranks ranked)
  constructor
  case tensorCount => simpa [connected] using acceptable.tensorCount
  case operationCount => simpa [connected] using acceptable.operationCount
  case tensorIds => simpa using acceptable.tensorIds
  case operationIds => simpa using acceptable.operationIds
  case tensorsValid => simpa using acceptable.tensorsValid
  case operationsValid => simpa using acceptable.operationsValid
  case inputs => simpa using connected_inputs sound
  case outputs => simpa using connected_outputs sound
  case markers => exact connected_markers
  case producer => simpa using connected_producer sound
  case consumers =>
    intro node member position
    rw [connected_consumers node member, connected_operationList]
    exact Connections.mem_positions
  case consumersIncreasing =>
    intro node member
    rw [connected_consumers node member]
    exact Connections.positions_pairwise _ _
  case fanOut =>
    intro node member
    rw [connected_consumers node member]
    exact sound.fanOut _
  case acyclic => exact connected_acyclic ranked
  case members =>
    rw [connected_operationList]
    exact fun _ _ found isGroup => arranged_members arranged found isGroup
  case slotCount =>
    rw [connected, List.length_map]
    exact fits.length_eq
  case headerSlots =>
    rw [connected_operationList]
    intro header marker found isGroup
    obtain ⟨here, behind⟩ := fits.header found isGroup
    rw [Nat.zero_add] at behind
    exact ⟨here, behind⟩
  case memberSlots =>
    intro position header pinned slot
    obtain ⟨offset, marker, same, listed, isMarker, before, within⟩ := fits.member slot
    rw [Nat.zero_add] at same
    subst same
    exact ⟨marker, by rwa [connected_operationList], isMarker, before, within⟩
  case freeSlots =>
    rw [connected_operationList]
    intro position operation found plain outside
    rcases fits.plain found plain with ⟨rank, _, slot⟩ | inside
    · exact ⟨rank, slot⟩
    · obtain ⟨header, marker, listed, isGroup, before, within, _⟩ := inside
      refine absurd ⟨marker, ?_, isGroup, before, within⟩ (outside header)
      rw [connected_operationList]
      exact listed

/-- What is built is the arrangement of the given operations, connected with the given tensors. -/
theorem exists_arranged_of_build {tensors : List Tensor} {operations : List Operation}
    {capacity : Capacity} {graph : Graph} (built : build tensors operations capacity = .ok graph) :
    ∃ arranged ranks, arrangeGroups operations = .ok arranged ∧ Grouping.Arranged arranged ∧
      arranged.Perm operations ∧ graph = connected capacity tensors arranged ranks ∧
      graph.WellFormed := by
  obtain ⟨acceptable, arranged, grouped, checked, known, ranked, same⟩ := build_ok_iff.mp built
  obtain ⟨isArranged, rearranged⟩ := arrangeGroups_ok acceptable.operationIds grouped
  refine ⟨arranged, known.map Ranking.rank, grouped, isArranged, rearranged, same, ?_⟩
  rw [same]
  exact connected_wellFormed (acceptable.perm rearranged) isArranged checked ranked

/-- A graph is what its own descriptors build. -/
theorem build_descriptors {tensors : List Tensor} {operations : List Operation}
    {capacity : Capacity} {graph : Graph} (built : build tensors operations capacity = .ok graph) :
    build graph.tensorList graph.operationList graph.capacity = .ok graph := by
  obtain ⟨acceptable, arranged, grouped, checked, known, ranked, same⟩ := build_ok_iff.mp built
  obtain ⟨isArranged, rearranged⟩ := arrangeGroups_ok acceptable.operationIds grouped
  have accepted := acceptable.perm rearranged
  rw [same, connected_tensorList, connected_operationList, build_ok_iff]
  exact ⟨accepted, arranged, arrangeGroups_of_arranged isArranged accepted.operationIds, checked,
    known, ranked, rfl⟩

theorem exists_connected_of_arranged {tensors : List Tensor} {operations : List Operation}
    {capacity : Capacity} {graph : Graph} (built : build tensors operations capacity = .ok graph)
    (isArranged : Grouping.Arranged operations) :
    ∃ ranks, graph = connected capacity tensors operations ranks := by
  have unique := (build_ok_iff.mp built).1.operationIds
  obtain ⟨arranged, ranks, grouped, _, _, same, _⟩ := exists_arranged_of_build built
  rw [arrangeGroups_of_arranged isArranged unique] at grouped
  cases grouped
  exact ⟨ranks, same⟩

theorem lists_of_arranged {tensors : List Tensor} {operations : List Operation}
    {capacity : Capacity} {graph : Graph} (built : build tensors operations capacity = .ok graph)
    (isArranged : Grouping.Arranged operations) :
    graph.tensorList = tensors ∧ graph.operationList = operations := by
  obtain ⟨ranks, rfl⟩ := exists_connected_of_arranged built isArranged
  exact ⟨connected_tensorList .., connected_operationList ..⟩

theorem arranged_of_build {tensors : List Tensor} {operations : List Operation}
    {capacity : Capacity} {graph : Graph} (built : build tensors operations capacity = .ok graph) :
    Grouping.Arranged graph.operationList := by
  obtain ⟨_, _, _, isArranged, _, same, _⟩ := exists_arranged_of_build built
  rwa [same, connected_operationList]

theorem operationNode_operation {tensors : List Tensor} {operations : List Operation}
    {capacity : Capacity} {graph : Graph} (built : build tensors operations capacity = .ok graph)
    {node : OperationNode} (member : node ∈ graph.operations) :
    Connections.operationNode graph.tensorList node.operation = node := by
  obtain ⟨arranged, ranks, _, _, _, same, _⟩ := exists_arranged_of_build built
  rw [same] at member ⊢
  obtain ⟨operation, _, rfl⟩ := exists_operation_of_mem member
  rw [connected_tensorList]
  rfl

theorem wellFormed_of_build {tensors : List Tensor} {operations : List Operation}
    {capacity : Capacity} {graph : Graph} (built : build tensors operations capacity = .ok graph) :
    graph.WellFormed := by
  obtain ⟨_, _, _, _, _, _, wellFormed⟩ := exists_arranged_of_build built
  exact wellFormed

namespace WellFormed

variable {graph : Graph}

theorem operationList_getElem? {position : Nat} {operation : Operation} :
    graph.operationList[position]? = some operation ↔
      ∃ node, graph.operations[position]? = some node ∧ node.operation = operation := by
  rw [operationList, List.getElem?_map, Option.map_eq_some_iff]

theorem tensorList_getElem? {position : Nat} {tensor : Tensor} :
    graph.tensorList[position]? = some tensor ↔
      ∃ node, graph.tensors[position]? = some node ∧ node.tensor = tensor := by
  rw [tensorList, List.getElem?_map, Option.map_eq_some_iff]

theorem mem_inputs_iff (wellFormed : graph.WellFormed) {node : OperationNode}
    (member : node ∈ graph.operations) {tensor : Nat} :
    tensor ∈ node.inputs ↔ ∃ tensorNode, graph.tensors[tensor]? = some tensorNode ∧
      node.operation.reads tensorNode.tensor.id = true := by
  cases isGroup : node.operation.isGroup with
  | true => simp [(wellFormed.markers node member isGroup).1, Operation.reads, isGroup]
  | false =>
      rw [(wellFormed.inputs node member isGroup).mem_iff wellFormed.tensorIds]
      simp [tensorList_getElem?, Operation.reads, isGroup]

theorem mem_outputs_iff (wellFormed : graph.WellFormed) {node : OperationNode}
    (member : node ∈ graph.operations) {tensor : Nat} :
    tensor ∈ node.outputs ↔ ∃ tensorNode, graph.tensors[tensor]? = some tensorNode ∧
      node.operation.writes tensorNode.tensor.id = true := by
  cases isGroup : node.operation.isGroup with
  | true => simp [(wellFormed.markers node member isGroup).2, Operation.writes, isGroup]
  | false =>
      rw [(wellFormed.outputs node member isGroup).mem_iff wellFormed.tensorIds]
      simp [tensorList_getElem?, Operation.writes, isGroup]

theorem producer?_iff_writes (wellFormed : graph.WellFormed) {tensor position : Nat}
    {tensorNode : TensorNode} (found : graph.tensors[tensor]? = some tensorNode) :
    graph.producer? tensor = some position ↔
      ∃ writer, graph.operationList[position]? = some writer ∧
        writer.writes tensorNode.tensor.id = true := by
  simp only [producer?, found, Option.bind_eq_bind, Option.bind_some]
  exact wellFormed.producer tensorNode (List.mem_of_getElem? found) position

theorem producer?_eq_some_iff (wellFormed : graph.WellFormed) {tensor position : Nat} :
    graph.producer? tensor = some position ↔
      ∃ node, graph.operations[position]? = some node ∧ tensor ∈ node.outputs := by
  simp only [producer?, Option.bind_eq_bind, Option.bind_eq_some_iff]
  constructor
  · rintro ⟨tensorNode, found, produced⟩
    obtain ⟨writer, listed, writes⟩ :=
      (wellFormed.producer tensorNode (List.mem_of_getElem? found) position).mp produced
    obtain ⟨node, nodeFound, same⟩ := operationList_getElem?.mp listed
    refine ⟨node, nodeFound, ?_⟩
    rw [wellFormed.mem_outputs_iff (List.mem_of_getElem? nodeFound)]
    exact ⟨tensorNode, found, by rwa [same]⟩
  · rintro ⟨node, nodeFound, member⟩
    obtain ⟨tensorNode, found, writes⟩ :=
      (wellFormed.mem_outputs_iff (List.mem_of_getElem? nodeFound)).mp member
    refine ⟨tensorNode, found, ?_⟩
    rw [wellFormed.producer tensorNode (List.mem_of_getElem? found)]
    exact ⟨node.operation, operationList_getElem?.mpr ⟨node, nodeFound, rfl⟩, writes⟩

theorem feeds_iff (wellFormed : graph.WellFormed) {producer consumer : Nat} :
    graph.Feeds producer consumer ↔ ∃ writer reader name,
      graph.operationList[producer]? = some writer ∧
        graph.operationList[consumer]? = some reader ∧
        writer.writes name = true ∧ reader.reads name = true := by
  constructor
  · rintro ⟨node, found, tensor, isInput, produced⟩
    obtain ⟨writer, writerFound, isOutput⟩ := wellFormed.producer?_eq_some_iff.mp produced
    obtain ⟨tensorNode, tensorFound, reads⟩ :=
      (wellFormed.mem_inputs_iff (List.mem_of_getElem? found)).mp isInput
    obtain ⟨other, otherFound, writes⟩ :=
      (wellFormed.mem_outputs_iff (List.mem_of_getElem? writerFound)).mp isOutput
    rw [tensorFound] at otherFound
    cases otherFound
    exact ⟨writer.operation, node.operation, tensorNode.tensor.id,
      operationList_getElem?.mpr ⟨writer, writerFound, rfl⟩,
      operationList_getElem?.mpr ⟨node, found, rfl⟩, writes, reads⟩
  · rintro ⟨_, _, name, writerListed, readerListed, writes, reads⟩
    obtain ⟨writer, writerFound, rfl⟩ := operationList_getElem?.mp writerListed
    obtain ⟨reader, readerFound, rfl⟩ := operationList_getElem?.mp readerListed
    have writerMember := List.mem_of_getElem? writerFound
    obtain ⟨plain, isOutput⟩ := Connections.writes_iff.mp writes
    obtain ⟨tensor, _, descriptor, tensorFound, same⟩ :=
      exists_of_forall₂ (wellFormed.outputs _ writerMember plain).flip isOutput
    obtain ⟨tensorNode, nodeFound, sameNode⟩ := tensorList_getElem?.mp tensorFound
    subst sameNode same
    have isInput := (wellFormed.mem_inputs_iff (List.mem_of_getElem? readerFound)).mpr
      ⟨tensorNode, nodeFound, reads⟩
    refine ⟨reader, readerFound, tensor, isInput, wellFormed.producer?_eq_some_iff.mpr ?_⟩
    exact ⟨writer, writerFound,
      (wellFormed.mem_outputs_iff writerMember).mpr ⟨tensorNode, nodeFound, writes⟩⟩

theorem mem_consumers_iff (wellFormed : graph.WellFormed) {tensor position : Nat}
    {tensorNode : TensorNode} (found : graph.tensors[tensor]? = some tensorNode) :
    position ∈ tensorNode.consumers ↔
      ∃ node, graph.operations[position]? = some node ∧ tensor ∈ node.inputs := by
  rw [wellFormed.consumers tensorNode (List.mem_of_getElem? found)]
  constructor
  · rintro ⟨reader, listed, reads⟩
    obtain ⟨node, nodeFound, same⟩ := operationList_getElem?.mp listed
    refine ⟨node, nodeFound, ?_⟩
    rw [wellFormed.mem_inputs_iff (List.mem_of_getElem? nodeFound)]
    exact ⟨tensorNode, found, by rwa [same]⟩
  · rintro ⟨node, nodeFound, member⟩
    obtain ⟨other, otherFound, reads⟩ :=
      (wellFormed.mem_inputs_iff (List.mem_of_getElem? nodeFound)).mp member
    rw [found] at otherFound
    cases otherFound
    exact ⟨node.operation, operationList_getElem?.mpr ⟨node, nodeFound, rfl⟩, reads⟩

end WellFormed

theorem operationId_eq {graph : Graph} {position : Nat} {operation : Operation}
    (found : graph.operationList[position]? = some operation) :
    graph.operationId position = operation.id := by
  obtain ⟨node, nodeFound, same⟩ := WellFormed.operationList_getElem?.mp found
  rw [operationId, nodeFound, ← same]
  rfl

end Graph

end TensorGraph
