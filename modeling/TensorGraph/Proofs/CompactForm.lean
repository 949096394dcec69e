import TensorGraph.Proofs.Acceptance
import TensorGraph.Proofs.Extraction
import TensorGraph.Proofs.Obtained
import TensorGraph.Proofs.Tiling

/-!
What compaction asks of a graph and what it keeps. It succeeds where producers stand before their
consumers and operations share their element type with all that they touch. The compact graph has the
tensors and the computing operations of the graph, writes each tensor once and before it is read, and
announces the sizes of its own arrays.
-/

namespace TensorGraph

def IsLargest (numbers : List Nat) (number : Nat) : Prop :=
  (∀ other ∈ numbers, other ≤ number) ∧ (number ∈ numbers ∨ numbers = [] ∧ number = 0)

theorem isLargest_greatest (numbers : List Nat) : IsLargest numbers (greatest numbers) := by
  rw [greatest, List.foldl_max, Nat.zero_max]
  cases largest : numbers.max? with
  | none =>
      rw [List.max?_eq_none_iff] at largest
      exact ⟨by simp [largest], Or.inr ⟨largest, rfl⟩⟩
  | some number =>
      obtain ⟨listed, most⟩ := List.max?_eq_some_iff.mp largest
      exact ⟨most, Or.inl listed⟩

def Operation.Forward (operations : List Operation) : Prop :=
  ∀ (producer consumer : Nat) (writer reader : Operation), operations[producer]? = some writer →
    operations[consumer]? = some reader → writer.Feeds reader → producer < consumer

structure CompactOperation.Renders (tensors : List Tensor) (node : OperationNode)
    (operation : CompactOperation) : Prop where
  id : operation.id = node.operation.id
  kind : operation.kind = node.operation.kind
  elementType : node.operation.elementType = some operation.elementType
  parameters : operation.parameters = node.operation.parameters
  inputs : operation.inputs = node.inputs
  outputs : operation.outputs = node.outputs
  inputsNamed : Connections.Named tensors operation.inputs node.operation.inputs
  outputsNamed : Connections.Named tensors operation.outputs node.operation.outputs

/-- Operations that can be run in their order: each tensor is written once, and whatever is read was
written before or is never written. -/
structure SingleAssignment (tensors : List Tensor) (operations : List CompactOperation) : Prop where
  inRange : ∀ operation ∈ operations, ∀ index ∈ operation.inputs ++ operation.outputs,
    index < tensors.length
  outputsOnce : ∀ operation ∈ operations, operation.outputs.Nodup
  writtenOnce : operations.Pairwise fun first second => List.Disjoint first.outputs second.outputs
  notRead : ∀ operation ∈ operations, List.Disjoint operation.inputs operation.outputs
  readBehind : ∀ (position : Nat) (reader : CompactOperation),
    operations[position]? = some reader → ∀ index ∈ reader.inputs,
    (∀ other ∈ operations, index ∉ other.outputs) ∨
      ∃ earlier < position, ∃ writer : CompactOperation,
        operations[earlier]? = some writer ∧ index ∈ writer.outputs

theorem Sequential.singleAssignment {tensors : List Tensor} {operations : List CompactOperation}
    (sequential : Sequential tensors operations) : SingleAssignment tensors operations where
  inRange operation member index operand := by
    obtain ⟨_, found, _⟩ := (sequential.sound operation member).typed index operand
    exact (List.getElem?_eq_some_iff.mp found).1
  outputsOnce operation member := (sequential.sound operation member).outputsOnce
  writtenOnce := sequential.order.imp fun apart index first second => (apart index second).2 first
  notRead operation member := (sequential.sound operation member).notRead
  readBehind position reader found index read := by
    by_cases written : ∃ other ∈ operations, index ∈ other.outputs
    · obtain ⟨writer, member, writes⟩ := written
      obtain ⟨earlier, writerFound⟩ := List.mem_iff_getElem?.mp member
      refine Or.inr ⟨earlier, ?_, writer, writerFound, writes⟩
      obtain ⟨bound, here⟩ := List.getElem?_eq_some_iff.mp found
      obtain ⟨writerBound, there⟩ := List.getElem?_eq_some_iff.mp writerFound
      -- Neither the reader itself nor an operation behind it writes what it reads.
      rcases Nat.lt_trichotomy earlier position with before | same | behind
      · exact before
      · subst same
        rw [found] at writerFound
        cases writerFound
        exact absurd writes ((sequential.sound reader member).notRead index read)
      · have apart := List.pairwise_iff_getElem.mp sequential.order position earlier bound
          writerBound behind index (by rwa [there])
        rw [here] at apart
        exact absurd read apart.1
    · exact Or.inl fun other member writes => written ⟨other, member, writes⟩

/-- Tensors of one type, counted one by one, and their elements together as far as a machine word
counts. -/
def tally (tensors : List Tensor) (elementType : ElementType) : ElementUsage where
  elementType
  tensors := tensors.countP fun tensor => tensor.elementType = elementType
  elements := min (elementsOf tensors elementType) (2 ^ 64 - 1)

theorem usageOf_eq_tally (tensors : List Tensor) (elementType : ElementType) :
    usageOf tensors elementType = tally tensors elementType := by
  calc usageOf tensors elementType
    _ = ⟨elementType, (tensors.filter fun tensor => tensor.elementType = elementType).length,
          (usageOf tensors elementType).elements⟩ := rfl
    _ = tally tensors elementType := by
        rw [elements_usageOf, ← List.countP_eq_length_filter]
        rfl

structure Metadata.Measures (metadata : Metadata) (tensors : List Tensor)
    (operations : List CompactOperation) : Prop where
  operationCount : metadata.operations = operations.length
  tensorCount : metadata.tensors = tensors.length
  maxInputs : IsLargest (operations.map fun operation => operation.inputs.length)
    metadata.maxInputs
  maxOutputs : IsLargest (operations.map fun operation => operation.outputs.length)
    metadata.maxOutputs
  /-- An operation that reads a tensor twice counts once. -/
  maxFanOut : IsLargest ((List.range tensors.length).map fun index =>
    operations.countP fun operation => index ∈ operation.inputs) metadata.maxFanOut
  usages : metadata.usages = ElementType.all.map (tally tensors)
  usage : ∀ elementType, metadata.usage elementType = tally tensors elementType

namespace Graph

structure Faithful (graph : Graph) (compactGraph : CompactGraph) : Prop where
  tensors : compactGraph.tensors = graph.tensorList
  operations : List.Forall₂ (CompactOperation.Renders graph.tensorList)
    (graph.operations.filter fun node => !node.operation.isGroup) compactGraph.operations
  runnable : SingleAssignment compactGraph.tensors compactGraph.operations
  measured : compactGraph.metadata.Measures compactGraph.tensors compactGraph.operations

section Failure

variable {graph : Graph}

theorem WellFormed.ordered_iff_forward (wellFormed : graph.WellFormed) :
    graph.Ordered ↔ Operation.Forward graph.operationList := by
  rw [ordered_iff_feeds]
  constructor
  · rintro ordered producer consumer writer reader writerFound readerFound ⟨name, writes, reads⟩
    exact ordered producer consumer
      (wellFormed.feeds_iff.mpr ⟨writer, reader, name, writerFound, readerFound, writes, reads⟩)
  · intro forward producer consumer feeds
    obtain ⟨writer, reader, name, writerFound, readerFound, writes, reads⟩ :=
      wellFormed.feeds_iff.mp feeds
    exact forward producer consumer writer reader writerFound readerFound ⟨name, writes, reads⟩

theorem feeds_of_violation {violation : OrderViolation} (listed : violation ∈ graph.orderViolations) :
    graph.Feeds violation.producer violation.consumer ∧
      violation.consumer ≤ violation.producer := by
  rw [orderViolations, List.mem_flatMap] at listed
  obtain ⟨⟨node, consumer⟩, found, violated⟩ := listed
  rw [violationsAt, List.mem_filterMap] at violated
  obtain ⟨tensor, read, violated⟩ := violated
  obtain ⟨rfl, _, produced, behind⟩ := violation?_eq_some_iff.mp violated
  exact ⟨⟨node, List.mem_zipIdx_iff_getElem?.mp found, tensor, read, produced⟩, behind⟩

theorem WellFormed.compact_of_not_forward (wellFormed : graph.WellFormed)
    (disordered : ¬Operation.Forward graph.operationList) :
    ∃ (producer consumer : Nat) (writer reader : Operation),
      graph.operationList[producer]? = some writer ∧
      graph.operationList[consumer]? = some reader ∧ writer.Feeds reader ∧ consumer ≤ producer ∧
      graph.compact = .error (.scheduleViolation writer.id reader.id) := by
  rw [← wellFormed.ordered_iff_forward, ← orderViolations_eq_nil_iff] at disordered
  obtain ⟨first, rest, violations⟩ := List.exists_cons_of_ne_nil disordered
  obtain ⟨feeds, behind⟩ := feeds_of_violation (violations ▸ List.mem_cons_self)
  obtain ⟨writer, reader, name, writerFound, readerFound, writes, reads⟩ :=
    wellFormed.feeds_iff.mp feeds
  refine ⟨_, _, writer, reader, writerFound, readerFound, ⟨name, writes, reads⟩, behind, ?_⟩
  rw [compact, checkOrder_eq, violations, ← operationId_eq writerFound,
    ← operationId_eq readerFound]
  rfl

theorem exists_of_typeMismatch {expected actual : ElementType} {tensors : List Nat}
    (mismatch : graph.typeMismatch expected tensors = some actual) :
    ∃ index ∈ tensors, ∃ tensor, graph.tensorList[index]? = some tensor ∧
      tensor.elementType = actual ∧ actual ≠ expected := by
  have listed := List.mem_of_find?_eq_some mismatch
  simp only [List.mem_filterMap, Option.map_eq_some_iff] at listed
  obtain ⟨index, operand, tensorNode, found, same⟩ := listed
  refine ⟨index, operand, tensorNode.tensor, ?_, same, by simpa using List.find?_some mismatch⟩
  exact WellFormed.tensorList_getElem?.mpr ⟨tensorNode, found, rfl⟩

theorem WellFormed.mismatch_of_compactOperation (wellFormed : graph.WellFormed)
    {node : OperationNode} (member : node ∈ graph.executable) {failure : GraphError}
    (failed : graph.compactOperation node = .error failure) :
    ∃ tensor ∈ graph.tensorList,
      tensor.id ∈ node.operation.inputs ++ node.operation.outputs ∧
      ∃ expected, node.operation.elementType = some expected ∧ tensor.elementType ≠ expected ∧
        failure = .elementTypeMismatch expected tensor.elementType := by
  obtain ⟨listed, plain⟩ := mem_executable.mp member
  obtain ⟨expected, hasType⟩ := (wellFormed.computes member).typed
  simp only [compactOperation, hasType] at failed
  cases mismatch : graph.typeMismatch expected (node.inputs ++ node.outputs) with
  | none => simp [mismatch] at failed
  | some actual =>
      simp only [mismatch, Except.error.injEq] at failed
      obtain ⟨index, operand, tensor, found, same, different⟩ := exists_of_typeMismatch mismatch
      subst same
      refine ⟨tensor, List.mem_of_getElem? found, ?_, expected, hasType, different, failed.symm⟩
      rw [List.mem_append,
        (wellFormed.inputs node listed plain).mem_iff wellFormed.tensorIds,
        (wellFormed.outputs node listed plain).mem_iff wellFormed.tensorIds] at operand
      simp only [found, Option.some.injEq, exists_eq_left'] at operand
      exact List.mem_append.mpr operand

theorem WellFormed.compact_of_error (wellFormed : graph.WellFormed)
    (forward : Operation.Forward graph.operationList) {failure : GraphError}
    (failed : graph.compact = .error failure) :
    ∃ operation ∈ graph.operationList, operation.isGroup = false ∧
      ∃ tensor ∈ graph.tensorList, tensor.id ∈ operation.inputs ++ operation.outputs ∧
      ∃ expected, operation.elementType = some expected ∧ tensor.elementType ≠ expected ∧
        failure = .elementTypeMismatch expected tensor.elementType := by
  rw [← wellFormed.ordered_iff_forward, ← checkOrder_ok_iff] at forward
  rw [compact, bind_eq_error_iff, forward] at failed
  rcases failed with wrong | ⟨_, _, failed⟩
  · cases wrong
  rcases bind_eq_error_iff.mp failed with failed | ⟨_, _, wrong⟩
  · obtain ⟨node, member, failedHere⟩ := exists_of_mapM_error failed
    obtain ⟨listed, plain⟩ := mem_executable.mp member
    exact ⟨node.operation, List.mem_map_of_mem listed, plain,
      wellFormed.mismatch_of_compactOperation member failedHere⟩
  · cases wrong

end Failure

section Success

variable {graph : Graph}

theorem WellFormed.renders_compactNode (wellFormed : graph.WellFormed) {node : OperationNode}
    (member : node ∈ graph.executable) :
    CompactOperation.Renders graph.tensorList node (compactNode node) := by
  obtain ⟨listed, plain⟩ := mem_executable.mp member
  obtain ⟨elementType, hasType⟩ := (wellFormed.computes member).typed
  exact {
    id := rfl
    kind := rfl
    elementType := by rw [compactNode, compacted, hasType]; rfl
    parameters := rfl
    inputs := rfl
    outputs := rfl
    inputsNamed := wellFormed.inputs node listed plain
    outputsNamed := wellFormed.outputs node listed plain }

theorem length_consumers {tensors : List Tensor} {operations : List Operation}
    {capacity : Capacity} (built : build tensors operations capacity = .ok graph) {index : Nat}
    {tensorNode : TensorNode} (found : graph.tensors[index]? = some tensorNode) :
    tensorNode.consumers.length =
      (graph.executable.map compactNode).countP fun operation => index ∈ operation.inputs := by
  have wellFormed := wellFormed_of_build built
  obtain ⟨arranged, ranks, _, _, _, same, _⟩ := exists_arranged_of_build built
  have readers : tensorNode.consumers =
      Connections.readers graph.operationList tensorNode.tensor.id := by
    have member := List.mem_of_getElem? found
    rw [same] at member ⊢
    rw [connected_consumers tensorNode member, connected_operationList]
  rw [readers, Connections.readers, Connections.length_positions, operationList, List.countP_map,
    List.countP_map, executable, List.countP_filter]
  refine List.countP_congr fun node listed => ?_
  have reads : index ∈ node.inputs ↔ node.operation.reads tensorNode.tensor.id = true := by
    rw [wellFormed.mem_inputs_iff listed, found]
    simp only [Option.some.injEq, exists_eq_left']
  cases isGroup : node.operation.isGroup with
  | true => simp [Operation.reads, isGroup]
  | false => simp [compactNode, compacted, reads]

theorem measures_metadata {tensors : List Tensor} {operations : List Operation}
    {capacity : Capacity} (built : build tensors operations capacity = .ok graph) :
    graph.metadata.Measures graph.tensorList (graph.executable.map compactNode) where
  operationCount := (List.length_map _).symm
  tensorCount := (List.length_map _).symm
  maxInputs := by
    rw [List.map_map]
    exact isLargest_greatest _
  maxOutputs := by
    rw [List.map_map]
    exact isLargest_greatest _
  maxFanOut := by
    have fanOut : graph.tensors.map (fun node => node.consumers.length) =
        (List.range graph.tensorList.length).map fun index =>
          (graph.executable.map compactNode).countP fun operation => index ∈ operation.inputs := by
      refine List.ext_getElem (by simp [tensorList]) fun index bound _ => ?_
      rw [List.length_map] at bound
      simp only [List.getElem_map, List.getElem_range]
      exact length_consumers built (List.getElem?_eq_getElem bound)
    rw [← fanOut]
    exact isLargest_greatest _
  usages := List.map_congr_left fun elementType _ => usageOf_eq_tally graph.tensorList elementType
  usage elementType := by rw [graph.usage_metadata, usageOf_eq_tally]

theorem faithful_of_compact {tensors : List Tensor} {operations : List Operation}
    {capacity : Capacity} (built : build tensors operations capacity = .ok graph)
    {compactGraph : CompactGraph} (compacted : graph.compact = .ok compactGraph) :
    graph.Faithful compactGraph := by
  have wellFormed := wellFormed_of_build built
  obtain ⟨ordered, typed, same⟩ := compact_ok_iff.mp compacted
  subst same
  exact {
    tensors := rfl
    operations := by
      rw [List.forall₂_map_right_iff, ← executable, List.forall₂_same]
      exact fun node member => wellFormed.renders_compactNode member
    runnable := (wellFormed.sequential ordered typed).singleAssignment
    measured := measures_metadata built }

end Success

/-- Compaction accepts exactly the graphs in order whose operations have the element type of all that
they touch, looks at the order first, and keeps everything but the markers. -/
theorem compact_faithful {graph : Graph} (obtained : graph.Obtained) :
    let forward := Operation.Forward graph.operationList
    let typed := ∀ operation ∈ graph.operationList, operation.isGroup = false →
      TypedBy graph.tensorList operation
    ((∃ compactGraph, graph.compact = .ok compactGraph) ↔ forward ∧ typed) ∧
      (¬forward → ∃ (producer consumer : Nat) (writer reader : Operation),
        graph.operationList[producer]? = some writer ∧
        graph.operationList[consumer]? = some reader ∧ writer.Feeds reader ∧ consumer ≤ producer ∧
        graph.compact = .error (.scheduleViolation writer.id reader.id)) ∧
      (forward → ¬typed → ∃ operation ∈ graph.operationList, operation.isGroup = false ∧
        ∃ tensor ∈ graph.tensorList, tensor.id ∈ operation.inputs ++ operation.outputs ∧
        ∃ expected, operation.elementType = some expected ∧ tensor.elementType ≠ expected ∧
          graph.compact = .error (.elementTypeMismatch expected tensor.elementType)) ∧
      ∀ compactGraph, graph.compact = .ok compactGraph → graph.Faithful compactGraph := by
  intro forward typed
  obtain ⟨_, _, _, built⟩ := obtained.exists_build
  have wellFormed := wellFormed_of_build built
  have allTyped : (∀ node ∈ graph.executable, graph.Typed node) ↔ typed := by
    constructor
    · intro nodesTyped operation listed plain
      obtain ⟨node, nodeListed, same⟩ := List.mem_map.mp listed
      subst same
      have member := mem_executable.mpr ⟨nodeListed, plain⟩
      exact (wellFormed.typed_iff member).mp (nodesTyped node member)
    · intro operationsTyped node member
      obtain ⟨listed, plain⟩ := mem_executable.mp member
      exact (wellFormed.typed_iff member).mpr
        (operationsTyped node.operation (List.mem_map_of_mem listed) plain)
  have accepted : (∃ compactGraph, graph.compact = .ok compactGraph) ↔ forward ∧ typed := by
    simp only [compact_ok_iff, exists_and_left, exists_eq, and_true, allTyped,
      wellFormed.ordered_iff_forward]
    exact Iff.rfl
  refine ⟨accepted, wellFormed.compact_of_not_forward, ?_, fun _ => faithful_of_compact built⟩
  intro inOrder untyped
  cases result : graph.compact with
  | ok compactGraph => exact absurd (accepted.mp ⟨compactGraph, result⟩).2 untyped
  | error failure =>
      obtain ⟨operation, listed, plain, tensor, present, operand, expected, hasType, different,
        same⟩ := wellFormed.compact_of_error inOrder result
      exact ⟨operation, listed, plain, tensor, present, operand, expected, hasType, different,
        by rw [same]⟩

def markedOperations : List Operation :=
  [relayCopy 2 0 1, relayCopy 1 1 2, relayMarker, relaySum, relayCopy 3 2 3]

theorem compact_faithful_marked :
    ∃ graph compactGraph, build relayTensors markedOperations ⟨8, 8⟩ = .ok graph ∧
      graph.compact = .ok compactGraph ∧ graph.Faithful compactGraph ∧
      graph.operationList.map Operation.id = [2, 1, 10, 4, 3] ∧
      compactGraph.operations.map CompactOperation.id = [2, 1, 4, 3] ∧
      compactGraph.metadata.maxFanOut = 2 := by
  obtain ⟨graph, compactGraph, built, compacted, listed, remaining, fanOut⟩ :
      ∃ graph compactGraph, build relayTensors markedOperations ⟨8, 8⟩ = .ok graph ∧
        graph.compact = .ok compactGraph ∧
        graph.operationList.map Operation.id = [2, 1, 10, 4, 3] ∧
        compactGraph.operations.map CompactOperation.id = [2, 1, 4, 3] ∧
        compactGraph.metadata.maxFanOut = 2 :=
    ⟨_, _, rfl, rfl, rfl, rfl, rfl⟩
  obtain ⟨_, _, _, faithful⟩ := compact_faithful (.built built)
  exact ⟨graph, compactGraph, built, compacted, faithful compactGraph compacted, listed, remaining,
    fanOut⟩

end Graph

end TensorGraph
