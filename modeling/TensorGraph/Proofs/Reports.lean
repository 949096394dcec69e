import TensorGraph.Graph.Report
import TensorGraph.Proofs.BackwardClosure
import TensorGraph.Proofs.CompactForm

/-!
What a report says about a graph. Its errors are the inputs that are read before they are written,
one for each, so that it is without errors exactly when the graph can be run. Groups are never out
of place. Its warnings name each unusual tensor once.
-/

namespace TensorGraph

open Operation (ids)

namespace Graph

section Layout

variable {graph : Graph}

theorem WellFormed.memberInPlace_of_member (wellFormed : graph.WellFormed) {header offset : Nat}
    {marker : Operation} (found : graph.operationList[header]? = some marker)
    (isGroup : marker.isGroup = true) {member : OperationId}
    (listed : marker.inputs[offset]? = some member) :
    graph.memberInPlace header member (header + 1 + offset) = true := by
  have bound := (List.getElem?_eq_some_iff.mp listed).1
  have slot := (wellFormed.headerSlots header marker found isGroup).2 offset bound
  rw [← wellFormed.members header marker found isGroup, ids, List.getElem?_map,
    List.getElem?_take_of_lt bound, List.getElem?_drop, Option.map_eq_some_iff] at listed
  obtain ⟨operation, operationFound, same⟩ := listed
  obtain ⟨node, nodeFound, sameNode⟩ := WellFormed.operationList_getElem?.mp operationFound
  simp [memberInPlace, nodeFound, slot, sameNode, same]

/-- Groups of a graph are in place, so that nothing is ever reported about them. -/
theorem WellFormed.layoutErrors_eq_nil (wellFormed : graph.WellFormed) :
    graph.layoutErrors = [] := by
  rw [layoutErrors, List.flatMap_eq_nil_iff]
  rintro ⟨node, header⟩ nodeListed
  have found : graph.operationList[header]? = some node.operation :=
    WellFormed.operationList_getElem?.mpr ⟨node, List.mem_zipIdx_iff_getElem?.mp nodeListed, rfl⟩
  rw [List.filterMap_eq_nil_iff]
  rintro ⟨member, offset⟩ memberListed
  have listed := List.mem_zipIdx_iff_getElem?.mp memberListed
  cases isGroup : node.operation.isGroup with
  | false => simp [Operation.members?, isGroup] at listed
  | true =>
      rw [Operation.members?, if_pos isGroup, Option.getD_some] at listed
      exact if_pos (wellFormed.memberInPlace_of_member found isGroup listed)

theorem WellFormed.errors_report (wellFormed : graph.WellFormed) :
    graph.report.errors = graph.orderViolations.map PlanError.scheduleOrder := by
  rw [report, wellFormed.layoutErrors_eq_nil, List.append_nil]

end Layout

section Order

variable {graph : Graph}

theorem WellFormed.isValid_report_iff (wellFormed : graph.WellFormed) :
    graph.report.isValid = true ↔ graph.isOrdered = true := by
  rw [Report.isValid, wellFormed.errors_report, List.isEmpty_map, List.isEmpty_iff,
    orderViolations_eq_nil_iff, isOrdered_iff]

theorem WellFormed.isOrdered_iff_compact (wellFormed : graph.WellFormed) :
    graph.isOrdered = true ↔ ∀ producer consumer,
      graph.compact ≠ .error (.scheduleViolation producer consumer) := by
  rw [isOrdered_iff, wellFormed.ordered_iff_forward]
  constructor
  · intro forward producer consumer failed
    obtain ⟨_, _, _, _, _, _, _, _, _, same⟩ := wellFormed.compact_of_error forward failed
    cases same
  · intro accepted
    by_contra disordered
    obtain ⟨_, _, writer, reader, _, _, _, _, failed⟩ :=
      wellFormed.compact_of_not_forward disordered
    exact accepted writer.id reader.id failed

/-- The input at a place, an operation and a position among its inputs, is written where the
violation says: at the operation itself or behind it. -/
structure LateInput (graph : Graph) (place : Nat × Nat) (violation : OrderViolation) : Prop where
  consumer : violation.consumer = place.1
  late : violation.consumer ≤ violation.producer
  operands : ∃ reader writer tensor, graph.operationList[violation.consumer]? = some reader ∧
    graph.operationList[violation.producer]? = some writer ∧
    graph.tensorList[violation.tensor]? = some tensor ∧ reader.isGroup = false ∧
    reader.inputs[place.2]? = some tensor.id ∧ writer.writes tensor.id = true

def lateInputs (graph : Graph) : List ((Nat × Nat) × OrderViolation) :=
  graph.operations.zipIdx.flatMap fun entry =>
    entry.1.inputs.zipIdx.filterMap fun input =>
      (graph.violation? entry.2 input.1).map fun violation => ((entry.2, input.2), violation)

theorem map_snd_lateInputs (graph : Graph) :
    graph.lateInputs.map Prod.snd = graph.orderViolations := by
  rw [lateInputs, List.map_flatMap, orderViolations]
  refine List.flatMap_congr fun entry _ => ?_
  rw [List.map_filterMap]
  calc entry.1.inputs.zipIdx.filterMap _
    _ = (entry.1.inputs.zipIdx.map Prod.fst).filterMap (graph.violation? entry.2) := by
      rw [List.filterMap_map]
      refine List.filterMap_congr fun input _ => ?_
      rw [Option.map_map]
      exact congrFun Option.map_id _
    _ = graph.violationsAt entry.2 entry.1 := by
      rw [List.zipIdx_map_fst]
      rfl

theorem nodup_fst_lateInputs (graph : Graph) : (graph.lateInputs.map Prod.fst).Nodup := by
  rw [List.Nodup, List.pairwise_map, lateInputs, List.pairwise_flatMap]
  constructor
  · rintro ⟨node, consumer⟩ _
    rw [List.pairwise_filterMap]
    refine (Connections.pairwise_zipIdx node.inputs 0).imp ?_
    intro _ _ before first isFirst second isSecond
    obtain ⟨_, _, rfl⟩ := Option.map_eq_some_iff.mp isFirst
    obtain ⟨_, _, rfl⟩ := Option.map_eq_some_iff.mp isSecond
    intro same
    have samePlace := congrArg Prod.snd same
    exact Nat.ne_of_lt before samePlace
  · refine (Connections.pairwise_zipIdx graph.operations 0).imp ?_
    intro _ _ before first inFirst second inSecond same
    obtain ⟨_, _, isFirst⟩ := List.mem_filterMap.mp inFirst
    obtain ⟨_, _, isSecond⟩ := List.mem_filterMap.mp inSecond
    obtain ⟨_, _, rfl⟩ := Option.map_eq_some_iff.mp isFirst
    obtain ⟨_, _, rfl⟩ := Option.map_eq_some_iff.mp isSecond
    have sameConsumer := congrArg Prod.fst same
    exact Nat.ne_of_lt before sameConsumer

theorem WellFormed.lateInput_of_violation? (wellFormed : graph.WellFormed)
    {consumer input tensor : Nat} {node : OperationNode} {violation : OrderViolation}
    (found : graph.operations[consumer]? = some node) (isInput : node.inputs[input]? = some tensor)
    (violated : graph.violation? consumer tensor = some violation) :
    graph.LateInput (consumer, input) violation := by
  obtain ⟨sameConsumer, sameTensor, produced, late⟩ := violation?_eq_some_iff.mp violated
  have member := List.mem_of_getElem? found
  have plain := wellFormed.plain_of_operand member (Or.inl (List.mem_of_getElem? isInput))
  obtain ⟨descriptor, descriptorFound, named⟩ :=
    ((wellFormed.inputs node member plain).getElem?_iff wellFormed.tensorIds).mp isInput
  obtain ⟨tensorNode, tensorFound, same⟩ := WellFormed.tensorList_getElem?.mp descriptorFound
  obtain ⟨writer, writerFound, writes⟩ := (wellFormed.producer?_iff_writes tensorFound).mp produced
  rw [same] at writes
  refine ⟨sameConsumer, by omega, node.operation, writer, descriptor, ?_, writerFound, ?_, plain,
    named, writes⟩
  · rw [sameConsumer]
    exact WellFormed.operationList_getElem?.mpr ⟨node, found, rfl⟩
  · rw [sameTensor]
    exact descriptorFound

theorem WellFormed.exists_of_lateInput (wellFormed : graph.WellFormed) {place : Nat × Nat}
    {violation : OrderViolation} (lateInput : graph.LateInput place violation) :
    ∃ node, graph.operations[place.1]? = some node ∧
      node.inputs[place.2]? = some violation.tensor ∧
      graph.violation? place.1 violation.tensor = some violation := by
  obtain ⟨sameConsumer, late, reader, writer, tensor, readerFound, writerFound, tensorFound, plain,
    named, writes⟩ := lateInput
  rw [sameConsumer] at readerFound late
  obtain ⟨node, found, rfl⟩ := WellFormed.operationList_getElem?.mp readerFound
  obtain ⟨tensorNode, nodeFound, rfl⟩ := WellFormed.tensorList_getElem?.mp tensorFound
  have produced := (wellFormed.producer?_iff_writes nodeFound).mpr ⟨writer, writerFound, writes⟩
  exact ⟨node, found, ((wellFormed.inputs node (List.mem_of_getElem? found) plain).getElem?_iff
      wellFormed.tensorIds).mpr ⟨tensorNode.tensor, tensorFound, named⟩,
    violation?_eq_some_iff.mpr ⟨sameConsumer, rfl, produced, late⟩⟩

theorem WellFormed.mem_lateInputs_iff (wellFormed : graph.WellFormed) {place : Nat × Nat}
    {violation : OrderViolation} :
    (place, violation) ∈ graph.lateInputs ↔ graph.LateInput place violation := by
  constructor
  · intro listed
    obtain ⟨⟨node, consumer⟩, nodeListed, inputListed⟩ := List.mem_flatMap.mp listed
    obtain ⟨⟨tensor, input⟩, tensorListed, violated⟩ := List.mem_filterMap.mp inputListed
    obtain ⟨_, violated, same⟩ := Option.map_eq_some_iff.mp violated
    cases same
    exact wellFormed.lateInput_of_violation? (List.mem_zipIdx_iff_getElem?.mp nodeListed)
      (List.mem_zipIdx_iff_getElem?.mp tensorListed) violated
  · intro lateInput
    obtain ⟨node, found, isInput, violated⟩ := wellFormed.exists_of_lateInput lateInput
    refine List.mem_flatMap.mpr ⟨(node, place.1), List.mem_zipIdx_iff_getElem?.mpr found, ?_⟩
    exact List.mem_filterMap.mpr ⟨(violation.tensor, place.2),
      List.mem_zipIdx_iff_getElem?.mpr isInput,
      Option.map_eq_some_iff.mpr ⟨violation, violated, rfl⟩⟩

end Order

section Usage

variable {graph : Graph}

/-- What a graph should be warned about: tensors on the device, tensors that no operation names, and
tensors that are written and never read. -/
inductive Warranted (graph : Graph) : PlanWarning → Prop
  | device {place : Nat} {tensor : Tensor} : graph.tensorList[place]? = some tensor →
      tensor.storage = .device → Warranted graph (.deviceTensor place)
  | isolated {place : Nat} {tensor : Tensor} : graph.tensorList[place]? = some tensor →
      (∀ operation ∈ graph.operationList, operation.writes tensor.id = false) →
      (∀ operation ∈ graph.operationList, operation.reads tensor.id = false) →
      Warranted graph (.isolatedTensor place)
  | dead {place producer : Nat} {tensor : Tensor} {writer : Operation} :
      graph.tensorList[place]? = some tensor → graph.operationList[producer]? = some writer →
      writer.writes tensor.id = true →
      (∀ operation ∈ graph.operationList, operation.reads tensor.id = false) →
      Warranted graph (.deadOutput producer place)

theorem forall_listed_iff {condition : Operation → Prop} :
    (∀ (position : Nat) (operation : Operation), graph.operationList[position]? = some operation →
      condition operation) ↔ ∀ operation ∈ graph.operationList, condition operation := by
  constructor
  · intro each operation listed
    obtain ⟨position, found⟩ := List.mem_iff_getElem?.mp listed
    exact each position operation found
  · intro each position operation found
    exact each operation (List.mem_of_getElem? found)

theorem WellFormed.producer_eq_none_iff (wellFormed : graph.WellFormed) {node : TensorNode}
    (member : node ∈ graph.tensors) : node.producer = none ↔
      ∀ operation ∈ graph.operationList, operation.writes node.tensor.id = false := by
  rw [Option.eq_none_iff_forall_ne_some]
  simp only [ne_eq, wellFormed.producer node member, not_exists, not_and, Bool.not_eq_true,
    forall_listed_iff]

theorem WellFormed.consumers_eq_nil_iff (wellFormed : graph.WellFormed) {node : TensorNode}
    (member : node ∈ graph.tensors) : node.consumers = [] ↔
      ∀ operation ∈ graph.operationList, operation.reads node.tensor.id = false := by
  rw [List.eq_nil_iff_forall_not_mem]
  simp only [wellFormed.consumers node member, not_exists, not_and, Bool.not_eq_true,
    forall_listed_iff]

theorem mem_usageWarnings_iff {place : Nat} {node : TensorNode} {warning : PlanWarning} :
    warning ∈ usageWarnings place node ↔
      (warning = .deviceTensor place ∧ node.tensor.storage = .device) ∨
      (warning = .isolatedTensor place ∧ node.producer = none ∧ node.consumers = []) ∨
      ∃ producer, warning = .deadOutput producer place ∧ node.producer = some producer ∧
        node.consumers = [] := by
  rw [usageWarnings, List.mem_append]
  refine or_congr ?_ ?_
  · by_cases onDevice : node.tensor.storage = .device
    · simp [onDevice]
    · simp [onDevice]
  · cases node.producer with
    | none =>
        cases node.consumers with
        | nil => simp
        | cons first rest => simp
    | some producer =>
        cases node.consumers with
        | nil => simp
        | cons first rest => simp

theorem tensor?_of_mem_usageWarnings {place : Nat} {node : TensorNode} {warning : PlanWarning}
    (listed : warning ∈ usageWarnings place node) : warning.tensor? = some place := by
  rcases mem_usageWarnings_iff.mp listed with ⟨rfl, _⟩ | ⟨rfl, _⟩ | ⟨_, rfl, _⟩
  · rfl
  · rfl
  · rfl

theorem nodup_usageWarnings (place : Nat) (node : TensorNode) :
    (usageWarnings place node).Nodup := by
  rw [usageWarnings, List.nodup_append]
  refine ⟨by split <;> simp, by split <;> simp, ?_⟩
  intro first isFirst second isSecond same
  split at isFirst
  · rw [List.mem_singleton.mp isFirst] at same
    subst same
    split at isSecond <;> simp at isSecond
  · cases isFirst

theorem nodup_warnings_report (graph : Graph) : graph.report.warnings.Nodup := by
  rw [report, List.Nodup, List.pairwise_flatMap]
  refine ⟨fun entry _ => nodup_usageWarnings entry.2 entry.1, ?_⟩
  refine (Connections.pairwise_zipIdx graph.tensors 0).imp ?_
  intro _ _ before warning inFirst other inSecond same
  have place := tensor?_of_mem_usageWarnings inFirst
  rw [same, tensor?_of_mem_usageWarnings inSecond, Option.some.injEq] at place
  omega

theorem WellFormed.mem_warnings_report_iff (wellFormed : graph.WellFormed)
    {warning : PlanWarning} : warning ∈ graph.report.warnings ↔ graph.Warranted warning := by
  have listed : warning ∈ graph.report.warnings ↔ ∃ (place : Nat) (node : TensorNode),
      graph.tensors[place]? = some node ∧ warning ∈ usageWarnings place node := by
    rw [report, List.mem_flatMap]
    constructor
    · rintro ⟨⟨node, place⟩, nodeListed, inside⟩
      exact ⟨place, node, List.mem_zipIdx_iff_getElem?.mp nodeListed, inside⟩
    · rintro ⟨place, node, found, inside⟩
      exact ⟨(node, place), List.mem_zipIdx_iff_getElem?.mpr found, inside⟩
  rw [listed]
  constructor
  · rintro ⟨place, node, found, inside⟩
    have member := List.mem_of_getElem? found
    have descriptor := WellFormed.tensorList_getElem?.mpr ⟨node, found, rfl⟩
    rcases mem_usageWarnings_iff.mp inside with ⟨rfl, onDevice⟩ | ⟨rfl, unwritten, unread⟩ |
      ⟨producer, rfl, written, unread⟩
    · exact .device descriptor onDevice
    · exact .isolated descriptor ((wellFormed.producer_eq_none_iff member).mp unwritten)
        ((wellFormed.consumers_eq_nil_iff member).mp unread)
    · obtain ⟨writer, writerFound, writes⟩ := (wellFormed.producer node member producer).mp written
      exact .dead descriptor writerFound writes ((wellFormed.consumers_eq_nil_iff member).mp unread)
  · intro warranted
    cases warranted with
    | @device place _ descriptor onDevice =>
        obtain ⟨node, found, rfl⟩ := WellFormed.tensorList_getElem?.mp descriptor
        exact ⟨place, node, found, mem_usageWarnings_iff.mpr (Or.inl ⟨rfl, onDevice⟩)⟩
    | @isolated place _ descriptor unwritten unread =>
        obtain ⟨node, found, rfl⟩ := WellFormed.tensorList_getElem?.mp descriptor
        have member := List.mem_of_getElem? found
        exact ⟨place, node, found, mem_usageWarnings_iff.mpr (Or.inr (Or.inl ⟨rfl,
          (wellFormed.producer_eq_none_iff member).mpr unwritten,
          (wellFormed.consumers_eq_nil_iff member).mpr unread⟩))⟩
    | @dead place producer _ writer descriptor writerFound writes unread =>
        obtain ⟨node, found, rfl⟩ := WellFormed.tensorList_getElem?.mp descriptor
        have member := List.mem_of_getElem? found
        exact ⟨place, node, found, mem_usageWarnings_iff.mpr (Or.inr (Or.inr ⟨producer, rfl,
          (wellFormed.producer node member producer).mpr ⟨writer, writerFound, writes⟩,
          (wellFormed.consumers_eq_nil_iff member).mpr unread⟩))⟩

end Usage

structure DescribedBy (graph : Graph) (report : Report) : Prop where
  ordered : report.isValid = true ↔ graph.isOrdered = true
  compacted : report.isValid = true ↔ ∀ producer consumer,
    graph.compact ≠ .error (.scheduleViolation producer consumer)
  groupsInPlace : ∀ group member position, .groupLayout group member position ∉ report.errors
  /-- The errors go through the inputs that are read too early, each of them once. -/
  errors : ∃ places : List (Nat × Nat), places.Nodup ∧
    (∀ place, place ∈ places ↔ ∃ violation, graph.LateInput place violation) ∧
    List.Forall₂ (fun place error => ∃ violation, graph.LateInput place violation ∧
      error = .scheduleOrder violation) places report.errors
  warnings : ∀ warning, warning ∈ report.warnings ↔ graph.Warranted warning
  warnedOnce : report.warnings.Nodup

theorem describedBy_report {graph : Graph} (obtained : graph.Obtained) :
    graph.DescribedBy graph.report := by
  obtain ⟨_, _, _, built⟩ := obtained.exists_build
  have wellFormed := wellFormed_of_build built
  constructor
  case ordered => exact wellFormed.isValid_report_iff
  case compacted => rw [wellFormed.isValid_report_iff, wellFormed.isOrdered_iff_compact]
  case groupsInPlace =>
    intro group member position listed
    rw [wellFormed.errors_report] at listed
    simp at listed
  case errors =>
    refine ⟨graph.lateInputs.map Prod.fst, graph.nodup_fst_lateInputs, ?_, ?_⟩
    · intro place
      rw [List.mem_map]
      constructor
      · rintro ⟨⟨_, violation⟩, listed, rfl⟩
        exact ⟨violation, wellFormed.mem_lateInputs_iff.mp listed⟩
      · rintro ⟨violation, lateInput⟩
        exact ⟨(place, violation), wellFormed.mem_lateInputs_iff.mpr lateInput, rfl⟩
    · rw [wellFormed.errors_report, ← map_snd_lateInputs, List.map_map,
        List.forall₂_map_left_iff, List.forall₂_map_right_iff, List.forall₂_same]
      rintro ⟨place, violation⟩ listed
      exact ⟨violation, wellFormed.mem_lateInputs_iff.mp listed, rfl⟩
  case warnings => exact fun _ => wellFormed.mem_warnings_report_iff
  case warnedOnce => exact graph.nodup_warnings_report

def spareTensors : List Tensor := relayTensors ++ [(Tensor.scalar 5 .u8).withStorage .device]

theorem describedBy_report_spare :
    ∃ graph, build spareTensors relayOperations ⟨8, 8⟩ = .ok graph ∧
      graph.report.errors = [.scheduleOrder ⟨0, 1, 1⟩] ∧
      graph.report.warnings =
        [.deadOutput 4 3, .deadOutput 3 4, .deviceTensor 5, .isolatedTensor 5] ∧
      graph.DescribedBy graph.report := by
  refine ⟨_, rfl, by decide, by decide, ?_⟩
  exact describedBy_report (@Obtained.built spareTensors relayOperations ⟨8, 8⟩ _ rfl)

end Graph

end TensorGraph
