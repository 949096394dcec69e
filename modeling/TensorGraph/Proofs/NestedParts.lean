import TensorGraph.Proofs.ClosedParts

/-!
Parts of parts. What named tensors depend on can be said of operations and tensors, without their
positions. Said that way it is the same in a graph and in any part of it that holds the named
tensors, so taking a part of a part is taking it from the graph.
-/

namespace TensorGraph

open Operation (ids)

theorem eq_of_same_members {α : Type} {items left right : List α} (distinct : items.Nodup)
    (leftSelection : left.Sublist items) (rightSelection : right.Sublist items)
    (same : ∀ item ∈ items, item ∈ left ↔ item ∈ right) : left = right := by
  induction items generalizing left right with
  | nil => rw [List.sublist_nil.mp leftSelection, List.sublist_nil.mp rightSelection]
  | cons item rest ih =>
      obtain ⟨notLater, others⟩ := List.nodup_cons.mp distinct
      obtain ⟨sameItem, sameRest⟩ := List.forall_mem_cons.mp same
      cases leftSelection with
      | cons _ leftRest =>
          cases rightSelection with
          | cons _ rightRest => exact ih others leftRest rightRest sameRest
          | cons_cons _ _ => exact absurd (leftRest.subset (sameItem.mpr (by simp))) notLater
      | cons_cons _ leftRest =>
          cases rightSelection with
          | cons _ rightRest => exact absurd (rightRest.subset (sameItem.mp (by simp))) notLater
          | cons_cons _ rightRest =>
              refine congrArg (item :: ·) (ih others leftRest rightRest fun other listed => ?_)
              have different : other ≠ item := fun same => notLater (same ▸ listed)
              simpa [different] using sameRest other listed

namespace Operation

/-- Data flows from the operation into a tensor of a wanted name, maybe through others of the
operations. -/
inductive Contributes (operations : List Operation) (wanted : List TensorId) : Operation → Prop
  | writes {operation : Operation} {name : TensorId} (listed : operation ∈ operations)
      (written : operation.writes name = true) (isWanted : name ∈ wanted) :
      Contributes operations wanted operation
  | feeds {operation reader : Operation} (listed : operation ∈ operations)
      (feeds : operation.Feeds reader) (contributes : Contributes operations wanted reader) :
      Contributes operations wanted operation

theorem Contributes.listed {operations : List Operation} {wanted : List TensorId}
    {operation : Operation} (contributes : Contributes operations wanted operation) :
    operation ∈ operations := by
  cases contributes with
  | writes listed _ _ => exact listed
  | feeds listed _ _ => exact listed

theorem Contributes.of_subset {operations others : List Operation} {wanted : List TensorId}
    {operation : Operation} (contributes : Contributes operations wanted operation)
    (inside : operations ⊆ others) : Contributes others wanted operation := by
  induction contributes with
  | writes listed written isWanted => exact .writes (inside listed) written isWanted
  | feeds listed feeds _ ih => exact .feeds (inside listed) feeds ih

def Touches (operation : Operation) (name : TensorId) : Prop :=
  operation.reads name = true ∨ operation.writes name = true

end Operation

open Operation (Contributes)

namespace Graph

structure PartFor (graph : Graph) (names : List TensorId) (tensors : List Tensor)
    (operations : List Operation) : Prop where
  tensorsKept : tensors.Sublist graph.tensorList
  operationsKept : operations.Sublist graph.operationList
  tensor_iff : ∀ tensor ∈ graph.tensorList, tensor ∈ tensors ↔ tensor.id ∈ names ∨
    ∃ operation, Contributes graph.operationList names operation ∧ operation.Touches tensor.id
  plain_iff : ∀ operation ∈ graph.operationList, operation.isGroup = false →
    (operation ∈ operations ↔ Contributes graph.operationList names operation)
  marker_iff : ∀ marker ∈ graph.operationList, marker.isGroup = true →
    (marker ∈ operations ↔ ∀ member ∈ graph.operationList,
      member.id ∈ marker.inputs → Contributes graph.operationList names member)

variable {graph : Graph} {names : List TensorId} {wanted : List Nat}

theorem WellFormed.leadsTo_iff_contributes (wellFormed : graph.WellFormed)
    (named : Connections.Named graph.tensorList wanted names) {position : Nat}
    {operation : Operation} (found : graph.operationList[position]? = some operation) :
    graph.LeadsTo wanted position ↔ Contributes graph.operationList names operation := by
  constructor
  · rintro ⟨last, node, flow, lastFound, tensor, written, isWanted⟩
    induction flow using Relation.ReflTransGen.head_induction_on generalizing operation with
    | refl =>
        obtain ⟨here, hereFound, same⟩ := operationList_getElem?.mp found
        rw [lastFound] at hereFound
        cases hereFound
        obtain ⟨tensorNode, tensorFound, writes⟩ :=
          (wellFormed.mem_outputs_iff (List.mem_of_getElem? lastFound)).mp written
        obtain ⟨descriptor, descriptorFound, listed⟩ :=
          (named.mem_iff wellFormed.tensorIds).mp isWanted
        rw [tensorList_getElem?.mpr ⟨tensorNode, tensorFound, rfl⟩] at descriptorFound
        cases descriptorFound
        exact .writes (List.mem_of_getElem? found) (same ▸ writes) listed
    | head feeds _ ih =>
        obtain ⟨writer, reader, name, writerFound, readerFound, writes, reads⟩ :=
          wellFormed.feeds_iff.mp feeds
        rw [found] at writerFound
        cases writerFound
        exact .feeds (List.mem_of_getElem? found) ⟨name, writes, reads⟩ (ih readerFound)
  · intro contributes
    induction contributes generalizing position with
    | @writes operation name listed written isWanted =>
        obtain ⟨node, nodeFound, rfl⟩ := operationList_getElem?.mp found
        obtain ⟨index, isIndex, tensor, tensorFound, same⟩ :=
          exists_of_forall₂ (List.Forall₂.flip named) isWanted
        obtain ⟨tensorNode, tensorNodeFound, sameTensor⟩ := tensorList_getElem?.mp tensorFound
        subst same sameTensor
        exact leadsTo_of_writes nodeFound ((wellFormed.mem_outputs_iff
          (List.mem_of_getElem? nodeFound)).mpr ⟨tensorNode, tensorNodeFound, written⟩) isIndex
    | @feeds operation reader _ feeds contributes ih =>
        obtain ⟨name, writes, reads⟩ := feeds
        obtain ⟨consumer, readerFound⟩ := List.mem_iff_getElem?.mp contributes.listed
        exact (ih readerFound).of_feeds (wellFormed.feeds_iff.mpr
          ⟨operation, reader, name, found, readerFound, writes, reads⟩)

theorem WellFormed.touches_iff (wellFormed : graph.WellFormed) {position index : Nat}
    {node : OperationNode} {tensor : Tensor} (found : graph.operations[position]? = some node)
    (tensorFound : graph.tensorList[index]? = some tensor) :
    index ∈ node.inputs ∨ index ∈ node.outputs ↔ node.operation.Touches tensor.id := by
  obtain ⟨tensorNode, tensorNodeFound, rfl⟩ := tensorList_getElem?.mp tensorFound
  rw [wellFormed.mem_inputs_iff (List.mem_of_getElem? found),
    wellFormed.mem_outputs_iff (List.mem_of_getElem? found), Operation.Touches]
  simp [tensorNodeFound]

theorem WellFormed.plain_of_mem_inputs (wellFormed : graph.WellFormed) {marker member : Operation}
    (present : marker ∈ graph.operationList) (isGroup : marker.isGroup = true)
    (memberPresent : member ∈ graph.operationList) (listed : member.id ∈ marker.inputs) :
    member.isGroup = false := by
  obtain ⟨_, found⟩ := List.mem_iff_getElem?.mp present
  obtain ⟨_, memberFound⟩ := List.mem_iff_getElem?.mp memberPresent
  exact wellFormed.plain_of_mem_marker_inputs found isGroup memberFound listed

theorem partFor_keepMarked (wellFormed : graph.WellFormed) {marks : Reachability}
    (exact : marks.Exact graph wanted)
    (named : Connections.Named graph.tensorList wanted names) :
    graph.PartFor names (keepMarked graph.tensorList marks.tensors)
      (keepMarked graph.operationList marks.operations) := by
  have distinct := wellFormed.tensorIds.of_map
  have distinctOperations := wellFormed.operationIds.of_map
  have plainMarked : ∀ {position : Nat} {node : OperationNode},
      graph.operations[position]? = some node → node.operation.isGroup = false →
      (marks.operations[position]? = some true ↔
        Contributes graph.operationList names node.operation) := by
    intro position node found plain
    rw [exact.operations position node found plain]
    exact wellFormed.leadsTo_iff_contributes named
      (WellFormed.operationList_getElem?.mpr ⟨node, found, rfl⟩)
  have plain_iff : ∀ operation ∈ graph.operationList, operation.isGroup = false →
      (operation ∈ keepMarked graph.operationList marks.operations ↔
        Contributes graph.operationList names operation) := by
    intro operation present plain
    obtain ⟨position, operationFound⟩ := List.mem_iff_getElem?.mp present
    obtain ⟨node, found, rfl⟩ := WellFormed.operationList_getElem?.mp operationFound
    rw [mem_keepMarked_iff_getElem? distinctOperations operationFound]
    exact plainMarked found plain
  constructor
  case tensorsKept => exact keepMarked_sublist _ _
  case operationsKept => exact keepMarked_sublist _ _
  case plain_iff => exact plain_iff
  case tensor_iff =>
    intro tensor present
    obtain ⟨index, tensorFound⟩ := List.mem_iff_getElem?.mp present
    rw [mem_keepMarked_iff_getElem? distinct tensorFound, exact.tensors]
    refine or_congr ?_ ?_
    · rw [named.mem_iff wellFormed.tensorIds]
      simp [tensorFound]
    · constructor
      · rintro ⟨position, node, found, marked, operand⟩
        have plain := wellFormed.plain_of_operand (List.mem_of_getElem? found) operand
        exact ⟨node.operation, (plainMarked found plain).mp marked,
          (wellFormed.touches_iff found tensorFound).mp operand⟩
      · rintro ⟨operation, contributes, touches⟩
        obtain ⟨position, operationFound⟩ := List.mem_iff_getElem?.mp contributes.listed
        obtain ⟨node, found, rfl⟩ := WellFormed.operationList_getElem?.mp operationFound
        have operand := (wellFormed.touches_iff found tensorFound).mpr touches
        have plain := wellFormed.plain_of_operand (List.mem_of_getElem? found) operand
        exact ⟨position, node, found, (plainMarked found plain).mpr contributes, operand⟩
  case marker_iff =>
    intro marker present isGroup
    rw [mem_kept_marker_iff wellFormed exact present isGroup]
    refine forall₂_congr fun member memberPresent => forall_congr' fun listed => ?_
    exact plain_iff member memberPresent
      (wellFormed.plain_of_mem_inputs present isGroup memberPresent listed)

namespace PartFor

variable {tensors otherTensors : List Tensor} {operations otherOperations : List Operation}

theorem unique (part : graph.PartFor names tensors operations)
    (other : graph.PartFor names otherTensors otherOperations) (wellFormed : graph.WellFormed) :
    tensors = otherTensors ∧ operations = otherOperations := by
  have sameTensors : ∀ tensor ∈ graph.tensorList, tensor ∈ tensors ↔ tensor ∈ otherTensors :=
    fun tensor present => (part.tensor_iff tensor present).trans
      (other.tensor_iff tensor present).symm
  have sameOperations : ∀ operation ∈ graph.operationList,
      operation ∈ operations ↔ operation ∈ otherOperations := by
    intro operation present
    cases isGroup : operation.isGroup with
    | true => rw [part.marker_iff operation present isGroup,
        other.marker_iff operation present isGroup]
    | false => rw [part.plain_iff operation present isGroup,
        other.plain_iff operation present isGroup]
  exact ⟨eq_of_same_members wellFormed.tensorIds.of_map part.tensorsKept other.tensorsKept
      sameTensors,
    eq_of_same_members wellFormed.operationIds.of_map part.operationsKept other.operationsKept
      sameOperations⟩

theorem of_perm {others : List Operation} {result : Graph}
    (partFor : graph.PartFor names tensors operations)
    (sameTensors : result.tensorList = graph.tensorList)
    (moved : result.operationList.Perm graph.operationList)
    (kept : others.Sublist result.operationList) (permuted : others.Perm operations) :
    result.PartFor names tensors others := by
  have sameFlow : ∀ {operation}, Contributes result.operationList names operation ↔
      Contributes graph.operationList names operation :=
    ⟨fun contributes => contributes.of_subset moved.subset,
      fun contributes => contributes.of_subset moved.symm.subset⟩
  constructor
  case tensorsKept => exact sameTensors ▸ partFor.tensorsKept
  case operationsKept => exact kept
  case tensor_iff =>
    intro tensor present
    simp only [sameFlow]
    exact partFor.tensor_iff tensor (sameTensors ▸ present)
  case plain_iff =>
    intro operation present plain
    rw [permuted.mem_iff, sameFlow]
    exact partFor.plain_iff operation (moved.mem_iff.mp present) plain
  case marker_iff =>
    intro marker present isGroup
    simp only [permuted.mem_iff, moved.mem_iff, sameFlow]
    exact partFor.marker_iff marker (moved.mem_iff.mp present) isGroup

end PartFor

section Within

variable {part : Graph} {tensors : List Tensor} {operations : List Operation}

theorem contributes_iff_of_part
    (sound : Connections.Sound (graph.tensorList.map fun tensor => tensor.id) graph.operationList)
    (closed : graph.Closed part.tensorList part.operationList) (cut : part.CutFrom graph)
    (known : ∀ name ∈ names, name ∈ part.tensorList.map Tensor.id) {operation : Operation} :
    Contributes part.operationList names operation ↔
      Contributes graph.operationList names operation := by
  constructor
  · exact fun contributes => contributes.of_subset cut.operations.subset
  · intro contributes
    induction contributes with
    | writes listed written isWanted =>
        obtain ⟨tensor, kept, rfl⟩ := List.mem_map.mp (known _ isWanted)
        exact .writes (cut.writersKept _ listed tensor kept written) written isWanted
    | @feeds operation reader listed feeds _ ih =>
        obtain ⟨name, writes, reads⟩ := feeds
        obtain ⟨tensor, present, rfl⟩ := List.mem_map.mp
          (sound.inputsKnown reader (cut.operations.subset ih.listed) name reads)
        have kept := closed.operands reader ih.listed tensor present (Or.inl reads)
        exact .feeds (cut.writersKept operation listed tensor kept writes) ⟨_, writes, reads⟩ ih

theorem PartFor.of_part (inPart : part.PartFor names tensors operations)
    (wellFormed : graph.WellFormed)
    (sound : Connections.Sound (graph.tensorList.map fun tensor => tensor.id) graph.operationList)
    (closed : graph.Closed part.tensorList part.operationList) (cut : part.CutFrom graph)
    (markers : ∀ marker ∈ graph.operationList, marker.isGroup = true →
      (marker ∈ part.operationList ↔ ∀ member ∈ graph.operationList,
        member.id ∈ marker.inputs → member ∈ part.operationList))
    (known : ∀ name ∈ names, name ∈ part.tensorList.map Tensor.id) :
    graph.PartFor names tensors operations := by
  have sameFlow : ∀ {operation}, Contributes part.operationList names operation ↔
      Contributes graph.operationList names operation :=
    contributes_iff_of_part sound closed cut known
  constructor
  case tensorsKept => exact inPart.tensorsKept.trans cut.tensors
  case operationsKept => exact inPart.operationsKept.trans cut.operations
  case tensor_iff =>
    intro tensor present
    have flows : (∃ operation, Contributes part.operationList names operation ∧
        operation.Touches tensor.id) ↔ ∃ operation,
        Contributes graph.operationList names operation ∧ operation.Touches tensor.id :=
      exists_congr fun _ => and_congr_left fun _ => sameFlow
    rw [← flows]
    refine ⟨fun kept => (inPart.tensor_iff tensor (inPart.tensorsKept.subset kept)).mp kept,
      fun depends => (inPart.tensor_iff tensor ?_).mpr depends⟩
    rcases depends with isNamed | ⟨operation, contributes, touches⟩
    · obtain ⟨other, kept, sameId⟩ := List.mem_map.mp (known _ isNamed)
      rwa [← List.inj_on_of_nodup_map wellFormed.tensorIds (cut.tensors.subset kept) present sameId]
    · exact closed.operands operation contributes.listed tensor present touches
  case plain_iff =>
    intro operation present plain
    rw [← sameFlow]
    exact ⟨fun kept =>
        (inPart.plain_iff operation (inPart.operationsKept.subset kept) plain).mp kept,
      fun contributes => (inPart.plain_iff operation contributes.listed plain).mpr contributes⟩
  case marker_iff =>
    intro marker present isGroup
    constructor
    · intro kept member memberPresent listed
      have markerKept := inPart.operationsKept.subset kept
      have memberKept := (markers marker present isGroup).mp markerKept member memberPresent listed
      exact sameFlow.mp ((inPart.marker_iff marker markerKept isGroup).mp kept member memberKept
        listed)
    · -- A group whose members all contribute was not dissolved by taking the part.
      intro allContribute
      have markerKept := (markers marker present isGroup).mpr fun member memberPresent listed =>
        (sameFlow.mpr (allContribute member memberPresent listed)).listed
      refine (inPart.marker_iff marker markerKept isGroup).mpr fun member memberKept listed => ?_
      exact sameFlow.mpr (allContribute member (cut.operations.subset memberKept) listed)

end Within

section Built

variable {tensors : List Tensor} {operations : List Operation} {whole : Capacity}

theorem exists_partFor (built : build tensors operations whole = .ok graph)
    (known : ∀ name ∈ names, name ∈ graph.tensorList.map Tensor.id) :
    ∃ keptTensors keptOperations, graph.PartFor names keptTensors keptOperations ∧
      graph.Closed keptTensors keptOperations ∧
      (∀ capacity, graph.subgraph names capacity = build keptTensors keptOperations capacity) ∧
      graph.subgraphSize names = .ok ⟨keptTensors.length, keptOperations.length⟩ := by
  have wellFormed := wellFormed_of_build built
  obtain ⟨wanted, located, named⟩ := exists_locateTensors known
  have reached := reachability_ok_iff.mpr ⟨lt_of_named named, rfl⟩
  have exact := exact_of_reachability wellFormed reached
  obtain ⟨tensorCount, operationCount⟩ := length_kept exact
  refine ⟨_, _, partFor_keepMarked wellFormed exact named, closed_keepMarked wellFormed exact,
    fun capacity => ?_, ?_⟩
  · simp only [subgraph, located, subgraphAt, reached, bind, Except.bind]
  · rw [tensorCount, operationCount]
    simp only [subgraphSize, located, bind, Except.bind]
    exact subgraphSizeAt_of_reachability reached

theorem partFor_of_subgraph (built : build tensors operations whole = .ok graph)
    (known : ∀ name ∈ names, name ∈ graph.tensorList.map Tensor.id)
    {capacity : Capacity} {part : Graph}
    (extracted : graph.subgraph names capacity = .ok part) :
    graph.PartFor names part.tensorList part.operationList := by
  obtain ⟨kept, keptOperations, partFor, closed, taken, _⟩ := exists_partFor built known
  rw [taken] at extracted
  obtain ⟨sameTensors, sameOperations⟩ := lists_of_arranged extracted (closed.arranged built)
  rwa [sameTensors, sameOperations]

theorem subgraphExact_eq (graph : Graph) (names : List TensorId) :
    graph.subgraphExact names =
      (graph.subgraphSize names).bind fun size => graph.subgraph names size.capacity := by
  simp only [subgraphExact, subgraphSize, subgraph, bind, Except.bind]
  cases graph.locateTensors names with
  | error _ => rfl
  | ok _ => rfl

/-- Names of a part have the same part in it as in the whole graph, also when the part left markers
out. -/
theorem subgraphExact_of_subgraphAt (built : build tensors operations whole = .ok graph)
    {capacity : Capacity} {part : Graph}
    (extracted : graph.subgraphAt wanted capacity = .ok part)
    (known : ∀ name ∈ names, name ∈ part.tensorList.map Tensor.id) :
    part.subgraphExact names = graph.subgraphExact names := by
  have wellFormed := wellFormed_of_build built
  obtain ⟨marks, reached, partBuilt⟩ := bind_eq_ok_iff.mp extracted
  obtain ⟨isPart, _⟩ := partOf_of_subgraphAt built reached extracted
  have cut := cutFrom_of_subgraphAt built extracted
  have closed := closed_of_subgraphAt built extracted
  obtain ⟨keptTensors, keptOperations, inPart, _, takenFromPart, sizeInPart⟩ :=
    exists_partFor partBuilt known
  obtain ⟨_, _, inGraph, _, takenFromGraph, sizeInGraph⟩ := exists_partFor built fun name listed =>
    (cut.tensors.map Tensor.id).subset (known name listed)
  obtain ⟨rfl, rfl⟩ := inGraph.unique (inPart.of_part wellFormed (sound_of_build built) closed cut
    isPart.markers known) wellFormed
  rw [subgraphExact_eq, subgraphExact_eq, sizeInPart, sizeInGraph]
  simp only [Except.bind, takenFromPart, takenFromGraph]

theorem exists_subgraphAt_of_known (built : build tensors operations whole = .ok graph)
    (known : ∀ name ∈ names, name ∈ graph.tensorList.map Tensor.id) :
    ∃ wanted capacity part, graph.subgraphExact names = .ok part ∧
      graph.subgraphAt wanted capacity = .ok part ∧
      ∀ name ∈ names, name ∈ part.tensorList.map Tensor.id := by
  have wellFormed := wellFormed_of_build built
  obtain ⟨wanted, located, named⟩ := exists_locateTensors known
  have reached := reachability_ok_iff.mpr ⟨lt_of_named named, rfl⟩
  obtain ⟨part, extracted, isPart, _⟩ := exists_subgraphExact built located reached
  have extractedAt := extracted
  simp only [subgraphExact, bind_eq_ok_iff] at extractedAt
  obtain ⟨_, _, size, _, extractedAt⟩ := extractedAt
  refine ⟨_, size.capacity, part, extracted, extractedAt, fun name listed => ?_⟩
  obtain ⟨tensor, present, rfl⟩ := List.mem_map.mp (known name listed)
  have partFor := partFor_keepMarked wellFormed (exact_of_reachability wellFormed reached) named
  rw [isPart.tensors]
  exact List.mem_map_of_mem ((partFor.tensor_iff tensor present).mpr (Or.inl listed))

/-- A part of a part is the part that the graph itself has for those names. In particular, taking
the same part again changes nothing. -/
theorem part_of_part (built : build tensors operations whole = .ok graph)
    (known : ∀ name ∈ names, name ∈ graph.tensorList.map Tensor.id) :
    ∃ part, graph.subgraphExact names = .ok part ∧ part.subgraphExact names = .ok part ∧
      ∀ others : List TensorId, (∀ name ∈ others, name ∈ part.tensorList.map Tensor.id) →
        ∃ result, part.subgraphExact others = .ok result ∧
          graph.subgraphExact others = .ok result := by
  obtain ⟨_, _, part, extracted, extractedAt, kept⟩ := exists_subgraphAt_of_known built known
  have sameParts : ∀ {others : List TensorId},
      (∀ name ∈ others, name ∈ part.tensorList.map Tensor.id) →
      part.subgraphExact others = graph.subgraphExact others :=
    subgraphExact_of_subgraphAt built extractedAt
  refine ⟨part, extracted, (sameParts kept).trans extracted, fun others othersKnown => ?_⟩
  obtain ⟨_, _, partBuilt⟩ := exists_build_of_subgraphAt extractedAt
  obtain ⟨_, _, result, taken, _⟩ := exists_subgraphAt_of_known partBuilt othersKnown
  exact ⟨result, taken, (sameParts othersKnown).symm.trans taken⟩

end Built

/-- The first part loses the group with one of its members; what the other member needs is then the
same in that part as in the graph. -/
theorem part_of_part_fork :
    ∃ graph part result, build relayTensors forkOperations ⟨8, 8⟩ = .ok graph ∧
      (∀ name ∈ [3], name ∈ graph.tensorList.map Tensor.id) ∧
      graph.subgraphExact [3] = .ok part ∧ part.operationList.map Operation.id = [7, 8] ∧
      part.subgraphExact [3] = .ok part ∧
      (∀ name ∈ [1], name ∈ part.tensorList.map Tensor.id) ∧
      part.subgraphExact [1] = .ok result ∧ graph.subgraphExact [1] = .ok result := by
  obtain ⟨graph, built, tensors, part, taken, operations, keptTensors⟩ :
      ∃ graph, build relayTensors forkOperations ⟨8, 8⟩ = .ok graph ∧
        graph.tensorList.map Tensor.id = [0, 1, 2, 3, 4] ∧
        ∃ part, graph.subgraphExact [3] = .ok part ∧
          part.operationList.map Operation.id = [7, 8] ∧
          part.tensorList.map Tensor.id = [0, 1, 2, 3] := ⟨_, rfl, rfl, _, rfl, rfl, rfl⟩
  have known : ∀ name ∈ [3], name ∈ graph.tensorList.map Tensor.id := by simp [tensors]
  have keptKnown : ∀ name ∈ [1], name ∈ part.tensorList.map Tensor.id := by simp [keptTensors]
  obtain ⟨_, takenOnce, takenTwice, composes⟩ := part_of_part built known
  obtain rfl := Except.ok.inj (taken.symm.trans takenOnce)
  obtain ⟨result, fromPart, fromGraph⟩ := composes [1] keptKnown
  exact ⟨graph, part, result, built, known, taken, operations, takenTwice, keptKnown, fromPart,
    fromGraph⟩

end Graph

end TensorGraph
