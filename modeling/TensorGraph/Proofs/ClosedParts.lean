import TensorGraph.Proofs.Acceptance
import TensorGraph.Proofs.BackwardClosure
import TensorGraph.Proofs.Extraction

/-!
Parts of a graph that lack nothing: each operation comes with its operands, and each group marker
with its members. Such a part passes every check of building, so only its capacity decides whether
it can be built. What a set of wanted tensors depends on is such a part.
-/

namespace TensorGraph

open Operation (ids)

namespace Graph

structure Closed (graph : Graph) (tensors : List Tensor) (operations : List Operation) : Prop where
  tensorsKept : tensors.Sublist graph.tensorList
  operationsKept : operations.Sublist graph.operationList
  operands : ∀ operation ∈ operations, ∀ tensor ∈ graph.tensorList,
    operation.reads tensor.id = true ∨ operation.writes tensor.id = true → tensor ∈ tensors
  members : ∀ marker ∈ operations, ∀ member ∈ graph.operationList,
    member.id ∈ marker.memberIds → member ∈ operations

namespace Closed

variable {tensors kept : List Tensor} {operations keptOperations : List Operation}
  {whole capacity : Capacity} {graph : Graph}

theorem arranged (closed : graph.Closed kept keptOperations)
    (built : build tensors operations whole = .ok graph) : Grouping.Arranged keptOperations := by
  have isArranged := arranged_of_build built
  refine isArranged.of_sublist (wellFormed_of_build built).operationIds closed.operationsKept ?_
  -- A member that a kept marker names is in the graph, and so it is kept as well.
  intro id isClaimed
  obtain ⟨marker, markerKept, listed⟩ := Grouping.mem_claimed.mp isClaimed
  have inGraph : id ∈ ids graph.operationList := Grouping.mem_ids_of_placed isArranged.placed
    (Grouping.mem_claimed.mpr ⟨marker, closed.operationsKept.subset markerKept, listed⟩)
  obtain ⟨member, present, same⟩ := List.mem_map.mp inGraph
  subst same
  exact List.mem_map_of_mem (closed.members marker markerKept member present listed)

theorem sound (closed : graph.Closed kept keptOperations)
    (built : build tensors operations whole = .ok graph) :
    Connections.Sound (kept.map fun tensor => tensor.id) keptOperations := by
  refine (sound_of_build built).of_sublist closed.operationsKept ?_
  intro operation member name known operand
  obtain ⟨tensor, present, same⟩ := List.mem_map.mp known
  subst same
  exact List.mem_map_of_mem (closed.operands operation member tensor present operand)

theorem exists_build_iff (closed : graph.Closed kept keptOperations)
    (built : build tensors operations whole = .ok graph) :
    (∃ part, build kept keptOperations capacity = .ok part) ↔
      kept.length ≤ capacity.tensors.toNat ∧
        keptOperations.length ≤ capacity.operations.toNat := by
  rw [Graph.exists_build_iff]
  constructor
  · rintro ⟨acceptable, _⟩
    exact ⟨acceptable.tensorCount, acceptable.operationCount⟩
  · -- Besides the capacity, what is asked of all is asked of some that refer to nothing outside.
    rintro ⟨tensorCount, operationCount⟩
    have acceptable := (build_ok_iff.mp (build_descriptors built)).1
    have keptAcceptable := acceptable.of_sublist closed.tensorsKept closed.operationsKept
      tensorCount operationCount
    exact ⟨keptAcceptable, (closed.arranged built).sound keptAcceptable.operationIds,
      closed.sound built, (acyclic_of_build built).of_subset closed.operationsKept.subset⟩

end Closed

variable {graph : Graph} {wanted : List Nat} {marks : Reachability}

theorem closed_keepMarked (wellFormed : graph.WellFormed) (exact : marks.Exact graph wanted) :
    graph.Closed (keepMarked graph.tensorList marks.tensors)
      (keepMarked graph.operationList marks.operations) where
  tensorsKept := keepMarked_sublist _ _
  operationsKept := keepMarked_sublist _ _
  operands := by
    intro operation kept tensor present operand
    obtain ⟨position, found, marked⟩ := mem_keepMarked.mp kept
    obtain ⟨node, nodeFound, same⟩ := WellFormed.operationList_getElem?.mp found
    obtain ⟨index, tensorFound⟩ := List.mem_iff_getElem?.mp present
    obtain ⟨tensorNode, tensorNodeFound, sameTensor⟩ :=
      WellFormed.tensorList_getElem?.mp tensorFound
    subst same sameTensor
    have listed := List.mem_of_getElem? nodeFound
    refine mem_keepMarked.mpr ⟨index, tensorFound, (exact.tensors index).mpr (Or.inr
      ⟨position, node, nodeFound, marked, operand.imp ?_ ?_⟩)⟩
    · exact fun reads => (wellFormed.mem_inputs_iff listed).mpr ⟨_, tensorNodeFound, reads⟩
    · exact fun writes => (wellFormed.mem_outputs_iff listed).mpr ⟨_, tensorNodeFound, writes⟩
  members := by
    intro marker kept member present listed
    obtain ⟨header, found, marked⟩ := mem_keepMarked.mp kept
    obtain ⟨position, memberFound⟩ := List.mem_iff_getElem?.mp present
    have isGroup := Operation.isGroup_of_mem_memberIds listed
    rw [Operation.memberIds_of_isGroup isGroup] at listed
    exact mem_keepMarked.mpr ⟨position, memberFound,
      (exact.markers header marker found isGroup).mp marked position member memberFound listed⟩

structure PartOf (part graph : Graph) (marks : Reachability) : Prop where
  tensors : part.tensorList = keepMarked graph.tensorList marks.tensors
  operations : part.operationList = keepMarked graph.operationList marks.operations
  markers : ∀ marker ∈ graph.operationList, marker.isGroup = true →
    (marker ∈ part.operationList ↔ ∀ member ∈ graph.operationList,
      member.id ∈ marker.inputs → member ∈ part.operationList)
  ordered : graph.isOrdered = true → part.isOrdered = true

theorem mem_kept_marker_iff (wellFormed : graph.WellFormed) (exact : marks.Exact graph wanted)
    {marker : Operation} (present : marker ∈ graph.operationList)
    (isGroup : marker.isGroup = true) :
    marker ∈ keepMarked graph.operationList marks.operations ↔
      ∀ member ∈ graph.operationList, member.id ∈ marker.inputs →
        member ∈ keepMarked graph.operationList marks.operations := by
  have unique := wellFormed.operationIds.of_map
  obtain ⟨header, found⟩ := List.mem_iff_getElem?.mp present
  rw [mem_keepMarked_iff_getElem? unique found, exact.markers header marker found isGroup]
  constructor
  · intro allMarked member memberPresent listed
    obtain ⟨position, memberFound⟩ := List.mem_iff_getElem?.mp memberPresent
    exact mem_keepMarked.mpr ⟨position, memberFound, allMarked position member memberFound listed⟩
  · intro allKept position member memberFound listed
    exact (mem_keepMarked_iff_getElem? unique memberFound).mp
      (allKept member (List.mem_of_getElem? memberFound) listed)

theorem length_kept (exact : marks.Exact graph wanted) :
    (keepMarked graph.tensorList marks.tensors).length = marks.size.tensors ∧
      (keepMarked graph.operationList marks.operations).length = marks.size.operations :=
  ⟨length_keepMarked (by rw [exact.tensorCount, tensorList, List.length_map]),
    length_keepMarked (by rw [exact.operationCount, operationList, List.length_map])⟩

theorem toNat_capacity_size (wellFormed : graph.WellFormed) (exact : marks.Exact graph wanted) :
    marks.size.capacity.tensors.toNat = marks.size.tensors ∧
      marks.size.capacity.operations.toNat = marks.size.operations := by
  have tensorCount : marks.size.tensors ≤ graph.tensors.length :=
    exact.tensorCount ▸ List.count_le_length
  have operationCount : marks.size.operations ≤ graph.operations.length :=
    exact.operationCount ▸ List.count_le_length
  exact ⟨UInt64.toNat_ofNat_of_lt' (Nat.lt_of_le_of_lt
      (Nat.le_trans tensorCount wellFormed.tensorCount) graph.capacity.tensors.toNat_lt),
    UInt64.toNat_ofNat_of_lt' (Nat.lt_of_le_of_lt
      (Nat.le_trans operationCount wellFormed.operationCount) graph.capacity.operations.toNat_lt)⟩

theorem exists_locateTensors {names : List TensorId}
    (known : ∀ name ∈ names, name ∈ graph.tensorList.map Tensor.id) :
    ∃ positions, graph.locateTensors names = .ok positions ∧
      Connections.Named graph.tensorList positions names := by
  induction names with
  | nil => exact ⟨[], rfl, .nil⟩
  | cons name rest ih =>
      obtain ⟨positions, located, named⟩ := ih fun other listed => known other (by simp [listed])
      have present : (graph.tensorIndex? name).isSome = true := by
        simpa [tensorIndex?, tensorList] using known name
      obtain ⟨position, found⟩ := Option.isSome_iff_exists.mp present
      obtain ⟨bound, same, _⟩ := List.findIdx?_eq_some_iff_getElem.mp found
      refine ⟨position :: positions, ?_, .cons ⟨_, ?_, of_decide_eq_true same⟩ named⟩
      · rw [locateTensors, found]
        simp only [located]
        rfl
      · exact WellFormed.tensorList_getElem?.mpr ⟨_, List.getElem?_eq_getElem bound, rfl⟩

theorem exact_of_reachability (wellFormed : graph.WellFormed)
    (reached : graph.reachability wanted = .ok marks) : marks.Exact graph wanted := by
  obtain ⟨inside, same⟩ := reachability_ok_iff.mp reached
  rw [same]
  exact wellFormed.exact_marks inside

theorem subgraphSizeAt_of_reachability (reached : graph.reachability wanted = .ok marks) :
    graph.subgraphSizeAt wanted = .ok marks.size := by
  rw [subgraphSizeAt, reached]
  rfl

theorem lt_of_named {names : List TensorId}
    (named : Connections.Named graph.tensorList wanted names) :
    ∀ index ∈ wanted, index < graph.tensors.length := by
  intro index member
  obtain ⟨_, _, _, found, _⟩ := exists_of_forall₂ named member
  have bound := (List.getElem?_eq_some_iff.mp found).1
  rwa [tensorList, List.length_map] at bound

section Built

variable {tensors : List Tensor} {operations : List Operation} {whole capacity : Capacity}

theorem subgraphAt_ok_iff (reached : graph.reachability wanted = .ok marks) {part : Graph} :
    graph.subgraphAt wanted capacity = .ok part ↔
      build (keepMarked graph.tensorList marks.tensors)
        (keepMarked graph.operationList marks.operations) capacity = .ok part := by
  rw [subgraphAt, reached]
  rfl

theorem exists_subgraphAt_iff (built : build tensors operations whole = .ok graph)
    (reached : graph.reachability wanted = .ok marks) :
    (∃ part, graph.subgraphAt wanted capacity = .ok part) ↔
      capacity.fits marks.size.tensors marks.size.operations = true := by
  have exact := exact_of_reachability (wellFormed_of_build built) reached
  have closed := closed_keepMarked (wellFormed_of_build built) exact
  obtain ⟨tensorCount, operationCount⟩ := length_kept exact
  simp only [subgraphAt_ok_iff reached, closed.exists_build_iff built, tensorCount, operationCount,
    Capacity.fits, Bool.and_eq_true, decide_eq_true_eq]

/-- The groups of a part are arranged already, so building it moves nothing. -/
theorem exists_connected_of_subgraphAt (built : build tensors operations whole = .ok graph)
    (reached : graph.reachability wanted = .ok marks) {part : Graph}
    (extracted : graph.subgraphAt wanted capacity = .ok part) :
    ∃ ranks, part = connected capacity (keepMarked graph.tensorList marks.tensors)
      (keepMarked graph.operationList marks.operations) ranks := by
  have wellFormed := wellFormed_of_build built
  have closed := closed_keepMarked wellFormed (exact_of_reachability wellFormed reached)
  exact exists_connected_of_arranged ((subgraphAt_ok_iff reached).mp extracted)
    (closed.arranged built)

theorem cutFrom_of_subgraphAt (built : build tensors operations whole = .ok graph) {part : Graph}
    (extracted : graph.subgraphAt wanted capacity = .ok part) : part.CutFrom graph := by
  obtain ⟨marks, reached, _⟩ := bind_eq_ok_iff.mp extracted
  obtain ⟨ranks, same⟩ := exists_connected_of_subgraphAt built reached extracted
  rw [same]
  constructor
  case tensors =>
    rw [connected_tensorList]
    exact keepMarked_sublist _ _
  case operations =>
    rw [connected_operationList]
    exact keepMarked_sublist _ _
  case writersKept =>
    rw [connected_tensorList, connected_operationList]
    intro operation member tensor kept writes
    exact (wellFormed_of_build built).mem_keepMarked_of_writes reached member kept writes

theorem partOf_of_subgraphAt (built : build tensors operations whole = .ok graph)
    (reached : graph.reachability wanted = .ok marks) {part : Graph}
    (extracted : graph.subgraphAt wanted capacity = .ok part) :
    part.PartOf graph marks ∧ part.capacity = capacity := by
  have wellFormed := wellFormed_of_build built
  obtain ⟨ranks, same⟩ := exists_connected_of_subgraphAt built reached extracted
  have sameOperations : part.operationList = keepMarked graph.operationList marks.operations := by
    rw [same, connected_operationList]
  refine ⟨⟨by rw [same, connected_tensorList], sameOperations, ?_, ?_⟩, by rw [same]; rfl⟩
  · intro marker present isGroup
    rw [sameOperations]
    exact mem_kept_marker_iff wellFormed (exact_of_reachability wellFormed reached) present isGroup
  · rw [isOrdered_iff, isOrdered_iff]
    exact (cutFrom_of_subgraphAt built extracted).ordered wellFormed
      (wellFormed_of_build ((subgraphAt_ok_iff reached).mp extracted))

theorem closed_of_subgraphAt (built : build tensors operations whole = .ok graph) {part : Graph}
    (extracted : graph.subgraphAt wanted capacity = .ok part) :
    graph.Closed part.tensorList part.operationList := by
  have wellFormed := wellFormed_of_build built
  obtain ⟨marks, reached, _⟩ := bind_eq_ok_iff.mp extracted
  obtain ⟨isPart, _⟩ := partOf_of_subgraphAt built reached extracted
  rw [isPart.tensors, isPart.operations]
  exact closed_keepMarked wellFormed (exact_of_reachability wellFormed reached)

theorem exists_subgraphExact (built : build tensors operations whole = .ok graph)
    {names : List TensorId} (located : graph.locateTensors names = .ok wanted)
    (reached : graph.reachability wanted = .ok marks) :
    ∃ part, graph.subgraphExact names = .ok part ∧ part.PartOf graph marks ∧
      part.capacity.tensors.toNat = part.tensors.length ∧
      part.capacity.operations.toNat = part.operations.length := by
  have wellFormed := wellFormed_of_build built
  have exact := exact_of_reachability wellFormed reached
  obtain ⟨tensorRoom, operationRoom⟩ := toNat_capacity_size wellFormed exact
  obtain ⟨tensorCount, operationCount⟩ := length_kept exact
  have room : marks.size.capacity.fits marks.size.tensors marks.size.operations = true := by
    simp [Capacity.fits, tensorRoom, operationRoom]
  obtain ⟨part, extracted⟩ := (exists_subgraphAt_iff built reached).mpr room
  obtain ⟨isPart, sameCapacity⟩ := partOf_of_subgraphAt built reached extracted
  refine ⟨part, ?_, isPart, ?_, ?_⟩
  · simp only [subgraphExact, bind_eq_ok_iff]
    exact ⟨wanted, located, marks.size, subgraphSizeAt_of_reachability reached, extracted⟩
  · rw [sameCapacity, tensorRoom, ← tensorCount, ← isPart.tensors, tensorList, List.length_map]
  · rw [sameCapacity, operationRoom, ← operationCount, ← isPart.operations, operationList,
      List.length_map]

/-- A part can be built whenever there is room for what is marked, and then holds exactly that. -/
theorem part_exists_iff_room (built : build tensors operations whole = .ok graph) :
    (∀ (wanted : List Nat) (capacity : Capacity),
      (∀ index ∈ wanted, index < graph.tensors.length) →
        ∃ marks, graph.reachability wanted = .ok marks ∧
          graph.subgraphSizeAt wanted = .ok marks.size ∧
          ((∃ part, graph.subgraphAt wanted capacity = .ok part) ↔
            capacity.fits marks.size.tensors marks.size.operations = true) ∧
          ∀ part, graph.subgraphAt wanted capacity = .ok part →
            part.PartOf graph marks ∧ part.capacity = capacity) ∧
    ∀ names : List TensorId, (∀ name ∈ names, name ∈ graph.tensorList.map Tensor.id) →
      ∃ wanted marks part, Connections.Named graph.tensorList wanted names ∧
        graph.reachability wanted = .ok marks ∧ graph.subgraphExact names = .ok part ∧
        part.PartOf graph marks ∧ part.capacity.tensors.toNat = part.tensors.length ∧
        part.capacity.operations.toNat = part.operations.length := by
  constructor
  · intro wanted capacity inside
    have reached := reachability_ok_iff.mpr ⟨inside, rfl⟩
    exact ⟨_, reached, subgraphSizeAt_of_reachability reached, exists_subgraphAt_iff built reached,
      fun part extracted => partOf_of_subgraphAt built reached extracted⟩
  · intro names known
    obtain ⟨wanted, located, named⟩ := exists_locateTensors known
    have reached := reachability_ok_iff.mpr ⟨lt_of_named named, rfl⟩
    obtain ⟨part, extracted, holds⟩ := exists_subgraphExact built located reached
    exact ⟨wanted, _, part, named, reached, extracted, holds⟩

end Built

theorem part_exists_iff_room_fork :
    ∃ graph, build relayTensors forkOperations ⟨8, 8⟩ = .ok graph ∧
      (∃ part, graph.subgraphAt [3] ⟨4, 2⟩ = .ok part) ∧
      (¬∃ part, graph.subgraphAt [3] ⟨4, 1⟩ = .ok part) ∧
      ∃ wanted marks part, Connections.Named graph.tensorList wanted [4, 3] ∧
        graph.reachability wanted = .ok marks ∧ graph.subgraphExact [4, 3] = .ok part ∧
        part.PartOf graph marks ∧ part.capacity.tensors.toNat = part.tensors.length ∧
        part.capacity.operations.toNat = part.operations.length := by
  obtain ⟨graph, built, tensorCount, sizeOfOne, sameTensors⟩ :
      ∃ graph, build relayTensors forkOperations ⟨8, 8⟩ = .ok graph ∧ graph.tensors.length = 5 ∧
        graph.subgraphSizeAt [3] = .ok ⟨4, 2⟩ ∧ graph.tensorList = relayTensors :=
    ⟨_, rfl, rfl, rfl, rfl⟩
  have known : ∀ name ∈ [4, 3], name ∈ graph.tensorList.map Tensor.id := by
    simp [sameTensors, relayTensors, Tensor.scalar]
  obtain ⟨roomDecides, exactly⟩ := part_exists_iff_room built
  have decided : ∀ capacity : Capacity, (∃ part, graph.subgraphAt [3] capacity = .ok part) ↔
      capacity.fits 4 2 = true := by
    intro capacity
    obtain ⟨marks, _, sized, room, _⟩ := roomDecides [3] capacity (by simp [tensorCount])
    rw [sizeOfOne] at sized
    rwa [← Except.ok.inj sized] at room
  refine ⟨graph, built, (decided _).mpr (by decide), ?_, exactly [4, 3] known⟩
  rw [decided]
  decide

end Graph

end TensorGraph
