import Mathlib.Data.List.Flatten
import TensorGraph.Proofs.NestedParts
import TensorGraph.Proofs.Resorting

/-!
Sorting a part. If taking the part dissolved no group, then the part consists of blocks of the
graph, and these keep their rankings. Sorting them alone puts them in the order that they have in
the sorted graph, so it makes no difference which is done first, sorting or taking the part.
-/

namespace TensorGraph

namespace Schedule

theorem arrange_of_unpinned {blocks : List Block} {rankings : List Ranking}
    (free : ∀ block ∈ blocks, block.isPinned = false) :
    arrange blocks rankings =
      (StableSort.sort (fun entry => entry.2.key) (blocks.zip rankings)).map Prod.fst := by
  rw [arrange, sortRuns_of_unpinned, List.nil_append]
  exact fun entry listed => free entry.1 (List.of_mem_zip listed).1

/-- Some blocks with their rankings are arranged among themselves as they are among all. -/
theorem map_operations_arrange {blocks others : List Block} {rankings : List Ranking}
    (free : ∀ block ∈ blocks, block.isPinned = false)
    (othersFree : ∀ block ∈ others, block.isPinned = false) (keep : Block → Bool)
    (same : others.map Block.operations =
      ((blocks.zip rankings).filter fun entry => keep entry.1).map fun entry =>
        entry.1.operations) :
    (arrange others (((blocks.zip rankings).filter fun entry => keep entry.1).map Prod.snd)).map
        Block.operations =
      ((arrange blocks rankings).filter keep).map Block.operations := by
  -- Both sides are sorts of one list of operations with rankings.
  have sorted (entries : List (Block × Ranking)) :
      ((StableSort.sort (fun entry => entry.2.key) entries).map Prod.fst).map Block.operations =
        (StableSort.sort (fun entry => entry.2.key)
          (entries.map fun entry => (entry.1.operations, entry.2))).map Prod.fst := by
    rw [StableSort.sort_map (fun entry : Block × Ranking => (entry.1.operations, entry.2)),
      List.map_map, List.map_map]
    rfl
  generalize chosen : (blocks.zip rankings).filter (fun entry => keep entry.1) = entries at same ⊢
  have paired : (others.zip (entries.map Prod.snd)).map
      (fun entry => (entry.1.operations, entry.2)) =
        entries.map fun entry => (entry.1.operations, entry.2) := by
    have zipped := @List.zip_map' _ _ _ (fun entry : Block × Ranking => entry.1.operations)
      Prod.snd entries
    rw [← zipped, ← same, List.zip_map_left]
    rfl
  rw [arrange_of_unpinned free, arrange_of_unpinned othersFree, sorted, paired, ← sorted, ← chosen,
    StableSort.sort_filter _ (fun entry : Block × Ranking => keep entry.1), List.filter_map]
  rfl

end Schedule

namespace Block

theorem isPinned_of_unpinned {block : Block}
    (free : ∀ operation ∈ block.operations, operation.isPinned = false) :
    block.isPinned = false := by
  obtain ⟨start, nodes⟩ := block
  cases nodes with
  | nil => rfl
  | cons head members =>
      have headFree : head.operation.isPinned = false := free _ (by simp [operations])
      by_cases isGroup : head.operation.isGroup = true
      · simp [isPinned, marker?, isGroup, headFree]
      · simp [isPinned, marker?, isGroup]

end Block

namespace Graph

def KeepsGroupsWhole (graph part : Graph) : Prop :=
  ∀ marker ∈ graph.operationList, marker.isGroup = true →
    (∀ member ∈ graph.operationList, member.id ∈ marker.inputs → member ∈ part.operationList) ∨
      ∀ member ∈ graph.operationList, member.id ∈ marker.inputs → member ∉ part.operationList

variable {graph part : Graph} {marks : Reachability}

theorem mem_operationList_of_block {block : Block} (present : block ∈ graph.blocks)
    {operation : Operation} (listed : operation ∈ block.operations) :
    operation ∈ graph.operationList := by
  rw [operationList, ← flatMap_blocks, ← Block.flatMap_operations]
  exact List.mem_flatMap_of_mem present listed

theorem PartOf.mem_of_block (isPart : part.PartOf graph marks)
    (arranged : Grouping.Arranged graph.operationList) (whole : graph.KeepsGroupsWhole part)
    {block : Block} (present : block ∈ graph.blocks) {first second : Operation}
    (firstListed : first ∈ block.operations) (secondListed : second ∈ block.operations)
    (kept : first ∈ part.operationList) : second ∈ part.operationList := by
  have inGraph {operation : Operation} (listed : operation ∈ block.operations) :=
    mem_operationList_of_block present listed
  obtain ⟨head, members, nodes, listed, _⟩ := headed_of_mem_blocks arranged block present
  have operations : block.operations =
      head.operation :: members.map OperationNode.operation := by
    rw [Block.operations, nodes, List.map_cons]
  rw [operations] at inGraph firstListed secondListed
  have isMember {operation : Operation} (within : operation ∈ members.map OperationNode.operation) :
      operation.id ∈ head.operation.memberIds := listed ▸ List.mem_map_of_mem within
  cases isGroup : head.operation.isGroup with
  | false =>
      rw [Operation.memberIds_of_not_isGroup isGroup] at listed
      rw [List.map_eq_nil_iff.mp listed, List.mem_singleton] at firstListed secondListed
      rwa [secondListed, ← firstListed]
  | true =>
      rw [Operation.memberIds_of_isGroup isGroup] at isMember
      have headIn : head.operation ∈ graph.operationList := inGraph (by simp)
      have marker_iff := isPart.markers head.operation headIn isGroup
      have allKept : ∀ member ∈ graph.operationList, member.id ∈ head.operation.inputs →
          member ∈ part.operationList := by
        rcases List.mem_cons.mp firstListed with rfl | within
        · exact marker_iff.mp kept
        · exact (whole head.operation headIn isGroup).resolve_right fun noneKept =>
            noneKept first (inGraph firstListed) (isMember within) kept
      rcases List.mem_cons.mp secondListed with rfl | within
      · exact marker_iff.mpr allKept
      · exact allKept second (inGraph secondListed) (isMember within)

def keepsBlock (part : Graph) (block : Block) : Bool :=
  block.operations.all fun operation => operation ∈ part.operationList

theorem PartOf.operationList_eq (isPart : part.PartOf graph marks)
    (wellFormed : graph.WellFormed) (arranged : Grouping.Arranged graph.operationList)
    (whole : graph.KeepsGroupsWhole part) :
    part.operationList = (graph.blocks.filter part.keepsBlock).flatMap Block.operations := by
  have listed : graph.operationList = graph.blocks.flatMap Block.operations := by
    rw [Block.flatMap_operations, flatMap_blocks, operationList]
  refine eq_of_same_members wellFormed.operationIds.of_map ?_ ?_ fun operation present => ?_
  · rw [isPart.operations]
    exact keepMarked_sublist _ _
  · rw [listed]
    exact List.filter_sublist.flatMap _
  · simp only [List.mem_flatMap, List.mem_filter, keepsBlock, List.all_eq_true, decide_eq_true_iff]
    constructor
    · intro kept
      rw [listed] at present
      obtain ⟨block, blockPresent, within⟩ := List.mem_flatMap.mp present
      exact ⟨block, ⟨blockPresent, fun other otherWithin =>
        isPart.mem_of_block arranged whole blockPresent within otherWithin kept⟩, within⟩
    · rintro ⟨block, ⟨_, all⟩, within⟩
      exact all operation within

theorem PartOf.map_operations_blocks (isPart : part.PartOf graph marks)
    (wellFormed : graph.WellFormed) (arranged : Grouping.Arranged graph.operationList)
    (whole : graph.KeepsGroupsWhole part) :
    part.blocks.map Block.operations =
      (graph.blocks.filter part.keepsBlock).map Block.operations :=
  @map_blocksFrom _ OperationNode.operation (fun {_ _} same => same) _
    (fun block kept => headed_of_mem_blocks arranged block (List.mem_filter.mp kept).1) _
    (isPart.operationList_eq wellFormed arranged whole) 0

section Built

variable {tensors : List Tensor} {operations : List Operation} {whole capacity : Capacity}
  {wanted : List Nat}

theorem madeOfBlocks_of_subgraphAt (built : build tensors operations whole = .ok graph)
    (extracted : graph.subgraphAt wanted capacity = .ok part)
    (keepsGroups : graph.KeepsGroupsWhole part) : part.MadeOfBlocks graph where
  blocks image present := by
    obtain ⟨marks, reached, _⟩ := bind_eq_ok_iff.mp extracted
    obtain ⟨isPart, _⟩ := partOf_of_subgraphAt built reached extracted
    have listed : image.operations ∈ part.blocks.map Block.operations :=
      List.mem_map_of_mem present
    rw [isPart.map_operations_blocks (wellFormed_of_build built) (arranged_of_build built)
      keepsGroups] at listed
    obtain ⟨block, kept, same⟩ := List.mem_map.mp listed
    exact ⟨block, (List.mem_filter.mp kept).1, same⟩
  writers reader kept name reads writer present writes := by
    have cut := cutFrom_of_subgraphAt built extracted
    obtain ⟨tensor, known, rfl⟩ := List.mem_map.mp
      ((sound_of_build built).inputsKnown reader (cut.operations.subset kept) name reads)
    have tensorKept :=
      (closed_of_subgraphAt built extracted).operands reader kept tensor known (Or.inl reads)
    exact cut.writersKept writer present tensor tensorKept writes

theorem exists_blockRankings_of_subgraphAt (built : build tensors operations whole = .ok graph)
    (unpinned : ∀ operation ∈ graph.operationList, operation.isPinned = false)
    (extracted : graph.subgraphAt wanted capacity = .ok part)
    (keepsGroups : graph.KeepsGroupsWhole part) {rankings : List Ranking}
    (ranked : graph.blockRankings = .ok rankings) :
    ∃ kept, part.blockRankings = .ok kept ∧
      (Schedule.arrange part.blocks kept).flatMap Block.operations =
        ((Schedule.arrange graph.blocks rankings).filter part.keepsBlock).flatMap
          Block.operations := by
  have wellFormed := wellFormed_of_build built
  have made := madeOfBlocks_of_subgraphAt built extracted keepsGroups
  obtain ⟨marks, reached, partBuilt⟩ := bind_eq_ok_iff.mp extracted
  obtain ⟨isPart, _⟩ := partOf_of_subgraphAt built reached extracted
  have free : ∀ block ∈ graph.blocks, block.isPinned = false := fun block present =>
    Block.isPinned_of_unpinned fun operation listed =>
      unpinned operation (mem_operationList_of_block present listed)
  have partFree : ∀ block ∈ part.blocks, block.isPinned = false := fun block present =>
    Block.isPinned_of_unpinned fun operation listed =>
      unpinned operation (made.operation_mem (mem_operationList_of_block present listed))
  have same : part.blocks.map Block.operations =
      ((graph.blocks.zip rankings).filter fun entry => part.keepsBlock entry.1).map fun entry =>
        entry.1.operations := by
    calc part.blocks.map Block.operations
      _ = (graph.blocks.filter part.keepsBlock).map Block.operations :=
        isPart.map_operations_blocks wellFormed (arranged_of_build built) keepsGroups
      _ = (((graph.blocks.zip rankings).map Prod.fst).filter part.keepsBlock).map
          Block.operations := by
        rw [List.map_fst_zip (Nat.le_of_eq (length_of_blockRankings ranked).symm)]
      _ = _ := by
        rw [List.filter_map, List.map_map]
        rfl
  refine ⟨_, made.blockRankings wellFormed (wellFormed_of_build partBuilt) ranked
    (fun _ listed => (List.mem_filter.mp listed).1) same, ?_⟩
  rw [List.flatMap_def, List.flatMap_def,
    Schedule.map_operations_arrange free partFree part.keepsBlock same]

variable {names : List TensorId}

theorem subgraph_of_sorted {rankings : List Ranking} {result : Graph}
    (built : build tensors operations whole = .ok graph)
    (ranked : graph.blockRankings = .ok rankings)
    (rebuilt : build graph.tensorList
      ((Schedule.arrange graph.blocks rankings).flatMap Block.operations) graph.capacity =
        .ok result)
    (known : ∀ name ∈ names, name ∈ graph.tensorList.map Tensor.id)
    (extracted : graph.subgraph names capacity = .ok part)
    (keepsGroups : graph.KeepsGroupsWhole part) :
    ∃ commuted, result.subgraph names capacity = .ok commuted ∧
      build part.tensorList (((Schedule.arrange graph.blocks rankings).filter
        part.keepsBlock).flatMap Block.operations) capacity = .ok commuted := by
  have arranged := arranged_of_build built
  have count := length_of_blockRankings ranked
  obtain ⟨sameTensors, sameOperations⟩ :=
    lists_of_arranged rebuilt (Block.arranged_flatMap (headed_of_mem_arrange arranged count))
  obtain ⟨_, _, extractedAt⟩ := bind_eq_ok_iff.mp extracted
  obtain ⟨marks, reached, partBuilt⟩ := bind_eq_ok_iff.mp extractedAt
  obtain ⟨isPart, _⟩ := partOf_of_subgraphAt built reached extractedAt
  have permuted : (((Schedule.arrange graph.blocks rankings).filter part.keepsBlock).flatMap
      Block.operations).Perm part.operationList := by
    rw [isPart.operationList_eq (wellFormed_of_build built) arranged keepsGroups]
    exact ((Schedule.arrange_perm count).filter _).flatMap_right _
  have movedPart := (partFor_of_subgraph built known extracted).of_perm sameTensors
    (sameOperations ▸ flatMap_arrange_perm count)
    (sameOperations ▸ List.filter_sublist.flatMap _) permuted
  obtain ⟨_, _, inResult, closed, taken, _⟩ := exists_partFor rebuilt (sameTensors ▸ known)
  obtain ⟨rfl, rfl⟩ := inResult.unique movedPart (wellFormed_of_build rebuilt)
  -- The part itself was built, so there is room for what is the same up to order.
  have fits := ((closed_of_subgraphAt built extractedAt).exists_build_iff built).mp
    ⟨part, by rw [isPart.tensors, isPart.operations]; exact partBuilt⟩
  obtain ⟨commuted, commutedBuilt⟩ :=
    (closed.exists_build_iff rebuilt).mpr (permuted.length_eq ▸ fits)
  exact ⟨commuted, (taken capacity).trans commutedBuilt, commutedBuilt⟩

/-- Without pinned groups, sorting a part that takes every group as a whole or leaves it out is
taking that part of the sorted graph. -/
theorem sorted_part {result : Graph} {size : PartSize}
    (built : build tensors operations whole = .ok graph)
    (unpinned : ∀ operation ∈ graph.operationList, operation.isPinned = false)
    (sorted : graph.sorted = .ok result)
    (known : ∀ name ∈ names, name ∈ graph.tensorList.map Tensor.id)
    (sized : graph.subgraphSize names = .ok size)
    (room : capacity.fits size.tensors size.operations = true) :
    ∃ part, graph.subgraph names capacity = .ok part ∧
      (graph.KeepsGroupsWhole part → ∃ commuted, part.sorted = .ok commuted ∧
        result.subgraph names capacity = .ok commuted) := by
  obtain ⟨rankings, ranked, rebuilt, ordered⟩ := sorted_ok_iff.mp sorted
  obtain ⟨_, _, _, closed, taken, sameSize⟩ := exists_partFor built known
  rw [sameSize] at sized
  cases sized
  obtain ⟨part, partBuilt⟩ := (closed.exists_build_iff built).mpr
    (by simpa [Capacity.fits] using room)
  have extracted := (taken capacity).trans partBuilt
  refine ⟨part, extracted, fun keepsGroups => ?_⟩
  obtain ⟨_, _, extractedAt⟩ := bind_eq_ok_iff.mp extracted
  obtain ⟨_, partRanked, sameOrder⟩ :=
    exists_blockRankings_of_subgraphAt built unpinned extractedAt keepsGroups ranked
  obtain ⟨marks, reached, _⟩ := bind_eq_ok_iff.mp extractedAt
  obtain ⟨_, sameCapacity⟩ := partOf_of_subgraphAt built reached extractedAt
  obtain ⟨commuted, takenLater, commutedBuilt⟩ :=
    subgraph_of_sorted built ranked rebuilt known extracted keepsGroups
  refine ⟨commuted, sorted_ok_iff.mpr ⟨_, partRanked, ?_, ?_⟩, takenLater⟩
  · rw [sameOrder, sameCapacity]
    exact commutedBuilt
  · -- A part of an ordered graph is ordered.
    obtain ⟨_, _, takenAt⟩ := bind_eq_ok_iff.mp takenLater
    exact (cutFrom_of_subgraphAt rebuilt takenAt).ordered (wellFormed_of_build rebuilt)
      (wellFormed_of_build commutedBuilt) ordered

end Built

def gatheredOperations : List Operation :=
  [relayCopy 3 2 3, relaySum, { relayMarker with kind := .group false, inputs := [2, 1] },
    relayCopy 2 0 1, relayCopy 1 1 2]

theorem sorted_part_gathered :
    ∃ graph result part commuted, build relayTensors gatheredOperations ⟨8, 8⟩ = .ok graph ∧
      graph.sorted = .ok result ∧ graph.subgraph [3] ⟨4, 4⟩ = .ok part ∧
      part.operationList.map Operation.id = [3, 10, 2, 1] ∧ graph.KeepsGroupsWhole part ∧
      commuted.operationList.map Operation.id = [10, 2, 1, 3] ∧
      part.sorted = .ok commuted ∧ result.subgraph [3] ⟨4, 4⟩ = .ok commuted := by
  obtain ⟨graph, built, result, sorted, listed, size, sized, room, sameTensors, part, taken,
      kept, commuted, sortedPart, order⟩ :
      ∃ graph, build relayTensors gatheredOperations ⟨8, 8⟩ = .ok graph ∧
        ∃ result, graph.sorted = .ok result ∧ graph.operationList = gatheredOperations ∧
        ∃ size : PartSize, graph.subgraphSize [3] = .ok size ∧
          (⟨4, 4⟩ : Capacity).fits size.tensors size.operations = true ∧
          graph.tensorList.map Tensor.id = [0, 1, 2, 3, 4] ∧
        ∃ part, graph.subgraph [3] ⟨4, 4⟩ = .ok part ∧
          part.operationList = gatheredOperations.eraseIdx 1 ∧
        ∃ commuted, part.sorted = .ok commuted ∧
          commuted.operationList.map Operation.id = [10, 2, 1, 3] :=
    ⟨_, rfl, _, rfl, rfl, _, rfl, by decide, rfl, _, rfl, rfl, _, rfl, by decide⟩
  have unpinned : ∀ operation ∈ graph.operationList, operation.isPinned = false := by
    rw [listed]
    decide
  have known : ∀ name ∈ [3], name ∈ graph.tensorList.map Tensor.id := by simp [sameTensors]
  have keepsGroups : graph.KeepsGroupsWhole part := by
    rw [KeepsGroupsWhole, listed, kept]
    decide
  obtain ⟨samePart, takenAgain, commutes⟩ := sorted_part built unpinned sorted known sized room
  obtain rfl := Except.ok.inj (taken.symm.trans takenAgain)
  obtain ⟨sameCommuted, sortedAgain, takenLater⟩ := commutes keepsGroups
  obtain rfl := Except.ok.inj (sortedPart.symm.trans sortedAgain)
  exact ⟨graph, result, part, commuted, built, sorted, taken, by rw [kept]; rfl, keepsGroups,
    order, sortedPart, takenLater⟩

end Graph

end TensorGraph
