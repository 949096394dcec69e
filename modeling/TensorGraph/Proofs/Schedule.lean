import TensorGraph.Proofs.Blocks
import TensorGraph.Proofs.Obtained
import TensorGraph.Proofs.Order
import TensorGraph.Proofs.Runs

/-!
Sorting a graph reorders its operations and nothing else, such that producers come first, groups
stay together, and pinned groups stay where they are.
-/

namespace TensorGraph

open Operation (ids)

/-- Pinned groups stand where they stood, and no operation has passed one of them. -/
def KeepsPinned (before after : List Operation) : Prop :=
  ∀ header marker, before[header]? = some marker → marker.isPinned = true →
    (after.drop header).take (marker.inputs.length + 1) =
        (before.drop header).take (marker.inputs.length + 1) ∧
      (after.take header).Perm (before.take header) ∧
      (after.drop (header + (marker.inputs.length + 1))).Perm
        (before.drop (header + (marker.inputs.length + 1)))

namespace Graph

theorem sorted_ok_iff {graph result : Graph} :
    graph.sorted = .ok result ↔ ∃ rankings, graph.blockRankings = .ok rankings ∧
      build graph.tensorList
        ((Schedule.arrange graph.blocks rankings).flatMap Block.operations) graph.capacity =
          .ok result ∧
      result.Ordered := by
  simp only [Graph.sorted, bind_eq_ok_iff, pure, Except.pure]
  constructor
  · rintro ⟨rankings, ranked, built, isBuilt, _, checked, same⟩
    cases same
    exact ⟨rankings, ranked, isBuilt, checkOrder_ok_iff.mp checked⟩
  · rintro ⟨rankings, ranked, isBuilt, ordered⟩
    exact ⟨rankings, ranked, result, isBuilt, (), checkOrder_ok_iff.mpr ordered, rfl⟩

theorem headed_of_mem_arrange {graph : Graph} (arranged : Grouping.Arranged graph.operationList)
    {rankings : List Ranking} (ranked : rankings.length = graph.blocks.length) :
    ∀ block ∈ Schedule.arrange graph.blocks rankings, block.Headed := by
  intro block present
  exact headed_of_mem_blocks arranged block ((Schedule.arrange_perm ranked).mem_iff.mp present)

theorem sorted_ok {graph result : Graph} (arranged : Grouping.Arranged graph.operationList)
    (sorted : graph.sorted = .ok result) :
    ∃ rankings ranks, rankings.length = graph.blocks.length ∧
      result = connected graph.capacity graph.tensorList
        ((Schedule.arrange graph.blocks rankings).flatMap Block.operations) ranks ∧
      result.Ordered := by
  obtain ⟨rankings, ranked, isBuilt, ordered⟩ := sorted_ok_iff.mp sorted
  have ranksCount := length_of_blockRankings ranked
  have headed := headed_of_mem_arrange arranged ranksCount
  obtain ⟨ranks, same⟩ := exists_connected_of_arranged isBuilt (Block.arranged_flatMap headed)
  exact ⟨rankings, ranks, ranksCount, same, ordered⟩

theorem flatMap_arrange_perm {graph : Graph} {rankings : List Ranking}
    (ranked : rankings.length = graph.blocks.length) :
    ((Schedule.arrange graph.blocks rankings).flatMap Block.operations).Perm
      graph.operationList := by
  have moved := (Schedule.arrange_perm ranked).flatMap_right Block.operations
  rwa [Block.flatMap_operations graph.blocks, flatMap_blocks] at moved

theorem sections_eq {α : Type} {first middle : List α} (last : List α) {start count : Nat}
    (firstLength : first.length = start) (middleLength : middle.length = count) :
    (first ++ (middle ++ last)).take start = first ∧
      ((first ++ (middle ++ last)).drop start).take count = middle ∧
      (first ++ (middle ++ last)).drop (start + count) = last := by
  subst firstLength middleLength
  rw [← List.drop_drop, List.drop_left, List.drop_left, List.take_left, List.take_left]
  exact ⟨rfl, rfl, rfl⟩

theorem keepsPinned_arrange {graph : Graph} (arranged : Grouping.Arranged graph.operationList)
    {rankings : List Ranking} (ranked : rankings.length = graph.blocks.length) :
    KeepsPinned graph.operationList
      ((Schedule.arrange graph.blocks rankings).flatMap Block.operations) := by
  intro header marker found isPinned
  obtain ⟨node, nodeFound, same⟩ := WellFormed.operationList_getElem?.mp found
  subst same
  obtain ⟨bound, here⟩ := List.getElem?_eq_some_iff.mp nodeFound
  have split : graph.operations = graph.operations.take header ++
      node :: graph.operations.drop (header + 1) := by
    rw [← here, List.getElem_cons_drop, List.take_append_drop]
  obtain ⟨left, block, right, members, blocksSplit, leftNodes, blockNodes, listed, _⟩ :=
    Block.exists_split (headed_of_mem_blocks arranged) ((flatMap_blocks graph).trans split)
      (Operation.isGroup_of_isPinned isPinned)
  -- Sorting works on the blocks before and behind the pinned one separately.
  rw [blocksSplit] at ranked
  obtain ⟨before, after, arrangedSplit, beforePerm, afterPerm⟩ :=
    Schedule.arrange_append_pinned (Block.isPinned_of_nodes blockNodes isPinned) ranked
  have leftMoved := beforePerm.flatMap_right Block.operations
  have rightMoved := afterPerm.flatMap_right Block.operations
  have leftLength : (left.flatMap Block.operations).length = header := by
    rw [Block.flatMap_operations, leftNodes, List.length_map, List.length_take]
    omega
  have blockLength : block.operations.length = node.operation.inputs.length + 1 := by
    rw [Block.operations, blockNodes, ← listed, ids, List.length_map, List.length_map,
      List.length_map, List.length_cons]
  have given : graph.operationList = left.flatMap Block.operations ++
      (block.operations ++ right.flatMap Block.operations) := by
    rw [operationList, ← flatMap_blocks graph, ← Block.flatMap_operations, blocksSplit,
      List.flatMap_append, List.flatMap_cons]
  obtain ⟨givenLeft, givenBlock, givenRight⟩ := sections_eq (right.flatMap Block.operations)
    leftLength blockLength
  obtain ⟨movedLeft, movedBlock, movedRight⟩ := sections_eq (after.flatMap Block.operations)
    (leftMoved.length_eq.trans leftLength) blockLength
  rw [given, blocksSplit, arrangedSplit, List.flatMap_append, List.flatMap_cons, givenLeft,
    givenBlock, givenRight, movedLeft, movedBlock, movedRight]
  exact ⟨rfl, leftMoved, rightMoved⟩

structure Schedules (graph result : Graph) : Prop where
  capacity : result.capacity = graph.capacity
  tensors : result.tensorList = graph.tensorList
  operations : result.operationList.Perm graph.operationList
  producersFirst : result.Ordered
  groups : ∀ header marker, result.operationList[header]? = some marker →
    marker.isGroup = true →
    ids ((result.operationList.drop (header + 1)).take marker.inputs.length) = marker.inputs
  pinned : KeepsPinned graph.operationList result.operationList

theorem sorted_schedules {tensors : List Tensor} {operations : List Operation}
    {capacity : Capacity} {graph result : Graph}
    (built : build tensors operations capacity = .ok graph)
    (sorted : graph.sorted = .ok result) : graph.Schedules result := by
  have arranged := arranged_of_build built
  obtain ⟨_, resultBuilt⟩ := exists_build_of_sorted sorted
  have wellFormed := wellFormed_of_build resultBuilt
  obtain ⟨rankings, ranks, ranked, same, ordered⟩ := sorted_ok arranged sorted
  have listed : result.operationList =
      (Schedule.arrange graph.blocks rankings).flatMap Block.operations := by
    rw [same, connected_operationList]
  constructor
  case capacity => rw [same, connected]
  case tensors => rw [same, connected_tensorList]
  case operations =>
    rw [listed]
    exact flatMap_arrange_perm ranked
  case producersFirst => exact ordered
  case groups => exact wellFormed.members
  case pinned =>
    rw [listed]
    exact keepsPinned_arrange arranged ranked

theorem sorted_schedules_relay :
    ∃ graph result, build relayTensors relayOperations ⟨8, 8⟩ = .ok graph ∧
      graph.sorted = .ok result ∧ graph.operationList.map Operation.id = [1, 2, 10, 4, 3] ∧
      result.operationList.map Operation.id = [2, 1, 10, 4, 3] ∧ graph.Schedules result := by
  refine ⟨_, _, rfl, rfl, by decide, by decide, ?_⟩
  exact @sorted_schedules relayTensors relayOperations ⟨8, 8⟩ _ _ rfl rfl

end Graph

end TensorGraph
