import TensorGraph.Proofs.SharedBlocks

/-!
Sorting a sorted graph changes nothing. A sort moves whole blocks, and these keep their rankings, so
the second sort finds every run in order.
-/

namespace TensorGraph

namespace Schedule

theorem map_nodes_arrange {blocks others : List Block}
    (same : blocks.map Block.nodes = others.map Block.nodes) (rankings : List Ranking) :
    (arrange blocks rankings).map Block.nodes = (arrange others rankings).map Block.nodes := by
  have nodesOnly : ∀ blocks : List Block, (arrange blocks rankings).map Block.nodes =
      (sortRuns (fun entry => Block.isPinned ⟨0, entry.1⟩) (fun entry => entry.2.key) []
        ((blocks.map Block.nodes).zip rankings)).map Prod.fst := by
    intro blocks
    rw [List.zip_map_left, ← List.map_nil, sortRuns_map, arrange, List.map_map, List.map_map]
    rfl
  rw [nodesOnly, nodesOnly, same]

/-- Arranged blocks keep their rankings, and arranging them by these again leaves them in place. -/
theorem exists_arrange_arrange (blocks : List Block) (rankings : List Ranking) :
    ∃ moved : List Ranking, ((arrange blocks rankings).zip moved).Perm (blocks.zip rankings) ∧
      moved.length = (arrange blocks rankings).length ∧
      arrange (arrange blocks rankings) moved = arrange blocks rankings := by
  have zipped : ∀ entries : List (Block × Ranking),
      (entries.map fun entry => entry.1).zip (entries.map Prod.snd) = entries := by
    intro entries
    rw [List.zip_map', List.map_id']
  refine ⟨(sortRuns (fun entry => entry.1.isPinned) (fun entry => entry.2.key) []
    (blocks.zip rankings)).map Prod.snd, ?_, ?_, ?_⟩
  · rw [arrange, zipped]
    exact sortRuns_perm _ _ [] _
  · rw [arrange, List.length_map, List.length_map]
  · simp only [arrange, zipped]
    rw [sortRuns_sortRuns _ _ (by simp)]

end Schedule

namespace Graph

variable {graph result : Graph}

section Sorted

variable {tensors : List Tensor} {operations : List Operation} {capacity : Capacity}
  {rankings : List Ranking}

theorem map_nodes_blocks_of_arrange (built : build tensors operations capacity = .ok graph)
    (ranked : rankings.length = graph.blocks.length)
    (rebuilt : build graph.tensorList
      ((Schedule.arrange graph.blocks rankings).flatMap Block.operations) graph.capacity =
        .ok result) :
    result.blocks.map Block.nodes =
      (Schedule.arrange graph.blocks rankings).map Block.nodes := by
  have headed := headed_of_mem_arrange (arranged_of_build built) ranked
  obtain ⟨ranks, same⟩ := exists_connected_of_arranged rebuilt (Block.arranged_flatMap headed)
  have nodes : result.operations =
      (Schedule.arrange graph.blocks rankings).flatMap Block.nodes := by
    rw [same, connected, Block.flatMap_operations, List.map_map]
    conv_rhs => rw [← List.map_id ((Schedule.arrange graph.blocks rankings).flatMap Block.nodes)]
    apply List.map_congr_left
    intro node member
    refine operationNode_operation built ?_
    rw [← flatMap_blocks graph]
    exact ((Schedule.arrange_perm ranked).flatMap_right Block.nodes).mem_iff.mp member
  rw [blocks, nodes, map_nodes_blocksFrom headed]

theorem flatMap_operations_of_map_nodes {blocks others : List Block}
    (same : blocks.map Block.nodes = others.map Block.nodes) :
    blocks.flatMap Block.operations = others.flatMap Block.operations := by
  rw [Block.flatMap_operations, Block.flatMap_operations, List.flatMap_def, same,
    ← List.flatMap_def]

theorem madeOfBlocks_of_arrange (ranked : rankings.length = graph.blocks.length)
    (sameNodes : result.blocks.map Block.nodes =
      (Schedule.arrange graph.blocks rankings).map Block.nodes) : result.MadeOfBlocks graph where
  blocks image present := by
    have listed : image.nodes ∈ (Schedule.arrange graph.blocks rankings).map Block.nodes :=
      sameNodes ▸ List.mem_map_of_mem present
    obtain ⟨block, arranged, same⟩ := List.mem_map.mp listed
    exact ⟨block, (Schedule.arrange_perm ranked).mem_iff.mp arranged, by
      rw [Block.operations, same]; rfl⟩
  writers _ _ _ _ writer member _ := by
    rw [operationList, ← flatMap_blocks, ← Block.flatMap_operations,
      flatMap_operations_of_map_nodes sameNodes]
    exact (flatMap_arrange_perm ranked).mem_iff.mpr member

theorem blockRankings_of_arrange {found moved : List Ranking} (wellFormed : graph.WellFormed)
    (resultWellFormed : result.WellFormed) (ranked : graph.blockRankings = .ok found)
    (sameNodes : result.blocks.map Block.nodes =
      (Schedule.arrange graph.blocks found).map Block.nodes)
    (kept : ((Schedule.arrange graph.blocks found).zip moved).Perm (graph.blocks.zip found))
    (counted : moved.length = (Schedule.arrange graph.blocks found).length) :
    result.blockRankings = .ok moved := by
  have made := madeOfBlocks_of_arrange (length_of_blockRankings ranked) sameNodes
  have sameOperations : result.blocks.map Block.operations =
      ((Schedule.arrange graph.blocks found).zip moved).map fun entry => entry.1.operations := by
    calc result.blocks.map Block.operations
      _ = (result.blocks.map Block.nodes).map (List.map OperationNode.operation) :=
        List.map_map.symm
      _ = (Schedule.arrange graph.blocks found).map Block.operations := by
        rw [sameNodes, List.map_map]
        rfl
      _ = (((Schedule.arrange graph.blocks found).zip moved).map Prod.fst).map
          Block.operations := by rw [List.map_fst_zip (Nat.le_of_eq counted.symm)]
      _ = _ := List.map_map
  have rankedAgain := made.blockRankings wellFormed resultWellFormed ranked
    (fun _ listed => kept.mem_iff.mp listed) sameOperations
  rwa [List.map_snd_zip (Nat.le_of_eq counted)] at rankedAgain

theorem sorted_again (built : build tensors operations capacity = .ok graph)
    (sorted : graph.sorted = .ok result) : result.sorted = .ok result := by
  obtain ⟨rankings, ranked, rebuilt, ordered⟩ := sorted_ok_iff.mp sorted
  have count := length_of_blockRankings ranked
  have sameNodes := map_nodes_blocks_of_arrange built count rebuilt
  obtain ⟨moved, kept, counted, settled⟩ := Schedule.exists_arrange_arrange graph.blocks rankings
  have rankedAgain := blockRankings_of_arrange (wellFormed_of_build built)
    (wellFormed_of_build rebuilt) ranked sameNodes kept counted
  refine sorted_ok_iff.mpr ⟨moved, rankedAgain, ?_, ordered⟩
  have listed : (Schedule.arrange result.blocks moved).flatMap Block.operations =
      result.operationList := by
    rw [operationList, ← flatMap_blocks, ← Block.flatMap_operations,
      flatMap_operations_of_map_nodes (Schedule.map_nodes_arrange sameNodes moved), settled,
      flatMap_operations_of_map_nodes sameNodes]
  rw [listed]
  exact build_descriptors rebuilt

end Sorted

def shuffledOperations : List Operation :=
  [{ relayMarker with kind := .group false, inputs := [3, 4] }, relayCopy 3 2 3, relayCopy 1 1 2,
    relaySum, relayCopy 2 0 1]

theorem sorted_again_shuffled :
    ∃ graph result, build relayTensors shuffledOperations ⟨8, 8⟩ = .ok graph ∧
      graph.sorted = .ok result ∧ graph.operationList.map Operation.id = [10, 3, 4, 1, 2] ∧
      result.operationList.map Operation.id = [2, 1, 10, 3, 4] ∧
      result.sorted = .ok result := by
  refine ⟨_, _, rfl, rfl, by decide, by decide, ?_⟩
  exact @sorted_again _ _ relayTensors shuffledOperations ⟨8, 8⟩ rfl rfl

end Graph

end TensorGraph
