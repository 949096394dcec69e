import TensorGraph.Proofs.BlockDependencies
import TensorGraph.Proofs.Renumbering

/-!
Graphs that share blocks. If a graph is made of blocks of another one, in any order, and holds the
writers of whatever it reads, then each of its blocks has the ranking that it has in the other graph.
-/

namespace TensorGraph

open Operation (ids)

namespace Graph

variable {graph other : Graph}

def SharesBlock (graph other : Graph) (position place : Nat) : Prop :=
  ∃ block image, graph.blocks[position]? = some block ∧ other.blocks[place]? = some image ∧
    block.operations = image.operations

theorem SharesBlock.symm {position place : Nat} (shares : graph.SharesBlock other position place) :
    other.SharesBlock graph place position := by
  obtain ⟨block, image, found, imageFound, same⟩ := shares
  exact ⟨image, block, imageFound, found, same.symm⟩

theorem InBlock.shared {position place : Nat} {node : OperationNode}
    (inside : graph.InBlock position node) (shares : graph.SharesBlock other position place) :
    ∃ copy, other.InBlock place copy ∧ copy.operation = node.operation := by
  obtain ⟨block, found, member⟩ := inside
  obtain ⟨_, image, sameFound, imageFound, same⟩ := shares
  rw [found] at sameFound
  cases sameFound
  have listed : node.operation ∈ image.operations := same ▸ List.mem_map_of_mem member
  obtain ⟨copy, present, sameOperation⟩ := List.mem_map.mp listed
  exact ⟨copy, ⟨image, imageFound, present⟩, sameOperation⟩

theorem SharesBlock.owner_iff {position place owner imageOwner : Nat} {node copy : OperationNode}
    (shares : graph.SharesBlock other position place) (wellFormed : graph.WellFormed)
    (otherWellFormed : other.WellFormed) (inside : graph.InBlock owner node)
    (imageInside : other.InBlock imageOwner copy) (same : copy.operation = node.operation) :
    owner = position ↔ imageOwner = place := by
  constructor
  · rintro rfl
    obtain ⟨twin, twinInside, sameTwin⟩ := inside.shared shares
    exact imageInside.unique otherWellFormed.operationIds twinInside (by rw [sameTwin, same])
  · rintro rfl
    obtain ⟨twin, twinInside, sameTwin⟩ := imageInside.shared shares.symm
    exact inside.unique wellFormed.operationIds twinInside (by rw [sameTwin, same])

/-- The other graph is made of blocks of the graph, and nothing that it reads lost its writer. -/
structure MadeOfBlocks (other graph : Graph) : Prop where
  blocks : ∀ image ∈ other.blocks, ∃ block ∈ graph.blocks, block.operations = image.operations
  writers : ∀ reader ∈ other.operationList, ∀ name, reader.reads name = true →
    ∀ writer ∈ graph.operationList, writer.writes name = true → writer ∈ other.operationList

namespace MadeOfBlocks

theorem exists_shared (made : other.MadeOfBlocks graph) {place : Nat} {copy : OperationNode}
    (inside : other.InBlock place copy) :
    ∃ position node, graph.SharesBlock other position place ∧ graph.InBlock position node ∧
      node.operation = copy.operation := by
  have here := inside
  obtain ⟨image, imageFound, _⟩ := here
  obtain ⟨block, present, same⟩ := made.blocks image (List.mem_of_getElem? imageFound)
  obtain ⟨position, found⟩ := List.mem_iff_getElem?.mp present
  have shares : graph.SharesBlock other position place := ⟨block, image, found, imageFound, same⟩
  obtain ⟨node, nodeInside, sameOperation⟩ := inside.shared shares.symm
  exact ⟨position, node, shares, nodeInside, sameOperation⟩

theorem shares (made : other.MadeOfBlocks graph) (wellFormed : graph.WellFormed)
    {position place : Nat} {node copy : OperationNode} (inside : graph.InBlock position node)
    (copyInside : other.InBlock place copy) (same : copy.operation = node.operation) :
    graph.SharesBlock other position place := by
  obtain ⟨found, original, shares, originalInside, sameOriginal⟩ := made.exists_shared copyInside
  have samePosition := originalInside.unique wellFormed.operationIds inside
    (by rw [sameOriginal, same])
  rwa [samePosition] at shares

theorem operation_mem (made : other.MadeOfBlocks graph) {operation : Operation}
    (member : operation ∈ other.operationList) : operation ∈ graph.operationList := by
  obtain ⟨copy, present, same⟩ := exists_node member
  obtain ⟨place, inside⟩ := exists_inBlock present
  obtain ⟨_, node, _, nodeInside, sameOperation⟩ := made.exists_shared inside
  rw [← same, ← sameOperation]
  exact List.mem_map_of_mem nodeInside.mem

end MadeOfBlocks

def SameInput (graph other : Graph) (tensor place : Nat) : Prop :=
  ∃ node image, graph.tensors[tensor]? = some node ∧ other.tensors[place]? = some image ∧
    node.tensor.id = image.tensor.id ∧
      ∃ reader ∈ other.operationList, reader.reads image.tensor.id = true

theorem forall₂_inputs (wellFormed : graph.WellFormed) (otherWellFormed : other.WellFormed)
    {node copy : OperationNode} (member : node ∈ graph.operations)
    (copyMember : copy ∈ other.operations) (same : node.operation = copy.operation) :
    List.Forall₂ (graph.SameInput other) node.inputs copy.inputs := by
  cases isGroup : copy.operation.isGroup with
  | true =>
      rw [(wellFormed.markers node member (same ▸ isGroup)).1,
        (otherWellFormed.markers copy copyMember isGroup).1]
      exact .nil
  | false =>
      have named := wellFormed.inputs node member (same ▸ isGroup)
      rw [same] at named
      refine (forall₂_join named (otherWellFormed.inputs copy copyMember isGroup)).imp ?_
      rintro tensor place ⟨name, listed, ⟨_, found, sameName⟩, ⟨_, imageFound, sameImage⟩⟩
      obtain ⟨tensorNode, nodeFound, rfl⟩ := WellFormed.tensorList_getElem?.mp found
      obtain ⟨imageNode, imageNodeFound, rfl⟩ := WellFormed.tensorList_getElem?.mp imageFound
      refine ⟨tensorNode, imageNode, nodeFound, imageNodeFound, by rw [sameName, sameImage],
        copy.operation, List.mem_map_of_mem copyMember, ?_⟩
      rw [sameImage]
      exact Connections.reads_iff.mpr ⟨isGroup, listed⟩

/-- What is read in both graphs is written by operations of shared blocks, or in neither. -/
theorem MadeOfBlocks.rel_producer? (made : other.MadeOfBlocks graph)
    (wellFormed : graph.WellFormed) (otherWellFormed : other.WellFormed) {tensor place : Nat}
    (sameInput : graph.SameInput other tensor place) :
    Option.Rel (fun producer image => ∃ writer, graph.operationList[producer]? = some writer ∧
        other.operationList[image]? = some writer)
      (graph.producer? tensor) (other.producer? place) := by
  obtain ⟨node, image, found, imageFound, sameId, reader, readerListed, reads⟩ := sameInput
  cases produced : graph.producer? tensor with
  | none =>
      cases producedToo : other.producer? place with
      | none => exact .none
      | some position =>
          obtain ⟨writer, listed, writes⟩ :=
            (otherWellFormed.producer?_iff_writes imageFound).mp producedToo
          obtain ⟨original, originalFound⟩ :=
            List.mem_iff_getElem?.mp (made.operation_mem (List.mem_of_getElem? listed))
          rw [← sameId] at writes
          rw [(wellFormed.producer?_iff_writes found).mpr ⟨writer, originalFound, writes⟩]
            at produced
          cases produced
  | some position =>
      obtain ⟨writer, listed, writes⟩ := (wellFormed.producer?_iff_writes found).mp produced
      rw [sameId] at writes
      obtain ⟨copy, copyFound⟩ := List.mem_iff_getElem?.mp
        (made.writers reader readerListed _ reads writer (List.mem_of_getElem? listed) writes)
      rw [(otherWellFormed.producer?_iff_writes imageFound).mpr ⟨writer, copyFound, writes⟩]
      exact .some ⟨writer, listed, copyFound⟩

theorem MadeOfBlocks.mirrors (made : other.MadeOfBlocks graph) (wellFormed : graph.WellFormed)
    (otherWellFormed : other.WellFormed) :
    graph.blockSources.Mirrors (graph.SharesBlock other) other.blockSources := by
  intro position place shares
  obtain ⟨block, image, found, imageFound, same⟩ := id shares
  refine ⟨_, _, blockSources_getElem?_iff.mpr ⟨block, found, rfl⟩,
    blockSources_getElem?_iff.mpr ⟨image, imageFound, rfl⟩, ?_⟩
  have inputs : List.Forall₂ (graph.SameInput other)
      (block.nodes.flatMap OperationNode.inputs) (image.nodes.flatMap OperationNode.inputs) := by
    rw [Block.operations, Block.operations, ← List.forall₂_eq_eq_eq, List.forall₂_map_left_iff,
      List.forall₂_map_right_iff, List.forall₂_iff_zip] at same
    refine List.rel_flatMap (List.forall₂_iff_zip.mpr ⟨same.1, fun paired => ?_⟩)
      (fun _ _ alike => alike)
    obtain ⟨member, copyMember⟩ := List.of_mem_zip paired
    exact forall₂_inputs wellFormed otherWellFormed (InBlock.mem ⟨block, found, member⟩)
      (InBlock.mem ⟨image, imageFound, copyMember⟩) (same.2 paired)
  refine List.rel_filterMap ?_ inputs
  intro tensor imageTensor sameInput
  have producers := made.rel_producer? wellFormed otherWellFormed sameInput
  beta_reduce
  generalize graph.producer? tensor = produced at producers ⊢
  generalize other.producer? imageTensor = producedToo at producers ⊢
  cases producers with
  | none => exact .some .none
  | some related =>
      obtain ⟨writer, listed, copyListed⟩ := related
      obtain ⟨node, nodeFound, sameNode⟩ := WellFormed.operationList_getElem?.mp listed
      obtain ⟨copy, copyFound, sameCopy⟩ := WellFormed.operationList_getElem?.mp copyListed
      obtain ⟨owner, owned, inside⟩ := exists_owner nodeFound
      obtain ⟨imageOwner, imageOwned, imageInside⟩ := exists_owner copyFound
      have same : copy.operation = node.operation := by rw [sameCopy, sameNode]
      have together := made.shares wellFormed inside imageInside same
      -- What the block reads from itself, its image reads from itself.
      have own := shares.owner_iff wellFormed otherWellFormed inside imageInside same
      by_cases outside : owner = position
      · simp [owned, imageOwned, outside, own.mp outside]
      · have outsideToo : ¬imageOwner = place := fun inner => outside (own.mpr inner)
        simpa [owned, imageOwned, outside, outsideToo] using together

/-- Shared blocks take their rankings with them. -/
theorem MadeOfBlocks.blockRankings (made : other.MadeOfBlocks graph) (wellFormed : graph.WellFormed)
    (otherWellFormed : other.WellFormed) {found : List Ranking}
    (ranked : graph.blockRankings = .ok found) {entries : List (Block × Ranking)}
    (listed : ∀ entry ∈ entries, entry ∈ graph.blocks.zip found)
    (same : other.blocks.map Block.operations = entries.map fun entry => entry.1.operations) :
    other.blockRankings = .ok (entries.map Prod.snd) := by
  have mirrors := made.mirrors wellFormed otherWellFormed
  have count : other.blockSources.length = entries.length := by
    rw [blockSources, List.length_map, List.length_zipIdx, ← List.length_map Block.operations,
      same, List.length_map]
  rw [blockRankings_ok_iff, mapM_id_eq_some_iff]
  refine List.ext_getElem (by rw [length_rankings, count, List.length_map, List.length_map]) ?_
  intro place bound movedBound
  have entryBound : place < entries.length := by simpa using movedBound
  obtain ⟨position, paired⟩ :=
    List.mem_iff_getElem?.mp (listed _ (List.getElem_mem entryBound))
  obtain ⟨blockFound, rankingFound⟩ := List.getElem?_zip_eq_some.mp paired
  have imageOperations : (other.blocks.map Block.operations)[place]? =
      some entries[place].1.operations := by
    rw [same, List.getElem?_map, List.getElem?_eq_getElem entryBound, Option.map_some]
  rw [List.getElem?_map, Option.map_eq_some_iff] at imageOperations
  obtain ⟨image, imageFound, sameOperations⟩ := imageOperations
  have shares : graph.SharesBlock other position place :=
    ⟨_, image, blockFound, imageFound, sameOperations.symm⟩
  have here := (rankings_get?_of_mirrors mirrors shares).symm.trans
    (get?_of_blockRankings ranked rankingFound)
  rw [Rankings.get?_eq_getElem bound] at here
  rw [here, List.getElem_map, List.getElem_map]

end Graph

end TensorGraph
