import TensorGraph.Graph.Blocks
import TensorGraph.Proofs.WellFormed

/-!
Blocks of arranged operations. Put behind each other they are the operations again, and in whatever
order they are put, the operations stay arranged and are split into the same blocks.
-/

namespace TensorGraph

open Operation (ids)

namespace Grouping

theorem Arranged.uncons {first : Operation} {rest : List Operation}
    (arranged : Arranged (first :: rest)) :
    ∃ members behind, rest = members ++ behind ∧ ids members = first.memberIds ∧
      (∀ member ∈ members, member.isGroup = false) ∧ Arranged behind := by
  cases arranged with
  | free plain restArranged =>
      refine ⟨[], rest, rfl, ?_, by simp, restArranged⟩
      rw [Operation.memberIds_of_not_isGroup plain]
      rfl
  | @group _ members behind isGroup plain listed behindArranged =>
      refine ⟨members, behind, rfl, ?_, plain, behindArranged⟩
      rw [Operation.memberIds_of_isGroup isGroup, listed]

end Grouping

namespace Block

def operations (block : Block) : List Operation := block.nodes.map OperationNode.operation

/-- A block is one operation, followed by exactly its members if it is a marker. -/
def Headed (block : Block) : Prop :=
  ∃ head members, block.nodes = head :: members ∧
    ids (members.map OperationNode.operation) = head.operation.memberIds ∧
    ∀ member ∈ members, member.operation.isGroup = false

theorem Headed.arranged {block : Block} (headed : block.Headed) :
    Grouping.Arranged block.operations := by
  obtain ⟨head, members, nodes, listed, plain⟩ := headed
  rw [operations, nodes, List.map_cons]
  cases isGroup : head.operation.isGroup with
  | false =>
      rw [Operation.memberIds_of_not_isGroup isGroup] at listed
      rw [List.map_eq_nil_iff.mp listed]
      exact .free isGroup .nil
  | true =>
      rw [Operation.memberIds_of_isGroup isGroup] at listed
      have placed := Grouping.Arranged.group isGroup (by simpa using plain) listed .nil
      rwa [List.append_nil] at placed

theorem arranged_flatMap {blocks : List Block} (headed : ∀ block ∈ blocks, block.Headed) :
    Grouping.Arranged (blocks.flatMap operations) := by
  induction blocks with
  | nil => exact .nil
  | cons block rest ih =>
      rw [List.flatMap_cons]
      exact (headed block (by simp)).arranged.append
        (ih fun other present => headed other (List.mem_cons_of_mem _ present))

theorem flatMap_operations (blocks : List Block) :
    blocks.flatMap operations = (blocks.flatMap nodes).map OperationNode.operation := by
  rw [List.map_flatMap]
  rfl

theorem exists_split {blocks : List Block} (headed : ∀ block ∈ blocks, block.Headed)
    {before after : List OperationNode} {marker : OperationNode}
    (listed : blocks.flatMap nodes = before ++ marker :: after)
    (isGroup : marker.operation.isGroup = true) :
    ∃ left block right members, blocks = left ++ block :: right ∧ left.flatMap nodes = before ∧
      block.nodes = marker :: members ∧
      ids (members.map OperationNode.operation) = marker.operation.inputs ∧
      after = members ++ right.flatMap nodes := by
  induction blocks generalizing before with
  | nil => simp at listed
  | cons block rest ih =>
      obtain ⟨head, members, blockNodes, membersListed, plain⟩ := headed block (by simp)
      have restHeaded : ∀ other ∈ rest, other.Headed := fun other present =>
        headed other (List.mem_cons_of_mem _ present)
      rw [List.flatMap_cons, blockNodes, List.cons_append] at listed
      cases before with
      | nil =>
          obtain ⟨same, followers⟩ : head = marker ∧ members ++ rest.flatMap nodes = after := by
            simpa using listed
          subst same
          rw [Operation.memberIds_of_isGroup isGroup] at membersListed
          exact ⟨[], block, rest, members, rfl, rfl, blockNodes, membersListed, followers.symm⟩
      | cons first before =>
          obtain ⟨same, tails⟩ : head = first ∧
              members ++ rest.flatMap nodes = before ++ marker :: after := by
            simpa using listed
          subst same
          -- The marker is none of the members of the first block, so it stands in a later block.
          obtain ⟨more, beforeSplit, restSplit⟩ : ∃ more, before = members ++ more ∧
              rest.flatMap nodes = more ++ marker :: after := by
            rcases List.append_eq_append_iff.mp tails with split | ⟨more, membersSplit, restSplit⟩
            · exact split
            · cases more with
              | nil => exact ⟨[], by simpa using membersSplit.symm, by simpa using restSplit.symm⟩
              | cons next more =>
                  obtain ⟨same, _⟩ := List.cons.inj restSplit
                  have notGroup := plain marker (by rw [membersSplit, same]; simp)
                  rw [isGroup] at notGroup
                  cases notGroup
          obtain ⟨left, found, right, foundMembers, split, leftNodes, rest⟩ :=
            ih restHeaded restSplit
          refine ⟨block :: left, found, right, foundMembers, by rw [split]; rfl, ?_, rest⟩
          rw [List.flatMap_cons, blockNodes, leftNodes, beforeSplit]
          rfl

theorem isPinned_of_nodes {block : Block} {marker : OperationNode} {members : List OperationNode}
    (listed : block.nodes = marker :: members) (isPinned : marker.operation.isPinned = true) :
    block.isPinned = true := by
  have isGroup := Operation.isGroup_of_isPinned isPinned
  simp [Block.isPinned, marker?, listed, isGroup, isPinned]

end Block

theorem flatMap_blocksFrom (start taken : Nat) (nodes : List OperationNode) :
    (blocksFrom start taken nodes).flatMap Block.nodes = nodes.drop taken := by
  induction nodes generalizing start taken with
  | nil => simp [blocksFrom]
  | cons node rest ih =>
      cases taken with
      | succ taken => rw [blocksFrom, ih, List.drop_succ_cons]
      | zero =>
          rw [blocksFrom, List.flatMap_cons, ih, List.cons_append, List.take_append_drop,
            List.drop_zero]

theorem headed_of_mem_blocksFrom {start taken : Nat} {nodes : List OperationNode}
    (arranged : Grouping.Arranged ((nodes.drop taken).map OperationNode.operation)) :
    ∀ block ∈ blocksFrom start taken nodes, block.Headed := by
  induction nodes generalizing start taken with
  | nil => simp [blocksFrom]
  | cons node rest ih =>
      cases taken with
      | succ taken => exact ih arranged
      | zero =>
          rw [List.drop_zero, List.map_cons] at arranged
          obtain ⟨members, behind, followers, listed, plain, behindArranged⟩ := arranged.uncons
          obtain ⟨memberNodes, behindNodes, split, sameMembers, sameBehind⟩ :=
            List.map_eq_append_iff.mp followers
          have count : (node.operation.members?.getD []).length = memberNodes.length := by
            rw [← Operation.memberIds, ← listed, ids, List.length_map, ← sameMembers,
              List.length_map]
          intro block member
          rw [blocksFrom, count, split, List.take_left] at member
          rcases List.mem_cons.mp member with same | later
          · subst same
            refine ⟨node, memberNodes, rfl, by rw [sameMembers, listed], ?_⟩
            intro memberNode present
            exact plain _ (by rw [← sameMembers]; exact List.mem_map_of_mem present)
          · rw [← split] at later
            refine ih ?_ block later
            rwa [split, List.drop_left, sameBehind]

theorem blocksFrom_append (start : Nat) (taken rest : List OperationNode) :
    blocksFrom start taken.length (taken ++ rest) = blocksFrom (start + taken.length) 0 rest := by
  induction taken generalizing start with
  | nil => rfl
  | cons node taken ih =>
      rw [List.length_cons, List.cons_append, blocksFrom, ih]
      congr 1
      omega

/-- Where operations are split into blocks depends on nothing but the operations. -/
theorem map_blocksFrom {α : Type} {image : OperationNode → α}
    (decides : ∀ {node other : OperationNode}, image node = image other →
      node.operation = other.operation)
    {blocks : List Block} (headed : ∀ block ∈ blocks, block.Headed) {nodes : List OperationNode}
    (same : nodes.map image = blocks.flatMap fun block => block.nodes.map image) (start : Nat) :
    (blocksFrom start 0 nodes).map (fun block => block.nodes.map image) =
      blocks.map fun block => block.nodes.map image := by
  induction blocks generalizing start nodes with
  | nil =>
      rw [List.map_eq_nil_iff.mp same]
      rfl
  | cons block rest ih =>
      obtain ⟨⟨head, members, blockNodes, listed, _⟩, restHeaded⟩ := List.forall_mem_cons.mp headed
      rw [List.flatMap_cons, blockNodes, List.map_cons, List.cons_append] at same
      obtain ⟨node, behind, rfl, sameHead, sameBehind⟩ := List.map_eq_cons_iff.mp same
      obtain ⟨others, later, rfl, sameMembers, sameRest⟩ := List.map_eq_append_iff.mp sameBehind
      have count : (node.operation.members?.getD []).length = others.length := by
        rw [decides sameHead, ← Operation.memberIds, ← listed, ids, List.length_map,
          List.length_map, ← List.length_map image, ← sameMembers, List.length_map]
      have sameBlock : (node :: others).map image = block.nodes.map image := by
        rw [blockNodes, List.map_cons, List.map_cons, sameHead, sameMembers]
      rw [blocksFrom, count, List.take_left, blocksFrom_append, List.map_cons, List.map_cons,
        ih restHeaded sameRest]
      exact congrArg (· :: _) sameBlock

theorem map_nodes_blocksFrom {blocks : List Block} (headed : ∀ block ∈ blocks, block.Headed)
    (start : Nat) :
    (blocksFrom start 0 (blocks.flatMap Block.nodes)).map Block.nodes =
      blocks.map Block.nodes := by
  have whole := @map_blocksFrom _ id (fun {_ _} same => congrArg OperationNode.operation same)
    blocks headed (blocks.flatMap Block.nodes) (by simp only [List.map_id]) start
  simpa only [List.map_id] using whole

namespace Graph

theorem flatMap_blocks (graph : Graph) : graph.blocks.flatMap Block.nodes = graph.operations :=
  flatMap_blocksFrom 0 0 graph.operations

theorem headed_of_mem_blocks {graph : Graph} (arranged : Grouping.Arranged graph.operationList) :
    ∀ block ∈ graph.blocks, block.Headed :=
  headed_of_mem_blocksFrom arranged

theorem length_of_blockRankings {graph : Graph} {found : List Ranking}
    (ranked : graph.blockRankings = .ok found) : found.length = graph.blocks.length := by
  rw [blockRankings] at ranked
  split at ranked
  · rename_i known same
    cases ranked
    rw [← (mapM_eq_some_iff.mp same).length_eq, length_rankings, blockSources, List.length_map,
      List.length_zipIdx]
  · cases ranked

end Graph

end TensorGraph
