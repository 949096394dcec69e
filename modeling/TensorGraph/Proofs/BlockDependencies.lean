import TensorGraph.Proofs.Admissible
import TensorGraph.Proofs.Cycles

/-!
What blocks depend on. One block is a source of another exactly if the second reads what the first
writes, and the blocks are ranked unless some of them feed each other in a circle. A group takes part
in every such circle, since operations outside all groups cannot form one.
-/

namespace TensorGraph

open Operation (ids)

namespace Graph

theorem zip_blockOwners (blocks : List Block) :
    (blockOwners blocks).zip (blocks.flatMap Block.nodes) =
      blocks.zipIdx.flatMap fun entry => entry.1.nodes.map fun node => (entry.2, node) := by
  have entries : ∀ listed : List (Block × Nat),
      (listed.flatMap fun entry => entry.1.nodes.map fun _ => entry.2).zip
          (listed.flatMap fun entry => entry.1.nodes) =
        listed.flatMap fun entry => entry.1.nodes.map fun node => (entry.2, node) := by
    intro listed
    induction listed with
    | nil => rfl
    | cons entry rest ih =>
        rw [List.flatMap_cons, List.flatMap_cons, List.flatMap_cons,
          List.zip_append (by rw [List.length_map]), ih]
        congr 1
        have both := @List.zip_map' _ _ _ (fun _ => entry.2) id entry.1.nodes
        rwa [List.map_id] at both
  have nodes : blocks.flatMap Block.nodes =
      blocks.zipIdx.flatMap fun entry => entry.1.nodes := by
    conv_lhs => rw [← List.zipIdx_map_fst 0 blocks, List.flatMap_map]
  rw [nodes, blockOwners, entries]

def InBlock (graph : Graph) (position : Nat) (node : OperationNode) : Prop :=
  ∃ block, graph.blocks[position]? = some block ∧ node ∈ block.nodes

theorem inBlock_iff {graph : Graph} {position : Nat} {node : OperationNode} :
    graph.InBlock position node ↔ ∃ place : Nat,
      (blockOwners graph.blocks)[place]? = some position ∧
        graph.operations[place]? = some node := by
  have listed : graph.InBlock position node ↔
      (position, node) ∈ (blockOwners graph.blocks).zip graph.operations := by
    rw [← flatMap_blocks graph, zip_blockOwners, List.mem_flatMap]
    constructor
    · rintro ⟨block, found, member⟩
      exact ⟨(block, position), List.mem_zipIdx_iff_getElem?.mpr found,
        List.mem_map.mpr ⟨node, member, rfl⟩⟩
    · rintro ⟨⟨block, place⟩, found, member⟩
      obtain ⟨other, present, same⟩ := List.mem_map.mp member
      cases same
      exact ⟨block, List.mem_zipIdx_iff_getElem?.mp found, present⟩
  rw [listed, List.mem_iff_getElem?]
  simp only [List.getElem?_zip_eq_some]

theorem length_blockOwners (graph : Graph) :
    (blockOwners graph.blocks).length = graph.operations.length := by
  rw [← flatMap_blocks graph, blockOwners, List.length_flatMap, List.length_flatMap]
  conv_rhs => rw [← List.zipIdx_map_fst 0 graph.blocks, List.map_map]
  congr 1
  exact List.map_congr_left fun entry _ => List.length_map _

theorem exists_inBlock {graph : Graph} {node : OperationNode} (member : node ∈ graph.operations) :
    ∃ position, graph.InBlock position node := by
  rw [← flatMap_blocks graph] at member
  obtain ⟨block, present, inside⟩ := List.mem_flatMap.mp member
  obtain ⟨position, found⟩ := List.mem_iff_getElem?.mp present
  exact ⟨position, block, found, inside⟩

theorem InBlock.mem {graph : Graph} {position : Nat} {node : OperationNode}
    (inside : graph.InBlock position node) : node ∈ graph.operations := by
  obtain ⟨place, _, found⟩ := inBlock_iff.mp inside
  exact List.mem_of_getElem? found

theorem InBlock.unique {graph : Graph} (unique : (ids graph.operationList).Nodup)
    {first second : Nat} {node other : OperationNode} (inFirst : graph.InBlock first node)
    (inSecond : graph.InBlock second other) (same : node.operation.id = other.operation.id) :
    first = second := by
  obtain ⟨place, owned, found⟩ := inBlock_iff.mp inFirst
  obtain ⟨otherPlace, otherOwned, otherFound⟩ := inBlock_iff.mp inSecond
  have samePlace : place = otherPlace := by
    have bound := (List.getElem?_eq_some_iff.mp found).1
    refine (List.getElem?_inj (by simpa [ids, operationList] using bound) unique).mp ?_
    simp [ids, operationList, found, otherFound, same]
  rw [samePlace, otherOwned] at owned
  exact (Option.some.inj owned).symm

theorem feeds_iff_inputs {graph : Graph} (wellFormed : graph.WellFormed)
    {writer reader : OperationNode} (writerMember : writer ∈ graph.operations)
    (readerMember : reader ∈ graph.operations) :
    writer.operation.Feeds reader.operation ↔
      ∃ tensor, tensor ∈ writer.outputs ∧ tensor ∈ reader.inputs := by
  constructor
  · rintro ⟨name, writes, reads⟩
    obtain ⟨plain, listed⟩ := Connections.writes_iff.mp writes
    obtain ⟨tensor, isOutput, descriptor, found, same⟩ :=
      exists_of_forall₂ (wellFormed.outputs writer writerMember plain).flip listed
    obtain ⟨tensorNode, nodeFound, sameNode⟩ := WellFormed.tensorList_getElem?.mp found
    subst sameNode same
    exact ⟨tensor, isOutput,
      (wellFormed.mem_inputs_iff readerMember).mpr ⟨tensorNode, nodeFound, reads⟩⟩
  · rintro ⟨tensor, isOutput, isInput⟩
    obtain ⟨tensorNode, found, writes⟩ := (wellFormed.mem_outputs_iff writerMember).mp isOutput
    obtain ⟨other, otherFound, reads⟩ := (wellFormed.mem_inputs_iff readerMember).mp isInput
    rw [found] at otherFound
    cases otherFound
    exact ⟨tensorNode.tensor.id, writes, reads⟩

theorem blockSources_getElem?_iff {graph : Graph} {position : Nat}
    {entries : List (Option Nat)} :
    graph.blockSources[position]? = some entries ↔ ∃ block, graph.blocks[position]? = some block ∧
      graph.blockSourcesAt (blockOwners graph.blocks) position block = entries := by
  simp only [blockSources, List.getElem?_map, List.getElem?_zipIdx, Option.map_map,
    Option.map_eq_some_iff, Function.comp_apply, Nat.zero_add]

theorem exists_owner {graph : Graph} {place : Nat} {node : OperationNode}
    (found : graph.operations[place]? = some node) :
    ∃ owner, (blockOwners graph.blocks)[place]? = some owner ∧ graph.InBlock owner node := by
  have bound : place < (blockOwners graph.blocks).length := by
    rw [length_blockOwners]
    exact (List.getElem?_eq_some_iff.mp found).1
  have owned := List.getElem?_eq_getElem bound
  exact ⟨_, owned, inBlock_iff.mpr ⟨place, owned, found⟩⟩

theorem lists_blockSources_iff {graph : Graph} (wellFormed : graph.WellFormed)
    {consumer producer : Nat} :
    graph.blockSources.Lists consumer producer ↔ consumer ≠ producer ∧ ∃ reader writer,
      graph.InBlock consumer reader ∧ graph.InBlock producer writer ∧
        writer.operation.Feeds reader.operation := by
  constructor
  · rintro ⟨entries, listed, member⟩
    obtain ⟨block, found, same⟩ := blockSources_getElem?_iff.mp listed
    subst same
    obtain ⟨tensor, tensorMember, source⟩ := List.mem_filterMap.mp member
    obtain ⟨reader, readerMember, isInput⟩ := List.mem_flatMap.mp tensorMember
    cases produced : graph.producer? tensor with
    | none => simp [produced] at source
    | some place =>
        obtain ⟨writer, writerFound, isOutput⟩ := wellFormed.producer?_eq_some_iff.mp produced
        obtain ⟨owner, owned, inside⟩ := exists_owner writerFound
        simp only [produced, owned, Option.getD_some] at source
        by_cases outside : owner = consumer
        · simp [outside] at source
        · simp only [outside, if_false, Option.some.injEq] at source
          subst source
          refine ⟨Ne.symm outside, reader, writer, ⟨block, found, readerMember⟩, inside, ?_⟩
          rw [feeds_iff_inputs wellFormed inside.mem (InBlock.mem ⟨block, found, readerMember⟩)]
          exact ⟨tensor, isOutput, isInput⟩
  · rintro ⟨different, reader, writer, ⟨block, found, readerMember⟩, writerInside, feeds⟩
    obtain ⟨place, owned, writerFound⟩ := inBlock_iff.mp writerInside
    obtain ⟨tensor, isOutput, isInput⟩ := (feeds_iff_inputs wellFormed
      (List.mem_of_getElem? writerFound) (InBlock.mem ⟨block, found, readerMember⟩)).mp feeds
    have produced := wellFormed.producer?_eq_some_iff.mpr ⟨writer, writerFound, isOutput⟩
    refine ⟨_, blockSources_getElem?_iff.mpr ⟨block, found, rfl⟩, List.mem_filterMap.mpr
      ⟨tensor, List.mem_flatMap.mpr ⟨reader, readerMember, isInput⟩, ?_⟩⟩
    simp [produced, owned, Ne.symm different]

theorem blockSources_closed {graph : Graph} (wellFormed : graph.WellFormed) :
    graph.blockSources.Closed := by
  intro consumer producer lists
  obtain ⟨_, _, _, _, ⟨block, found, _⟩, _⟩ := (lists_blockSources_iff wellFormed).mp lists
  rw [blockSources, List.length_map, List.length_zipIdx]
  exact (List.getElem?_eq_some_iff.mp found).1

def HeadAt (graph : Graph) (position : Nat) (head : Operation) : Prop :=
  ∃ block node members, graph.blocks[position]? = some block ∧ block.nodes = node :: members ∧
    node.operation = head ∧ ids (members.map OperationNode.operation) = head.memberIds

section Heads

variable {graph : Graph}

theorem exists_headAt (arranged : Grouping.Arranged graph.operationList) {position : Nat}
    {block : Block} (found : graph.blocks[position]? = some block) :
    ∃ head, graph.HeadAt position head := by
  obtain ⟨node, members, nodes, listed, _⟩ :=
    headed_of_mem_blocks arranged block (List.mem_of_getElem? found)
  exact ⟨node.operation, block, node, members, found, nodes, rfl, listed⟩

theorem HeadAt.inBlock {position : Nat} {head : Operation} (here : graph.HeadAt position head) :
    ∃ node, graph.InBlock position node ∧ node.operation = head := by
  obtain ⟨block, node, members, found, nodes, same, _⟩ := here
  exact ⟨node, ⟨block, found, by rw [nodes]; simp⟩, same⟩

theorem HeadAt.eq {position : Nat} {head other : Operation} (here : graph.HeadAt position head)
    (there : graph.HeadAt position other) : head = other := by
  obtain ⟨block, node, members, found, nodes, same, _⟩ := here
  obtain ⟨_, _, _, otherFound, otherNodes, otherSame, _⟩ := there
  rw [found] at otherFound
  cases otherFound
  rw [nodes] at otherNodes
  cases otherNodes
  rw [← same, ← otherSame]

theorem HeadAt.unique (wellFormed : graph.WellFormed) {first second : Nat} {head : Operation}
    (here : graph.HeadAt first head) (there : graph.HeadAt second head) : first = second := by
  obtain ⟨node, inside, same⟩ := here.inBlock
  obtain ⟨other, otherInside, otherSame⟩ := there.inBlock
  exact inside.unique wellFormed.operationIds otherInside (by rw [same, otherSame])

theorem headAt_of_isGroup (arranged : Grouping.Arranged graph.operationList) {position : Nat}
    {node : OperationNode} (inside : graph.InBlock position node)
    (isGroup : node.operation.isGroup = true) :
    graph.HeadAt position node.operation := by
  obtain ⟨block, found, member⟩ := inside
  obtain ⟨head, members, nodes, listed, plain⟩ :=
    headed_of_mem_blocks arranged block (List.mem_of_getElem? found)
  rw [nodes] at member
  rcases List.mem_cons.mp member with same | later
  · subst same
    exact ⟨block, node, members, found, nodes, rfl, listed⟩
  · rw [plain node later] at isGroup
    cases isGroup

theorem exists_node {operation : Operation} (member : operation ∈ graph.operationList) :
    ∃ node ∈ graph.operations, node.operation = operation :=
  List.mem_map.mp member

theorem HeadAt.inBlock_of_memberId {position : Nat} {head : Operation}
    (here : graph.HeadAt position head) {id : OperationId} (listed : id ∈ head.memberIds) :
    ∃ node, graph.InBlock position node ∧ node.operation.id = id := by
  obtain ⟨block, _, members, found, nodes, _, same⟩ := here
  rw [← same] at listed
  obtain ⟨operation, present, sameId⟩ := List.mem_map.mp listed
  obtain ⟨node, member, sameNode⟩ := List.mem_map.mp present
  subst sameNode
  exact ⟨node, ⟨block, found, by rw [nodes]; exact List.mem_cons_of_mem _ member⟩, sameId⟩

/-- Nothing claims the head of a block: its claimant would head the block instead. -/
theorem HeadAt.not_claimed (wellFormed : graph.WellFormed)
    (arranged : Grouping.Arranged graph.operationList) {position : Nat} {head : Operation}
    (here : graph.HeadAt position head) : head.id ∉ Grouping.claimed graph.operationList := by
  intro isClaimed
  obtain ⟨marker, markerListed, listed⟩ := Grouping.mem_claimed.mp isClaimed
  obtain ⟨node, member, same⟩ := exists_node markerListed
  obtain ⟨place, inside⟩ := exists_inBlock member
  subst same
  have markerHere := headAt_of_isGroup arranged inside
    (Operation.isGroup_of_mem_memberIds listed)
  obtain ⟨claimed, claimedInside, sameId⟩ := markerHere.inBlock_of_memberId listed
  obtain ⟨headNode, headInside, sameHead⟩ := here.inBlock
  have samePlace : position = place :=
    headInside.unique wellFormed.operationIds claimedInside (by rw [sameHead, sameId])
  subst samePlace
  rw [here.eq markerHere] at listed
  have arrangedOnce := arranged.sound wellFormed.operationIds
  exact arrangedOnce.marker_not_claimed markerListed
    (Operation.isGroup_of_mem_memberIds listed)
    (Grouping.mem_claimed.mpr ⟨_, markerListed, listed⟩)

theorem heads_iff (wellFormed : graph.WellFormed)
    (arranged : Grouping.Arranged graph.operationList) {head operation : Operation} :
    Operation.Heads graph.operationList head operation ↔ ∃ position node,
      graph.HeadAt position head ∧ graph.InBlock position node ∧ node.operation = operation := by
  constructor
  · rintro ⟨headListed, operationListed, listed | ⟨same, free⟩⟩
    · obtain ⟨headNode, headMember, sameHead⟩ := exists_node headListed
      obtain ⟨position, headInside⟩ := exists_inBlock headMember
      subst sameHead
      have here := headAt_of_isGroup arranged headInside
        (Operation.isGroup_of_mem_memberIds listed)
      obtain ⟨node, inside, sameId⟩ := here.inBlock_of_memberId listed
      refine ⟨position, node, here, inside, ?_⟩
      exact Operation.eq_of_id_eq wellFormed.operationIds
        (List.mem_map_of_mem inside.mem) operationListed sameId
    · subst same
      obtain ⟨node, member, sameNode⟩ := exists_node operationListed
      obtain ⟨position, block, found, nodeInside⟩ := exists_inBlock member
      obtain ⟨head, members, nodes, listed, _⟩ :=
        headed_of_mem_blocks arranged block (List.mem_of_getElem? found)
      have inBlock := nodeInside
      rw [nodes] at inBlock
      rcases List.mem_cons.mp inBlock with isHead | isMember
      · refine ⟨position, node, ?_, ⟨block, found, nodeInside⟩, sameNode⟩
        rw [← sameNode, isHead]
        exact ⟨block, head, members, found, nodes, rfl, listed⟩
      · have claimant : head.operation ∈ graph.operationList := by
          have inside : graph.InBlock position head := ⟨block, found, by rw [nodes]; simp⟩
          exact List.mem_map_of_mem inside.mem
        refine absurd (Grouping.mem_claimed.mpr ⟨head.operation, claimant, ?_⟩) free
        rw [← listed, ← sameNode]
        exact List.mem_map_of_mem (List.mem_map_of_mem isMember)
  · rintro ⟨position, node, here, inside, same⟩
    subst same
    obtain ⟨headNode, headInside, sameHead⟩ := here.inBlock
    have headListed : head ∈ graph.operationList := sameHead ▸ List.mem_map_of_mem headInside.mem
    refine ⟨headListed, List.mem_map_of_mem inside.mem, ?_⟩
    have notClaimed := here.not_claimed wellFormed arranged
    obtain ⟨block, first, members, found, nodes, sameFirst, listed⟩ := here
    obtain ⟨other, otherFound, member⟩ := inside
    rw [found] at otherFound
    cases otherFound
    rw [nodes] at member
    rcases List.mem_cons.mp member with isHead | isMember
    · subst isHead
      rw [sameFirst]
      exact Or.inr ⟨rfl, notClaimed⟩
    · rw [← listed]
      exact Or.inl (List.mem_map_of_mem (List.mem_map_of_mem isMember))

theorem heads_unique (wellFormed : graph.WellFormed)
    (arranged : Grouping.Arranged graph.operationList) {head other operation : Operation}
    (first : Operation.Heads graph.operationList head operation)
    (second : Operation.Heads graph.operationList other operation) : head = other := by
  obtain ⟨position, node, here, inside, same⟩ := (heads_iff wellFormed arranged).mp first
  obtain ⟨place, otherNode, there, otherInside, otherSame⟩ :=
    (heads_iff wellFormed arranged).mp second
  have samePosition := inside.unique wellFormed.operationIds otherInside (by rw [same, otherSame])
  subst samePosition
  exact here.eq there

theorem exists_blockFeeds_of_lists (wellFormed : graph.WellFormed)
    (arranged : Grouping.Arranged graph.operationList) {consumer producer : Nat} {head : Operation}
    (lists : graph.blockSources.Lists consumer producer) (here : graph.HeadAt consumer head) :
    ∃ next, graph.HeadAt producer next ∧ Operation.BlockFeeds graph.operationList next head := by
  obtain ⟨different, reader, writer, readerInside, writerInside, feeds⟩ :=
    (lists_blockSources_iff wellFormed).mp lists
  have writerBlock := writerInside
  obtain ⟨block, found, _⟩ := writerBlock
  obtain ⟨next, there⟩ := exists_headAt arranged found
  refine ⟨next, there, fun same => different ?_, writer.operation, reader.operation,
    (heads_iff wellFormed arranged).mpr ⟨producer, writer, there, writerInside, rfl⟩,
    (heads_iff wellFormed arranged).mpr ⟨consumer, reader, here, readerInside, rfl⟩, feeds⟩
  subst same
  exact here.unique wellFormed there

theorem blocksCircular_iff (wellFormed : graph.WellFormed)
    (arranged : Grouping.Arranged graph.operationList) :
    Operation.BlocksCircular graph.operationList ↔
      ∃ position, Relation.TransGen graph.blockSources.Lists position position := by
  constructor
  · rintro ⟨head, circle⟩
    obtain ⟨position, around⟩ := circle_of_simulation
      (fun producer consumer => graph.blockSources.Lists consumer producer)
      (fun head position => graph.HeadAt position head)
      (fun first _ feeds => by
        obtain ⟨_, writer, _, writerHeaded, _⟩ := feeds
        obtain ⟨position, _, here, _⟩ := (heads_iff wellFormed arranged).mp writerHeaded
        exact ⟨position, here⟩)
      (fun first second position feeds here => by
        obtain ⟨different, writer, reader, writerHeaded, readerHeaded, feeds⟩ := feeds
        obtain ⟨place, writerNode, writerHere, writerInside, sameWriter⟩ :=
          (heads_iff wellFormed arranged).mp writerHeaded
        obtain ⟨next, readerNode, there, readerInside, sameReader⟩ :=
          (heads_iff wellFormed arranged).mp readerHeaded
        rw [← sameWriter, ← sameReader] at feeds
        rw [writerHere.unique wellFormed here] at writerInside
        refine ⟨next, there, (lists_blockSources_iff wellFormed).mpr
          ⟨fun same => different ?_, readerNode, writerNode, readerInside, writerInside, feeds⟩⟩
        subst same
        exact here.eq there)
      (fun _ _ _ _ _ here there => here.unique wellFormed there) circle
    exact ⟨position, Relation.transGen_swap.mp around⟩
  · rintro ⟨position, circle⟩
    obtain ⟨head, around⟩ := circle_of_simulation
      (fun consumer producer => Operation.BlockFeeds graph.operationList producer consumer)
      (fun position head => graph.HeadAt position head)
      (fun consumer _ lists => by
        obtain ⟨_, _, _, ⟨block, found, _⟩, _⟩ := (lists_blockSources_iff wellFormed).mp lists
        exact exists_headAt arranged found)
      (fun _ _ _ lists here => exists_blockFeeds_of_lists wellFormed arranged lists here)
      (fun _ _ _ _ _ here there => here.eq there) circle
    exact ⟨head, Relation.transGen_swap.mp around⟩

theorem blockRankings_ok_iff {found : List Ranking} :
    graph.blockRankings = .ok found ↔ (rankings graph.blockSources).mapM id = some found := by
  rw [blockRankings]
  cases (rankings graph.blockSources).mapM id with
  | none => simp
  | some known => simp

theorem get?_of_blockRankings {found : List Ranking} (ranked : graph.blockRankings = .ok found)
    {position : Nat} {ranking : Ranking} (listed : found[position]? = some ranking) :
    (rankings graph.blockSources).get? position = some ranking := by
  have known := mapM_id_eq_some_iff.mp (blockRankings_ok_iff.mp ranked)
  simp [Rankings.get?, known, listed]

theorem ranked_blocks_iff (wellFormed : graph.WellFormed)
    (arranged : Grouping.Arranged graph.operationList) :
    (∃ found, (rankings graph.blockSources).mapM id = some found) ↔
      ¬Operation.BlocksCircular graph.operationList := by
  rw [ranked_iff_acyclic (blockSources_closed wellFormed), blocksCircular_iff wellFormed arranged,
    not_exists]

/-- Blocks of single operations cannot feed each other in a circle, so any circle of blocks has a
group in it. -/
theorem exists_marker_of_circle (wellFormed : graph.WellFormed)
    (arranged : Grouping.Arranged graph.operationList)
    (acyclic : Operation.Acyclic graph.operationList) {Passed : Nat → Prop} {again : Nat}
    (circle : Relation.TransGen
      (fun consumer producer => Passed consumer ∧ graph.blockSources.Lists consumer producer)
      again again) :
    ∃ position, Passed position ∧ ∃ block, graph.blocks[position]? = some block ∧
      block.marker?.isSome = true := by
  by_contra unmarked
  have alone : ∀ {position : Nat} {node other : OperationNode}, Passed position →
      graph.InBlock position node → graph.InBlock position other → node = other := by
    rintro position node other passed ⟨block, found, member⟩ ⟨_, otherFound, otherMember⟩
    rw [found] at otherFound
    cases otherFound
    obtain ⟨head, members, nodes, listed, _⟩ :=
      headed_of_mem_blocks arranged block (List.mem_of_getElem? found)
    have plain : head.operation.isGroup = false := by
      by_contra isGroup
      rw [Bool.not_eq_false] at isGroup
      refine unmarked ⟨position, passed, block, found, ?_⟩
      simp [Block.marker?, nodes, isGroup]
    rw [Operation.memberIds_of_not_isGroup plain] at listed
    have noMembers : members = [] := by simpa [ids] using listed
    rw [nodes, noMembers, List.mem_singleton] at member otherMember
    rw [member, otherMember]
  obtain ⟨operation, around⟩ := circle_of_simulation
    (fun consumer producer => Operation.FeedsWithin graph.operationList producer consumer)
    (fun position operation => ∃ node, graph.InBlock position node ∧ node.operation = operation)
    (fun consumer _ step => by
      obtain ⟨_, reader, _, inside, _⟩ := (lists_blockSources_iff wellFormed).mp step.2
      exact ⟨reader.operation, reader, inside, rfl⟩)
    (fun consumer producer operation step here => by
      obtain ⟨_, reader, writer, readerInside, writerInside, feeds⟩ :=
        (lists_blockSources_iff wellFormed).mp step.2
      obtain ⟨node, inside, same⟩ := here
      rw [alone step.1 inside readerInside] at same
      rw [same] at feeds
      exact ⟨writer.operation, ⟨writer, writerInside, rfl⟩, List.mem_map_of_mem writerInside.mem,
        same ▸ List.mem_map_of_mem readerInside.mem, feeds⟩)
    (fun consumer _ first second step here there => by
      obtain ⟨node, inside, same⟩ := here
      obtain ⟨other, otherInside, otherSame⟩ := there
      rw [← same, ← otherSame, alone step.1 inside otherInside]) circle
  exact acyclic operation (Relation.transGen_swap.mp around)

theorem blockedBy_eq (wellFormed : graph.WellFormed)
    (arranged : Grouping.Arranged graph.operationList)
    (acyclic : Operation.Acyclic graph.operationList)
    (unranked : (rankings graph.blockSources).mapM id = none) :
    ∃ marker ∈ graph.operationList, marker.isGroup = true ∧
      graph.blockedBy (rankings graph.blockSources) = .invalidGroup marker.id .notContiguous ∧
      ∃ place again, graph.HeadAt place marker ∧
        Relation.TransGen graph.blockSources.Lists place again ∧
        Relation.TransGen graph.blockSources.Lists again again := by
  have length : graph.blockSources.length = graph.blocks.length := by
    rw [blockSources, List.length_map, List.length_zipIdx]
  cases found : (rankings graph.blockSources).findIdx? Option.isNone with
  | none =>
      have allRanked : ∀ entry ∈ rankings graph.blockSources, entry.isSome = true := by
        intro entry member
        have ranked := List.findIdx?_eq_none_iff.mp found entry member
        simpa using ranked
      obtain ⟨values, ranked⟩ := Rankings.exists_mapM_id allRanked
      rw [unranked] at ranked
      cases ranked
  | some first =>
      obtain ⟨bound, noRanking, _⟩ := List.findIdx?_eq_some_iff_getElem.mp found
      have missing : (rankings graph.blockSources).get? first = none := by
        rw [Rankings.get?_eq_getElem bound]
        simpa using noRanking
      rw [length_rankings] at bound
      obtain ⟨again, againPassed, leads⟩ :=
        Rankings.circle_of_unrankedPath (blockSources_closed wellFormed)
          (graph.blocks.length + 1) [] first bound missing List.nodup_nil (by simp)
          (by rw [length]; simp) (by simp)
      obtain ⟨position, passed, block, blockFound, marked⟩ :=
        exists_marker_of_circle wellFormed arranged acyclic (leads again againPassed)
      rw [blockedBy, found]
      simp only
      cases search : (Rankings.unrankedPath graph.blockSources (rankings graph.blockSources)
          (graph.blocks.length + 1) [] first).findSome? fun position =>
            (graph.blocks[position]?).bind Block.marker? with
      | none =>
          have unmarked := List.findSome?_eq_none_iff.mp search position passed
          rw [blockFound, Option.bind_some] at unmarked
          rw [unmarked] at marked
          cases marked
      | some marker =>
          obtain ⟨place, placePassed, here⟩ := List.exists_of_findSome?_eq_some search
          obtain ⟨markedBlock, markedFound, isMarker⟩ := Option.bind_eq_some_iff.mp here
          obtain ⟨node, members, nodes, same, isGroup⟩ := Block.marker?_eq_some isMarker
          have inside : graph.InBlock place node := ⟨markedBlock, markedFound, by rw [nodes]; simp⟩
          refine ⟨marker, same ▸ List.mem_map_of_mem inside.mem, isGroup, rfl, place, again, ?_,
            Sources.lists_of_listsFrom (leads place placePassed),
            Sources.lists_of_listsFrom (leads again againPassed)⟩
          rw [← same] at isGroup ⊢
          exact headAt_of_isGroup arranged inside isGroup

end Heads

end Graph

end TensorGraph
