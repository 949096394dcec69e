import TensorGraph.Graph.Extents
import TensorGraph.Proofs.BlockDependencies
import TensorGraph.Proofs.Guarded
import TensorGraph.Proofs.Schedule

/-!
Blocks read off the slots of a graph. The slots alone tell where each block starts and how many
operations it has; each operation is then given the block it belongs to, and each block what it reads
from others. All accesses on the way are in range.
-/

namespace TensorGraph

def Block.extent (block : Block) : Extent where
  start := block.start
  count := block.nodes.length
  pinned := block.isPinned
  isGroup := block.marker?.isSome

theorem extentsFrom_append (start : Nat) {taken : Nat} {passed : List Slot}
    (count : passed.length = taken) (rest : List Slot) :
    extentsFrom start taken (passed ++ rest) = extentsFrom (start + taken) 0 rest := by
  subst count
  induction passed generalizing start with
  | nil => rfl
  | cons slot passed ih =>
      rw [List.length_cons, List.cons_append, extentsFrom, ih]
      congr 1
      omega

theorem extentsFrom_eq {position : Nat} {operations : List Operation} {ranks : List Nat}
    {slots : List Slot} (fits : Slot.Fits position operations ranks slots) {nodes : List OperationNode}
    (same : nodes.map OperationNode.operation = operations) (start : Nat) :
    extentsFrom start 0 slots = (blocksFrom start 0 nodes).map Block.extent := by
  induction fits generalizing nodes start with
  | nil =>
      rw [List.map_eq_nil_iff.mp same]
      rfl
  | @free _ _ operation rest _ _ plain _ ih =>
      obtain ⟨node, behind, rfl, rfl, sameBehind⟩ := List.map_eq_cons_iff.mp same
      have noMembers : node.operation.members? = none := by simp [Operation.members?, plain]
      rw [extentsFrom, ih sameBehind, blocksFrom, noMembers]
      · simp [Block.extent, Block.isPinned, Block.marker?, plain]
      · rintro _ _ ⟨⟩
  | @group _ _ marker members rest _ _ _ isGroup _ count _ _ ih =>
      obtain ⟨node, behind, rfl, rfl, sameBehind⟩ := List.map_eq_cons_iff.mp same
      obtain ⟨others, later, rfl, sameMembers, sameRest⟩ := List.map_eq_append_iff.mp sameBehind
      have hasMembers : node.operation.members? = some node.operation.inputs := by
        simp [Operation.members?, isGroup]
      have sized : node.operation.inputs.length = others.length := by
        rw [← count, ← sameMembers, List.length_map]
      have slotCount : ∀ slot : Slot,
          (List.replicate members.length slot).length = node.operation.inputs.length := fun slot => by
        rw [List.length_replicate, count]
      rw [extentsFrom, extentsFrom_append _ (slotCount _), blocksFrom, hasMembers,
        Option.getD_some, sized, blocksFrom_append, List.take_left, List.map_cons, ih sameRest]
      simp [Block.extent, Block.isPinned, Block.marker?, isGroup]

namespace Graph

theorem extents_eq {graph : Graph} (obtained : graph.Obtained) :
    graph.extents = graph.blocks.map Block.extent := by
  obtain ⟨tensors, operations, capacity, built⟩ := obtained.exists_build
  obtain ⟨acceptable, arranged, grouped, _, known, ranked, rfl⟩ := build_ok_iff.mp built
  obtain ⟨isArranged, _⟩ := arrangeGroups_ok acceptable.operationIds grouped
  exact extentsFrom_eq (slotsFrom_fits isArranged 0 0 false (length_ranks ranked))
    (connected_operationList ..) 0

end Graph

def Tile : Nat → List Block → Prop
  | _, [] => True
  | start, block :: rest => block.start = start ∧ Tile (start + block.nodes.length) rest

theorem tile_blocksFrom (start taken : Nat) (nodes : List OperationNode) :
    Tile (start + min taken nodes.length) (blocksFrom start taken nodes) := by
  induction nodes generalizing start taken with
  | nil => exact trivial
  | cons node rest ih =>
      cases taken with
      | succ taken =>
          have next := ih (start + 1) taken
          rwa [show start + 1 + min taken rest.length = start + min (taken + 1) (rest.length + 1) by
            omega] at next
      | zero =>
          refine ⟨by simp, ?_⟩
          have next := ih (start + 1) (node.operation.members?.getD []).length
          rwa [show start + 1 + min (node.operation.members?.getD []).length rest.length =
            start + min 0 (node :: rest).length +
              (node :: rest.take (node.operation.members?.getD []).length).length by
            simp [List.length_take]; omega] at next

theorem foldlM_enter?_eq {blocks : List Block} {before : List Nat} (first : Nat)
    (tile : Tile before.length blocks) :
    ((blocks.map Block.extent).zipIdx first).foldlM
        (fun owners entry => Extent.enter? owners entry.1 entry.2)
        (before ++ List.replicate (blocks.flatMap Block.nodes).length 0) =
      some (before ++ (blocks.zipIdx first).flatMap fun entry =>
        entry.1.nodes.map fun _ => entry.2) := by
  induction blocks generalizing before first with
  | nil => rfl
  | cons block rest ih =>
      obtain ⟨here, restTile⟩ := tile
      have entered : Extent.enter?
          (before ++ List.replicate ((block :: rest).flatMap Block.nodes).length 0)
          block.extent first =
          some ((before ++ block.nodes.map fun _ => first) ++
            List.replicate (rest.flatMap Block.nodes).length 0) := by
        obtain ⟨left, _, right⟩ := Graph.sections_eq
          (List.replicate (rest.flatMap Block.nodes).length 0) (rfl : before.length = _)
          (@List.length_replicate _ block.nodes.length 0)
        rw [List.flatMap_cons, List.length_append, List.replicate_add, Extent.enter?, Block.extent,
          here, if_pos (by simp), left, right, List.map_const']
      have further := @ih (before ++ block.nodes.map fun _ => first) (first + 1)
        (by rwa [List.length_append, List.length_map])
      rw [List.map_cons, List.zipIdx_cons, List.zipIdx_cons, List.foldlM_cons, entered,
        List.flatMap_cons, ← List.append_assoc]
      exact further

theorem slice?_extent {α : Type} {blocks : List Block} {before : List α} {image : OperationNode → α}
    (tile : Tile before.length blocks) : ∀ block ∈ blocks,
    block.extent.slice? (before ++ (blocks.flatMap Block.nodes).map image) =
      some (block.nodes.map image) := by
  induction blocks generalizing before with
  | nil => simp
  | cons first rest ih =>
      obtain ⟨here, restTile⟩ := tile
      rw [List.flatMap_cons, List.map_append]
      refine List.forall_mem_cons.mpr ⟨?_, fun block member => ?_⟩
      · obtain ⟨_, middle, _⟩ := Graph.sections_eq
          ((rest.flatMap Block.nodes).map image) (rfl : before.length = _)
          (@List.length_map _ _ first.nodes image)
        rw [Extent.slice?, Block.extent, here, if_pos (by simp), middle]
      · rw [← List.append_assoc]
        exact ih (by rwa [List.length_append, List.length_map]) block member

namespace Graph

variable {graph : Graph}

theorem tile_blocks (graph : Graph) : Tile 0 graph.blocks := by
  have tile := tile_blocksFrom 0 0 graph.operations
  rwa [Nat.zero_min] at tile

theorem slice?_operations {block : Block} (member : block ∈ graph.blocks) :
    block.extent.slice? graph.operations = some block.nodes := by
  have sliced := @slice?_extent _ graph.blocks [] id (tile_blocks graph) block member
  rwa [List.nil_append, List.map_id, List.map_id, flatMap_blocks] at sliced

theorem getElem?_start {block : Block} (member : block ∈ graph.blocks) {marker : Operation}
    (marked : block.marker? = some marker) :
    ∃ node, graph.operations[block.start]? = some node ∧ node.operation = marker := by
  obtain ⟨node, members, nodes, same, _⟩ := Block.marker?_eq_some marked
  have sliced := slice?_operations member
  rw [Extent.slice?, Block.extent, nodes] at sliced
  split at sliced
  · have first : ((graph.operations.drop block.start).take (node :: members).length)[0]? =
        some node := by
      rw [Option.some.inj sliced]
      rfl
    rw [List.getElem?_take_of_lt (by simp), List.getElem?_drop, Nat.add_zero] at first
    exact ⟨node, first, same⟩
  · cases sliced

theorem ownersOf?_eq (obtained : graph.Obtained) :
    ownersOf? graph.operations.length graph.extents = some (blockOwners graph.blocks) := by
  have entered := @foldlM_enter?_eq graph.blocks [] 0 (tile_blocks graph)
  rw [flatMap_blocks] at entered
  rw [ownersOf?, extents_eq obtained]
  exact entered

def entryOf (graph : Graph) (owners : List Nat) (position tensor : Nat) : Option (Option Nat) :=
  match graph.producer? tensor with
  | none => some none
  | some producer =>
      let owner := owners[producer]?.getD 0
      if owner = position then none else some (some owner)

theorem sourceOf?_eq (wellFormed : graph.WellFormed) (position : Nat) {node : OperationNode}
    (member : node ∈ graph.operations) {tensor : Nat} (isInput : tensor ∈ node.inputs) :
    graph.sourceOf? (blockOwners graph.blocks) position tensor =
      some (graph.entryOf (blockOwners graph.blocks) position tensor) := by
  obtain ⟨tensorNode, found, _⟩ := (wellFormed.mem_inputs_iff member).mp isInput
  rw [sourceOf?, found, entryOf, producer?, found]
  cases produced : tensorNode.producer with
  | none => simp [produced]
  | some producer =>
      have isProducer : graph.producer? tensor = some producer := by
        rw [producer?, found]
        exact produced
      obtain ⟨writer, writerFound, _⟩ := wellFormed.producer?_eq_some_iff.mp isProducer
      obtain ⟨owner, owned, _⟩ := exists_owner writerFound
      simp [produced, owned]

theorem externalOf?_eq (wellFormed : graph.WellFormed) (position : Nat) {block : Block}
    (member : block ∈ graph.blocks) :
    graph.externalOf? (blockOwners graph.blocks) position block.extent =
      some (graph.blockSourcesAt (blockOwners graph.blocks) position block) := by
  have sources : (block.nodes.flatMap OperationNode.inputs).mapM
      (graph.sourceOf? (blockOwners graph.blocks) position) =
      some ((block.nodes.flatMap OperationNode.inputs).map
        (graph.entryOf (blockOwners graph.blocks) position)) := by
    refine mapM_eq_some fun tensor isRead => ?_
    obtain ⟨node, inBlock, isInput⟩ := List.mem_flatMap.mp isRead
    have nodeMember : node ∈ graph.operations := by
      rw [← flatMap_blocks graph]
      exact List.mem_flatMap.mpr ⟨block, member, inBlock⟩
    exact sourceOf?_eq wellFormed position nodeMember isInput
  rw [externalOf?, slice?_operations member, Option.bind_eq_bind, Option.bind_some, sources, Option.bind_eq_bind,
    Option.bind_some, List.filterMap_map]
  rfl

/-- Reading off the slots what blocks depend on gives what they do depend on. -/
theorem externals?_eq (obtained : graph.Obtained) : graph.externals? = some graph.blockSources := by
  have wellFormed := obtained_wellFormed obtained
  rw [externals?, ownersOf?_eq obtained, Option.bind_eq_bind, Option.bind_some, blockSources,
    extents_eq obtained, List.zipIdx_map, List.mapM_map]
  refine mapM_eq_some fun entry listed => ?_
  exact externalOf?_eq wellFormed entry.2 (List.fst_mem_of_mem_zipIdx listed)

end Graph

end TensorGraph
