import TensorGraph.Proofs.BlockExtents
import TensorGraph.Proofs.DepthFirstRanking

/-!
Keys of the blocks of a graph, found by searching depth first. There are none exactly if blocks feed
each other in a circle. Otherwise the rank of a block is the exact sum over what it reads from others,
cut off at the largest machine word, and along every dependency the key grows.
-/

namespace TensorGraph

namespace Block

def writes (block : Block) (name : TensorId) : Bool :=
  block.operations.any fun operation => operation.writes name

/-- Names that the operations of a block read, each as often as it is read. -/
def inputNames (block : Block) : List TensorId :=
  (block.operations.filter fun operation => !operation.isGroup).flatMap fun operation =>
    operation.inputs

def externalInputs (block : Block) : List TensorId :=
  block.inputNames.filter fun name => !block.writes name

end Block

namespace Graph

def FeedsBlock (graph : Graph) (producer consumer : Nat) : Prop :=
  producer ≠ consumer ∧ ∃ writer reader, graph.InBlock producer writer ∧
    graph.InBlock consumer reader ∧ writer.operation.Feeds reader.operation

def writingBlock? (graph : Graph) (name : TensorId) : Option Nat :=
  graph.blocks.findIdx? fun block => block.writes name

def sourceRank (graph : Graph) (keys : List (Nat × Nat)) (name : TensorId) : Nat :=
  (((graph.writingBlock? name).bind fun position => keys[position]?).map Prod.fst).getD 0

structure KeysExact (graph : Graph) (keys : List (Nat × Nat)) : Prop where
  count : keys.length = graph.blocks.length
  rank : ∀ (position : Nat) (block : Block) (key : Nat × Nat),
    graph.blocks[position]? = some block → keys[position]? = some key →
      key.1 = min (block.externalInputs.length +
        total (block.externalInputs.map (graph.sourceRank keys))) Limit.word
  saturated : ∀ (position : Nat) (key : Nat × Nat), keys[position]? = some key →
    key.1 = Limit.word → LongestChainTo graph.FeedsBlock key.2 position
  unsaturated : ∀ (position : Nat) (key : Nat × Nat), keys[position]? = some key →
    key.1 ≠ Limit.word → key.2 = 0
  ascending : ∀ (producer consumer : Nat) (first second : Nat × Nat),
    graph.FeedsBlock producer consumer → keys[producer]? = some first →
      keys[consumer]? = some second → first.1 < second.1 ∨ (first.1 = second.1 ∧ first.2 < second.2)

variable {graph : Graph}

section Names

theorem writes_iff_inBlock {position : Nat} {block : Block}
    (found : graph.blocks[position]? = some block) {name : TensorId} :
    block.writes name = true ↔
      ∃ node, graph.InBlock position node ∧ node.operation.writes name = true := by
  rw [Block.writes, Block.operations, List.any_map, List.any_eq_true]
  constructor
  · rintro ⟨node, member, writes⟩
    exact ⟨node, ⟨block, found, member⟩, writes⟩
  · rintro ⟨node, ⟨other, otherFound, member⟩, writes⟩
    rw [found] at otherFound
    cases otherFound
    exact ⟨node, member, writes⟩

variable {tensor : Nat} {tensorNode : TensorNode}

theorem producer?_of_inBlock (wellFormed : graph.WellFormed)
    (found : graph.tensors[tensor]? = some tensorNode) {position : Nat} {node : OperationNode}
    (inside : graph.InBlock position node)
    (writes : node.operation.writes tensorNode.tensor.id = true) :
    ∃ place, graph.producer? tensor = some place ∧
      (blockOwners graph.blocks)[place]? = some position := by
  obtain ⟨place, owned, nodeFound⟩ := inBlock_iff.mp inside
  refine ⟨place, (wellFormed.producer?_iff_writes found).mpr ⟨_, ?_, writes⟩, owned⟩
  exact WellFormed.operationList_getElem?.mpr ⟨node, nodeFound, rfl⟩

theorem writingBlock?_of_producer? (wellFormed : graph.WellFormed)
    (found : graph.tensors[tensor]? = some tensorNode) {place owner : Nat}
    (produced : graph.producer? tensor = some place)
    (owned : (blockOwners graph.blocks)[place]? = some owner) :
    graph.writingBlock? tensorNode.tensor.id = some owner := by
  obtain ⟨writer, listed, writes⟩ := (wellFormed.producer?_iff_writes found).mp produced
  obtain ⟨node, nodeFound, rfl⟩ := WellFormed.operationList_getElem?.mp listed
  have inside : graph.InBlock owner node := inBlock_iff.mpr ⟨place, owned, nodeFound⟩
  obtain ⟨block, blockFound, _⟩ := id inside
  obtain ⟨bound, here⟩ := List.getElem?_eq_some_iff.mp blockFound
  rw [writingBlock?, List.findIdx?_eq_some_iff_getElem]
  refine ⟨bound, ?_, fun earlier before => ?_⟩
  · rw [here, writes_iff_inBlock blockFound]
    exact ⟨node, inside, writes⟩
  · -- An earlier block that writes the tensor too would own its producer.
    intro writesToo
    have earlierFound := List.getElem?_eq_getElem (before.trans bound)
    obtain ⟨other, otherInside, otherWrites⟩ := (writes_iff_inBlock earlierFound).mp writesToo
    obtain ⟨otherPlace, otherProduced, otherOwned⟩ :=
      producer?_of_inBlock wellFormed found otherInside otherWrites
    rw [produced] at otherProduced
    cases otherProduced
    rw [owned] at otherOwned
    cases otherOwned
    exact Nat.lt_irrefl _ before

theorem writingBlock?_of_no_producer (wellFormed : graph.WellFormed)
    (found : graph.tensors[tensor]? = some tensorNode) (free : graph.producer? tensor = none) :
    graph.writingBlock? tensorNode.tensor.id = none := by
  rw [writingBlock?, List.findIdx?_eq_none_iff]
  intro block member
  obtain ⟨position, blockFound⟩ := List.mem_iff_getElem?.mp member
  by_contra writes
  rw [Bool.not_eq_false, writes_iff_inBlock blockFound] at writes
  obtain ⟨node, inside, nodeWrites⟩ := writes
  obtain ⟨place, produced, _⟩ := producer?_of_inBlock wellFormed found inside nodeWrites
  rw [free] at produced
  cases produced

/-- An input counts exactly if the block does not write it itself, and then for the block that
does. -/
theorem entryOf_eq (wellFormed : graph.WellFormed)
    (found : graph.tensors[tensor]? = some tensorNode) {position : Nat} {block : Block}
    (blockFound : graph.blocks[position]? = some block) :
    graph.entryOf (blockOwners graph.blocks) position tensor =
      if block.writes tensorNode.tensor.id then none
      else some (graph.writingBlock? tensorNode.tensor.id) := by
  cases produced : graph.producer? tensor with
  | none =>
      have silent : ¬block.writes tensorNode.tensor.id = true := by
        rw [writes_iff_inBlock blockFound]
        rintro ⟨node, inside, writes⟩
        obtain ⟨place, isProduced, _⟩ := producer?_of_inBlock wellFormed found inside writes
        rw [produced] at isProduced
        cases isProduced
      rw [if_neg silent, writingBlock?_of_no_producer wellFormed found produced, entryOf, produced]
  | some place =>
      obtain ⟨writer, listed, writes⟩ := (wellFormed.producer?_iff_writes found).mp produced
      obtain ⟨node, nodeFound, rfl⟩ := WellFormed.operationList_getElem?.mp listed
      obtain ⟨owner, owned, inside⟩ := exists_owner nodeFound
      have own : block.writes tensorNode.tensor.id = true ↔ owner = position := by
        rw [writes_iff_inBlock blockFound]
        constructor
        · rintro ⟨other, otherInside, otherWrites⟩
          obtain ⟨otherPlace, otherProduced, otherOwned⟩ :=
            producer?_of_inBlock wellFormed found otherInside otherWrites
          rw [produced] at otherProduced
          cases otherProduced
          rw [owned] at otherOwned
          exact Option.some.inj otherOwned
        · rintro rfl
          exact ⟨node, inside, writes⟩
      rw [entryOf, produced, writingBlock?_of_producer? wellFormed found produced owned]
      simp only [owned, Option.getD_some, own]

theorem named_inputs (wellFormed : graph.WellFormed) {nodes : List OperationNode}
    (members : ∀ node ∈ nodes, node ∈ graph.operations) :
    Connections.Named graph.tensorList (nodes.flatMap OperationNode.inputs)
      (((nodes.map OperationNode.operation).filter fun operation =>
        !operation.isGroup).flatMap fun operation => operation.inputs) := by
  induction nodes with
  | nil => exact .nil
  | cons node rest ih =>
      obtain ⟨member, restMembers⟩ := List.forall_mem_cons.mp members
      cases isGroup : node.operation.isGroup with
      | true =>
          have none := (wellFormed.markers node member isGroup).1
          simpa [isGroup, none] using ih restMembers
      | false =>
          have named := List.rel_append (wellFormed.inputs node member isGroup) (ih restMembers)
          simpa [Connections.Named, isGroup] using named

theorem blockSourcesAt_eq (wellFormed : graph.WellFormed) {position : Nat} {block : Block}
    (found : graph.blocks[position]? = some block) :
    graph.blockSourcesAt (blockOwners graph.blocks) position block =
      block.externalInputs.map graph.writingBlock? := by
  have members : ∀ node ∈ block.nodes, node ∈ graph.operations := fun node member =>
    InBlock.mem ⟨block, found, member⟩
  have named := named_inputs wellFormed members
  change (block.nodes.flatMap OperationNode.inputs).filterMap
    (graph.entryOf (blockOwners graph.blocks) position) = _
  rw [Block.externalInputs]
  change Connections.Named graph.tensorList _ block.inputNames at named
  -- From here on only matters that each place has its name, wherever in the block they stand.
  generalize block.nodes.flatMap OperationNode.inputs = places at named ⊢
  generalize block.inputNames = names at named ⊢
  induction named with
  | nil => rfl
  | @cons place name places names first _ ih =>
      obtain ⟨descriptor, listed, rfl⟩ := first
      obtain ⟨tensorNode, nodeFound, rfl⟩ := WellFormed.tensorList_getElem?.mp listed
      rw [List.filterMap_cons, entryOf_eq wellFormed nodeFound found, List.filter_cons, ih]
      cases block.writes tensorNode.tensor.id <;> simp

end Names

section Search

theorem find?_isGroup_extents {path : List Nat} {chosen : List Block}
    (related : List.Forall₂ (fun position block => graph.blocks[position]? = some block)
      path chosen) :
    path.findSome? (fun position => (graph.blocks[position]?).bind Block.marker?) =
      ((chosen.map Block.extent).find? Extent.isGroup).bind fun extent =>
        (graph.operations[extent.start]?).map OperationNode.operation := by
  induction related with
  | nil => rfl
  | @cons position block path chosen found _ ih =>
      rw [List.findSome?_cons, found, Option.bind_some, List.map_cons, List.find?_cons, ih]
      cases marked : block.marker? with
      | none => simp [Block.extent, marked]
      | some marker =>
          obtain ⟨node, nodeFound, same⟩ := getElem?_start (List.mem_of_getElem? found) marked
          simp [Block.extent, marked, nodeFound, same]

theorem blame?_eq (obtained : graph.Obtained) {path : List Nat}
    (inside : ∀ position ∈ path, position < graph.blocks.length) :
    graph.blame? path = some
      (match path.findSome? fun position => (graph.blocks[position]?).bind Block.marker? with
        | some marker => .invalidGroup marker.id .notContiguous
        | none => .cyclicGraph) := by
  obtain ⟨chosen, related⟩ : ∃ chosen, List.Forall₂ (fun position block =>
      graph.blocks[position]? = some block) path chosen :=
    exists_forall₂ fun position member =>
      Option.isSome_iff_exists.mp (by simpa using inside position member)
  have extents : path.mapM (fun position => graph.extents[position]?) =
      some (chosen.map Block.extent) := by
    rw [extents_eq obtained, mapM_eq_some_iff, List.forall₂_map_right_iff]
    exact related.imp fun position block found => by rw [List.getElem?_map, found]; rfl
  rw [blame?, extents, find?_isGroup_extents related, Option.bind_eq_bind, Option.bind_some]
  cases found : (chosen.map Block.extent).find? Extent.isGroup with
  | none => rfl
  | some extent =>
      obtain ⟨block, member, rfl⟩ := List.mem_map.mp (List.mem_of_find?_eq_some found)
      have isGroup : block.extent.isGroup = true := List.find?_some found
      obtain ⟨marker, marked⟩ := Option.isSome_iff_exists.mp isGroup
      obtain ⟨position, _, listed⟩ := exists_of_forall₂ related.flip member
      obtain ⟨node, nodeFound, same⟩ := getElem?_start (List.mem_of_getElem? listed) marked
      have here : graph.operations[block.extent.start]? = some node := nodeFound
      simp [here]

theorem length_blockSources (graph : Graph) : graph.blockSources.length = graph.blocks.length := by
  rw [blockSources, List.length_map, List.length_zipIdx]

theorem searchBlockKeys_agrees (obtained : graph.Obtained) :
    Guarded.Agrees graph.searchBlockKeys graph.blockKeys := by
  have closed := blockSources_closed (obtained_wellFormed obtained)
  refine .access_bind (externals?_eq obtained) ?_
  rcases DepthFirst.search_outcome closed with
    ⟨ranked, agrees⟩ | ⟨root, path, first, follows, inside, agrees⟩
  · obtain ⟨found, isFound⟩ := Rankings.exists_mapM_id ranked
    rw [agrees, blockKeys, blockRankings_ok_iff.mpr isFound, mapM_id_eq_some_iff.mp isFound]
    simp only [List.map_map]
    exact .of_plain _
  · have unranked : (rankings graph.blockSources).mapM id = none := by
      by_contra ranked
      obtain ⟨found, isFound⟩ := Option.ne_none_iff_exists'.mp ranked
      obtain ⟨bound, isNone, _⟩ := List.findIdx?_eq_some_iff_getElem.mp first
      have isSome := Rankings.isSome_of_mapM_id isFound bound
      rw [Rankings.get?_eq_getElem bound, Option.isSome_iff_ne_none] at isSome
      exact isSome (Option.isNone_iff_eq_none.mp isNone)
    rw [length_blockSources] at follows inside
    rw [agrees, blockKeys, blockRankings, unranked]
    refine .access_bind (blame?_eq obtained inside) ?_
    simp only [blockedBy, first, follows]
    exact .of_plain _

end Search

section Exactness

theorem feedsBlock_iff (wellFormed : graph.WellFormed) {producer consumer : Nat} :
    graph.FeedsBlock producer consumer ↔ graph.blockSources.Lists consumer producer := by
  rw [lists_blockSources_iff wellFormed, FeedsBlock]
  constructor
  · rintro ⟨different, writer, reader, writerInside, readerInside, feeds⟩
    exact ⟨Ne.symm different, reader, writer, readerInside, writerInside, feeds⟩
  · rintro ⟨different, reader, writer, readerInside, writerInside, feeds⟩
    exact ⟨Ne.symm different, writer, reader, writerInside, readerInside, feeds⟩

theorem feedsBlock_eq (wellFormed : graph.WellFormed) :
    graph.FeedsBlock = Function.swap graph.blockSources.Lists := by
  funext producer consumer
  exact propext (feedsBlock_iff wellFormed)

theorem blockKeys_ok_iff {keys : List (Nat × Nat)} :
    graph.blockKeys = .ok keys ↔
      ∃ found, graph.blockRankings = .ok found ∧ found.map Ranking.key = keys := by
  rw [blockKeys]
  cases graph.blockRankings with
  | error failure => simp [Except.map]
  | ok found => simp [Except.map]

theorem blockKeys_error_iff (wellFormed : graph.WellFormed) :
    (∃ failure, graph.blockKeys = .error failure) ↔
      ∃ position, Relation.TransGen graph.FeedsBlock position position := by
  have ranked : (∃ keys, graph.blockKeys = .ok keys) ↔
      ∀ position, ¬Relation.TransGen graph.FeedsBlock position position := by
    have acyclic := ranked_iff_acyclic (blockSources_closed wellFormed)
    simp only [feedsBlock_eq wellFormed, Relation.transGen_swap, ← acyclic, blockKeys_ok_iff,
      blockRankings_ok_iff]
    exact ⟨fun ⟨_, found, isFound, _⟩ => ⟨found, isFound⟩,
      fun ⟨found, isFound⟩ => ⟨_, found, isFound, rfl⟩⟩
  rw [← not_iff_not, not_exists (p := fun position => Relation.TransGen graph.FeedsBlock _ _),
    ← ranked]
  cases graph.blockKeys with
  | error failure => simp
  | ok keys => simp

variable {found : List Ranking}

theorem sourceRank_eq (ranked : graph.blockRankings = .ok found) (name : TensorId) :
    graph.sourceRank (found.map Ranking.key) name =
      (rankings graph.blockSources).rankOf (graph.writingBlock? name) := by
  have known := mapM_id_eq_some_iff.mp (blockRankings_ok_iff.mp ranked)
  rw [sourceRank, Rankings.rankOf, known]
  cases graph.writingBlock? name with
  | none => rfl
  | some position =>
      simp only [Option.bind_some, Rankings.get?, List.getElem?_map]
      cases found[position]? <;> rfl

theorem keysExact_of_blockRankings (wellFormed : graph.WellFormed)
    (ranked : graph.blockRankings = .ok found) : graph.KeysExact (found.map Ranking.key) := by
  have isRanking : ∀ {position : Nat} {key : Nat × Nat},
      (found.map Ranking.key)[position]? = some key → ∃ ranking,
        (rankings graph.blockSources).get? position = some ranking ∧ ranking.key = key := by
    intro position key listed
    rw [List.getElem?_map, Option.map_eq_some_iff] at listed
    obtain ⟨ranking, here, same⟩ := listed
    exact ⟨ranking, get?_of_blockRankings ranked here, same⟩
  constructor
  case count => rw [List.length_map, length_of_blockRankings ranked]
  case rank =>
    intro position block key blockFound listed
    obtain ⟨ranking, isRanked, rfl⟩ := isRanking listed
    have sources := blockSources_getElem?_iff.mpr ⟨block, blockFound, rfl⟩
    have exact := rank_eq_of_ranked sources isRanked
    rw [blockSourcesAt_eq wellFormed blockFound, List.length_map, List.map_map] at exact
    rw [funext (sourceRank_eq ranked)]
    exact exact
  case saturated =>
    intro position key listed isSaturated
    obtain ⟨ranking, isRanked, rfl⟩ := isRanking listed
    have depth : ranking.key.2 = ranking.depth := if_pos isSaturated
    rw [depth, feedsBlock_eq wellFormed]
    exact longestChainTo_depth isRanked
  case unsaturated =>
    intro position key listed isExact
    obtain ⟨ranking, _, rfl⟩ := isRanking listed
    exact if_neg isExact
  case ascending =>
    intro producer consumer first second feeds firstListed secondListed
    obtain ⟨ranking, isRanked, rfl⟩ := isRanking firstListed
    obtain ⟨other, otherRanked, rfl⟩ := isRanking secondListed
    exact key_lt_of_lists ((feedsBlock_iff wellFormed).mp feeds) otherRanked isRanked

end Exactness

/-- The search for the keys of the blocks ends. It fails exactly if blocks feed each other in a
circle, and otherwise each key is what it is meant to be. -/
theorem searchBlockKeys_exact (obtained : graph.Obtained) :
    Guarded.Agrees graph.searchBlockKeys graph.blockKeys ∧
      ((∃ failure, graph.blockKeys = .error failure) ↔
        ∃ position, Relation.TransGen graph.FeedsBlock position position) ∧
      ∀ keys, graph.blockKeys = .ok keys → graph.KeysExact keys := by
  have wellFormed := obtained_wellFormed obtained
  refine ⟨searchBlockKeys_agrees obtained, blockKeys_error_iff wellFormed, fun keys isFound => ?_⟩
  obtain ⟨found, ranked, rfl⟩ := blockKeys_ok_iff.mp isFound
  exact keysExact_of_blockRankings wellFormed ranked

theorem searchBlockKeys_exact_relay :
    ∃ graph, build relayTensors relayOperations ⟨8, 8⟩ = .ok graph ∧
      Guarded.Agrees graph.searchBlockKeys (.ok [(2, 0), (1, 0), (5, 0)]) ∧
      (¬∃ position, Relation.TransGen graph.FeedsBlock position position) ∧
      graph.KeysExact [(2, 0), (1, 0), (5, 0)] := by
  refine ⟨_, rfl, ?_⟩
  obtain ⟨agrees, fails, exact⟩ :=
    searchBlockKeys_exact (@Obtained.built relayTensors relayOperations ⟨8, 8⟩ _ rfl)
  refine ⟨agrees, ?_, exact _ rfl⟩
  rw [← fails]
  rintro ⟨failure, isFailure⟩
  cases isFailure

end Graph

end TensorGraph
