import TensorGraph.Proofs.BackwardClosure
import TensorGraph.Proofs.BlamedGroups
import TensorGraph.Proofs.Resorting

/-!
Which ranks explain the order of a sorted graph. Within a run the free operations ascend by the
ranks of their blocks. The rank in the slot of an operation is that of its block as long as nothing
from a group flows into it.
-/

namespace TensorGraph

open Operation (ids)

namespace Graph

section Owners

variable {graph : Graph}

theorem pairwise_blockOwners (blocks : List Block) : (blockOwners blocks).Pairwise (· ≤ ·) := by
  rw [blockOwners, List.pairwise_flatMap]
  constructor
  · intro entry _
    rw [List.pairwise_map]
    exact List.pairwise_of_forall fun _ _ => Nat.le_refl _
  · apply (Connections.pairwise_zipIdx blocks 0).imp
    intro first second before owner inFirst other inSecond
    obtain ⟨_, _, sameOwner⟩ := List.mem_map.mp inFirst
    obtain ⟨_, _, sameOther⟩ := List.mem_map.mp inSecond
    omega

theorem owner_le_of_le {first second owner other : Nat} (before : first ≤ second)
    (owned : (blockOwners graph.blocks)[first]? = some owner)
    (otherOwned : (blockOwners graph.blocks)[second]? = some other) : owner ≤ other := by
  rcases Nat.eq_or_lt_of_le before with same | strictly
  · rw [same, otherOwned] at owned
    cases owned
    exact Nat.le_refl _
  · obtain ⟨bound, here⟩ := List.getElem?_eq_some_iff.mp owned
    obtain ⟨otherBound, there⟩ := List.getElem?_eq_some_iff.mp otherOwned
    have ordered := List.pairwise_iff_getElem.mp (pairwise_blockOwners graph.blocks) first second
      bound otherBound strictly
    omega

theorem exists_owner_of_slot (wellFormed : graph.WellFormed) {position : Nat} {slot : Slot}
    (found : graph.slots[position]? = some slot) :
    ∃ owner, (blockOwners graph.blocks)[position]? = some owner := by
  have bound := (List.getElem?_eq_some_iff.mp found).1
  rw [wellFormed.slotCount, ← length_blockOwners] at bound
  exact ⟨_, List.getElem?_eq_getElem bound⟩

end Owners

theorem exists_block_of_free {graph : Graph} (wellFormed : graph.WellFormed)
    (arranged : Grouping.Arranged graph.operationList) {position owner rank : Nat}
    (free : graph.slots[position]? = some (.free rank))
    (owned : (blockOwners graph.blocks)[position]? = some owner) :
    ∃ node block, graph.operations[position]? = some node ∧ node.operation.isGroup = false ∧
      graph.blocks[owner]? = some block ∧ block.nodes = [node] := by
  have bound := (List.getElem?_eq_some_iff.mp free).1
  rw [wellFormed.slotCount] at bound
  have found := List.getElem?_eq_getElem bound
  generalize graph.operations[position] = node at found
  have listed : graph.operationList[position]? = some node.operation :=
    WellFormed.operationList_getElem?.mpr ⟨node, found, rfl⟩
  have plain : node.operation.isGroup = false := by
    by_contra isGroup
    rw [Bool.not_eq_false] at isGroup
    rw [(wellFormed.headerSlots position _ listed isGroup).1] at free
    cases free
  obtain ⟨block, blockFound, member⟩ := inBlock_iff.mpr ⟨position, owned, found⟩
  refine ⟨node, block, found, plain, blockFound, ?_⟩
  obtain ⟨head, members, nodes, membersListed, _⟩ :=
    headed_of_mem_blocks arranged block (List.mem_of_getElem? blockFound)
  have headInside : graph.InBlock owner head := ⟨block, blockFound, by rw [nodes]; simp⟩
  rw [nodes] at member ⊢
  rcases List.mem_cons.mp member with isHead | isMember
  · rw [← isHead, Operation.memberIds_of_not_isGroup plain] at membersListed
    rw [← isHead, List.map_eq_nil_iff.mp (List.map_eq_nil_iff.mp membersListed)]
  · -- A member of a group has a member slot.
    obtain ⟨header, _, headFound⟩ := inBlock_iff.mp headInside
    have headListed : graph.operationList[header]? = some head.operation :=
      WellFormed.operationList_getElem?.mpr ⟨head, headFound, rfl⟩
    have named : node.operation.id ∈ head.operation.memberIds := by
      rw [← membersListed]
      exact List.mem_map_of_mem (List.mem_map_of_mem isMember)
    have isGroup := Operation.isGroup_of_mem_memberIds named
    rw [Operation.memberIds_of_isGroup isGroup] at named
    obtain ⟨behind, within⟩ :=
      (wellFormed.mem_marker_inputs_iff headListed isGroup listed).mp named
    have slot := (wellFormed.headerSlots header _ headListed isGroup).2
      (position - (header + 1)) (by omega)
    rw [Nat.add_sub_cancel' behind, free] at slot
    cases slot

def blockRank? (graph : Graph) (position : Nat) : Option Nat := do
  let owner ← (blockOwners graph.blocks)[position]?
  let ranking ← (rankings graph.blockSources).get? owner
  return ranking.rank

def FedByGroup (graph : Graph) (position : Nat) : Prop :=
  ∃ source header, Relation.TransGen graph.Feeds source position ∧ graph.InGroup header source

theorem FedByGroup.of_feeds {graph : Graph} {producer consumer : Nat}
    (feeds : graph.Feeds producer consumer) (fed : graph.FedByGroup producer) :
    graph.FedByGroup consumer := by
  obtain ⟨source, header, flow, inside⟩ := fed
  exact ⟨source, header, flow.tail feeds, inside⟩

section Carried

variable {graph : Graph}

/-- The operation at a position makes up the block `owner` alone, and no group feeds it. -/
structure StandsAlone (graph : Graph) (position owner : Nat) : Prop where
  owned : (blockOwners graph.blocks)[position]? = some owner
  free : ∃ rank, graph.slots[position]? = some (.free rank)
  unfed : ¬graph.FedByGroup position

theorem StandsAlone.of_feeds (wellFormed : graph.WellFormed) {producer consumer owner : Nat}
    (alone : graph.StandsAlone consumer owner) (feeds : graph.Feeds producer consumer) :
    ∃ source, graph.StandsAlone producer source := by
  obtain ⟨writer, _, name, listed, _, writes, _⟩ := wellFormed.feeds_iff.mp feeds
  obtain ⟨node, found, _⟩ := WellFormed.operationList_getElem?.mp listed
  obtain ⟨source, owned, _⟩ := exists_owner found
  refine ⟨source, owned, ?_, fun fed => alone.unfed (fed.of_feeds feeds)⟩
  apply wellFormed.freeSlots producer writer listed (Connections.writes_iff.mp writes).1
  intro header inside
  exact alone.unfed ⟨producer, header, Relation.TransGen.single feeds, inside⟩

theorem StandsAlone.position_eq (wellFormed : graph.WellFormed)
    (arranged : Grouping.Arranged graph.operationList) {first second owner : Nat}
    (alone : graph.StandsAlone first owner) (otherAlone : graph.StandsAlone second owner) :
    first = second := by
  obtain ⟨_, free⟩ := alone.free
  obtain ⟨_, otherFree⟩ := otherAlone.free
  obtain ⟨node, block, found, _, blockFound, nodes⟩ :=
    exists_block_of_free wellFormed arranged free alone.owned
  obtain ⟨other, _, otherFound, _, sameFound, otherNodes⟩ :=
    exists_block_of_free wellFormed arranged otherFree otherAlone.owned
  rw [blockFound] at sameFound
  cases sameFound
  rw [nodes] at otherNodes
  cases otherNodes
  have bound := (List.getElem?_eq_some_iff.mp found).1
  refine (List.getElem?_inj (by simpa [ids, operationList] using bound)
    wellFormed.operationIds).mp ?_
  simp [ids, operationList, found, otherFound]

/-- What feeds an operation that stands alone stands alone as well, so both ways of counting meet
the same sources. -/
theorem mirrors_standsAlone (wellFormed : graph.WellFormed)
    (arranged : Grouping.Arranged graph.operationList) :
    (sources graph.tensors graph.operations).Mirrors graph.StandsAlone graph.blockSources := by
  intro position owner alone
  obtain ⟨_, free⟩ := alone.free
  obtain ⟨node, block, found, _, blockFound, nodes⟩ :=
    exists_block_of_free wellFormed arranged free alone.owned
  refine ⟨node.inputs.map graph.producer?, _, ?_,
    blockSources_getElem?_iff.mpr ⟨block, blockFound, rfl⟩, ?_⟩
  · rw [sources, List.getElem?_map, found]
    rfl
  rw [blockSourcesAt, nodes, List.flatMap_singleton, ← List.filterMap_eq_map]
  have same : List.Forall₂ (fun input other => input = other ∧ input ∈ node.inputs)
      node.inputs node.inputs := by
    rw [List.forall₂_same]
    exact fun input member => ⟨rfl, member⟩
  refine List.rel_filterMap ?_ same
  rintro tensor _ ⟨rfl, isInput⟩
  cases produced : graph.producer? tensor with
  | none => simp [produced]
  | some producer =>
      have feeds : graph.Feeds producer position := ⟨node, found, tensor, isInput, produced⟩
      obtain ⟨source, sourceAlone⟩ := alone.of_feeds wellFormed feeds
      have outside : source ≠ owner := by
        rintro rfl
        rw [sourceAlone.position_eq wellFormed arranged alone] at feeds
        exact wellFormed.acyclic position (Relation.TransGen.single feeds)
      simpa [produced, sourceAlone.owned, outside] using sourceAlone

/-- The rank in a slot is that of the operation among all operations, groups left aside. -/
theorem rank_of_free {tensors : List Tensor} {operations : List Operation} {capacity : Capacity}
    (built : build tensors operations capacity = .ok graph) {position rank : Nat}
    (free : graph.slots[position]? = some (.free rank)) :
    ∃ ranking, (rankings (sources graph.tensors graph.operations)).get? position = some ranking ∧
      ranking.rank = rank := by
  obtain ⟨acceptable, arranged, grouped, checked, known, ranked, same⟩ := build_ok_iff.mp built
  obtain ⟨isArranged, _⟩ := arrangeGroups_ok acceptable.operationIds grouped
  have fits := slotsFrom_fits isArranged 0 0 false (length_ranks ranked)
  rw [same] at free
  have listed := fits.rank_of_free free
  rw [List.getElem?_map, Option.map_eq_some_iff] at listed
  obtain ⟨ranking, found, sameRank⟩ := listed
  refine ⟨ranking, ?_, sameRank⟩
  rw [same]
  have entries := mapM_id_eq_some_iff.mp ranked
  change (rankings (connectedSources tensors arranged)).get? position = _
  simp [Rankings.get?, entries, found]

theorem blockRank?_of_free {tensors : List Tensor} {operations : List Operation}
    {capacity : Capacity} (built : build tensors operations capacity = .ok graph)
    {position rank : Nat} (free : graph.slots[position]? = some (.free rank))
    (unfed : ¬graph.FedByGroup position) : graph.blockRank? position = some rank := by
  have wellFormed := wellFormed_of_build built
  obtain ⟨owner, owned⟩ := exists_owner_of_slot wellFormed free
  have alone : graph.StandsAlone position owner := ⟨owned, ⟨rank, free⟩, unfed⟩
  obtain ⟨ranking, ranked, sameRank⟩ := rank_of_free built free
  rw [rankings_get?_of_mirrors (mirrors_standsAlone wellFormed (arranged_of_build built)) alone]
    at ranked
  simp [blockRank?, owned, ranked, sameRank]

end Carried

def carriedRank? (graph : Graph) (position : Nat) : Option Nat :=
  graph.slots[position]?.bind Slot.rank?

/-- No pinned group stands between the two positions. -/
def SameRun (graph : Graph) (first second : Nat) : Prop :=
  first < second ∧ ∀ between < second, first < between →
    graph.slots[between]?.any Slot.isPinned = false

/-- Of two free operations in one run, the first has no higher rank than the second. -/
def AscendsBy (graph : Graph) (rank? : Nat → Option Nat) : Prop :=
  ∀ first second, graph.SameRun first second → (graph.carriedRank? first).isSome = true →
    (graph.carriedRank? second).isSome = true →
    ∃ rank other, rank? first = some rank ∧ rank? second = some other ∧ rank ≤ other

theorem carriedRank?_eq_some_iff {graph : Graph} {position rank : Nat} :
    graph.carriedRank? position = some rank ↔ graph.slots[position]? = some (.free rank) := by
  rw [carriedRank?, Option.bind_eq_some_iff]
  constructor
  · rintro ⟨slot, found, carried⟩
    cases slot with
    | free here => cases carried; exact found
    | header _ _ => cases carried
    | member _ _ => cases carried
  · intro free
    exact ⟨.free rank, free, rfl⟩

section Sorted

variable {tensors : List Tensor} {operations : List Operation} {capacity : Capacity}
  {graph result : Graph}

theorem exists_sortRuns_of_sorted (built : build tensors operations capacity = .ok graph)
    (sorted : graph.sorted = .ok result) :
    ∃ items entries : List (Block × Ranking),
      entries = Schedule.sortRuns (fun entry => entry.1.isPinned) (fun entry => entry.2.key) []
        items ∧
      result.blocks.map Block.nodes = entries.map (fun entry => entry.1.nodes) ∧
      result.blockRankings = .ok (entries.map Prod.snd) := by
  obtain ⟨found, ranked, rebuilt, _⟩ := sorted_ok_iff.mp sorted
  have sameNodes := map_nodes_blocks_of_arrange built (length_of_blockRankings ranked) rebuilt
  refine ⟨graph.blocks.zip found, _, rfl, ?_, ?_⟩
  · rw [sameNodes, Schedule.arrange, List.map_map]
    rfl
  · refine blockRankings_of_arrange (wellFormed_of_build built) (wellFormed_of_build rebuilt)
      ranked sameNodes ?_ ?_
    · rw [Schedule.arrange, List.zip_map', List.map_id']
      exact Schedule.sortRuns_perm _ _ [] _
    · rw [Schedule.arrange, List.length_map, List.length_map]

theorem exists_entry_of_free (wellFormed : graph.WellFormed)
    (arranged : Grouping.Arranged graph.operationList) {entries : List (Block × Ranking)}
    (nodes : graph.blocks.map Block.nodes = entries.map fun entry => entry.1.nodes)
    (ranked : graph.blockRankings = .ok (entries.map Prod.snd)) {position rank : Nat}
    (free : graph.slots[position]? = some (.free rank)) :
    ∃ owner entry, (blockOwners graph.blocks)[position]? = some owner ∧
      entries[owner]? = some entry ∧ graph.blockRank? position = some entry.2.rank := by
  obtain ⟨owner, owned⟩ := exists_owner_of_slot wellFormed free
  obtain ⟨_, block, _, _, blockFound, _⟩ := exists_block_of_free wellFormed arranged free owned
  have entryBound := (List.getElem?_eq_some_iff.mp blockFound).1
  rw [← List.length_map Block.nodes, nodes, List.length_map] at entryBound
  have entryFound := List.getElem?_eq_getElem entryBound
  have listed : (entries.map Prod.snd)[owner]? = some entries[owner].2 := by
    rw [List.getElem?_map, entryFound, Option.map_some]
  refine ⟨_, _, owned, entryFound, ?_⟩
  simp [blockRank?, owned, get?_of_blockRankings ranked listed]

theorem ne_owner_of_isPinned (wellFormed : graph.WellFormed)
    (arranged : Grouping.Arranged graph.operationList) {position owner rank place : Nat}
    (free : graph.slots[position]? = some (.free rank))
    (owned : (blockOwners graph.blocks)[position]? = some owner) {block : Block}
    (found : graph.blocks[place]? = some block) (isPinned : block.isPinned = true) :
    place ≠ owner := by
  rintro rfl
  obtain ⟨marker, members, nodes, markerPinned⟩ := Block.marker_of_isPinned isPinned
  obtain ⟨node, own, _, plain, ownFound, alone⟩ :=
    exists_block_of_free wellFormed arranged free owned
  rw [found] at ownFound
  cases ownFound
  rw [nodes] at alone
  cases alone
  rw [Operation.isGroup_of_isPinned markerPinned] at plain
  cases plain

theorem not_isPinned_of_sameRun (wellFormed : graph.WellFormed)
    (arranged : Grouping.Arranged graph.operationList) {first second : Nat}
    (run : graph.SameRun first second) {rank other firstOwner secondOwner place : Nat}
    (free : graph.slots[first]? = some (.free rank))
    (otherFree : graph.slots[second]? = some (.free other))
    (owned : (blockOwners graph.blocks)[first]? = some firstOwner)
    (otherOwned : (blockOwners graph.blocks)[second]? = some secondOwner)
    (behind : firstOwner ≤ place) (before : place ≤ secondOwner) {block : Block}
    (found : graph.blocks[place]? = some block) : block.isPinned = false := by
  by_contra isPinned
  rw [Bool.not_eq_false] at isPinned
  obtain ⟨marker, members, nodes, markerPinned⟩ := Block.marker_of_isPinned isPinned
  have isGroup := Operation.isGroup_of_isPinned markerPinned
  have notFirst := ne_owner_of_isPinned wellFormed arranged free owned found isPinned
  have notSecond := ne_owner_of_isPinned wellFormed arranged otherFree otherOwned found isPinned
  obtain ⟨header, headerOwned, markerFound⟩ :=
    inBlock_iff.mp ⟨block, found, by rw [nodes]; exact List.mem_cons_self⟩
  have afterFirst : first < header := by
    by_contra notAfter
    have ordered := owner_le_of_le (by omega) headerOwned owned
    omega
  have beforeSecond : header < second := by
    by_contra notBefore
    have ordered := owner_le_of_le (by omega) otherOwned headerOwned
    omega
  have slot := (wellFormed.headerSlots header _
    (WellFormed.operationList_getElem?.mpr ⟨marker, markerFound, rfl⟩) isGroup).1
  have unpinned := run.2 header beforeSecond afterFirst
  rw [slot, Option.any_some, Slot.isPinned, markerPinned] at unpinned
  cases unpinned

theorem ascendsBy_blockRank? (built : build tensors operations capacity = .ok graph)
    (sorted : graph.sorted = .ok result) : result.AscendsBy result.blockRank? := by
  intro first second run isFree otherIsFree
  obtain ⟨rank, carried⟩ := Option.isSome_iff_exists.mp isFree
  obtain ⟨other, otherCarried⟩ := Option.isSome_iff_exists.mp otherIsFree
  have free := carriedRank?_eq_some_iff.mp carried
  have otherFree := carriedRank?_eq_some_iff.mp otherCarried
  obtain ⟨_, resultBuilt⟩ := exists_build_of_sorted sorted
  have wellFormed := wellFormed_of_build resultBuilt
  have arranged := arranged_of_build resultBuilt
  obtain ⟨items, entries, sortedEntries, nodes, ranked⟩ := exists_sortRuns_of_sorted built sorted
  obtain ⟨firstOwner, entry, owned, entryFound, hasRank⟩ :=
    exists_entry_of_free wellFormed arranged nodes ranked free
  obtain ⟨secondOwner, otherEntry, otherOwned, otherFound, otherHasRank⟩ :=
    exists_entry_of_free wellFormed arranged nodes ranked otherFree
  refine ⟨entry.2.rank, otherEntry.2.rank, hasRank, otherHasRank, ?_⟩
  rcases Nat.eq_or_lt_of_le (owner_le_of_le (Nat.le_of_lt run.1) owned otherOwned)
    with same | before
  · rw [same, otherFound] at entryFound
    cases entryFound
    exact Nat.le_refl _
  · rw [sortedEntries] at entryFound otherFound
    have inOrder := Schedule.notAfter_of_unpinned _ _ before entryFound otherFound ?_
    · rcases StableSort.notAfter_iff.mp inOrder with lower | ⟨equal, _⟩
      · exact Nat.le_of_lt lower
      · exact Nat.le_of_eq equal
    · intro place item behind ahead found
      rw [← sortedEntries] at found
      have placed : (result.blocks.map Block.nodes)[place]? = some item.1.nodes := by
        rw [nodes, List.getElem?_map, found]
        rfl
      rw [List.getElem?_map, Option.map_eq_some_iff] at placed
      obtain ⟨block, blockFound, sameNodes⟩ := placed
      have unpinned := not_isPinned_of_sameRun wellFormed arranged run free otherFree owned
        otherOwned behind ahead blockFound
      rwa [Block.isPinned, Block.marker?, sameNodes] at unpinned

end Sorted

/-- Within a run the free operations ascend by the ranks of their blocks, and those that no group
feeds carry these ranks in their slots. -/
theorem sorted_runs_ascend {graph result : Graph} (obtained : graph.Obtained)
    (sorted : graph.sorted = .ok result) :
    result.AscendsBy result.blockRank? ∧
      ∀ position rank, result.carriedRank? position = some rank → ¬result.FedByGroup position →
        result.blockRank? position = some rank := by
  obtain ⟨_, _, _, built⟩ := obtained.exists_build
  obtain ⟨_, resultBuilt⟩ := exists_build_of_sorted sorted
  refine ⟨ascendsBy_blockRank? built sorted, ?_⟩
  intro position rank carried unfed
  exact blockRank?_of_free resultBuilt (carriedRank?_eq_some_iff.mp carried) unfed

def tripleSum (id : OperationId) (output : TensorId) : Operation :=
  { relaySum with id, inputs := [0, 0, 0], outputs := [output] }

/-- A copy that reads from a group, and a sum with more inputs than that copy has sources. -/
def fedOperations : List Operation :=
  [movableMarker 10 [1, 2], relayCopy 1 0 1, tripleSum 2 2, relayCopy 3 1 3, tripleSum 4 4]

theorem sorted_runs_ascend_fed :
    ∃ graph result, build relayTensors fedOperations ⟨8, 8⟩ = .ok graph ∧
      graph.sorted = .ok result ∧ result.operationList.map Operation.id = [4, 10, 1, 2, 3] ∧
      result.blockRank? 4 = some 5 ∧ result.AscendsBy result.blockRank? ∧
      ¬result.FedByGroup 0 ∧ result.blockRank? 0 = some 3 := by
  refine ⟨_, _, rfl, rfl, by decide, by decide, ?_⟩
  have built := @Obtained.built relayTensors fedOperations ⟨8, 8⟩ _ rfl
  obtain ⟨ascends, carried⟩ := sorted_runs_ascend built rfl
  refine ⟨ascends, ?unfed, carried 0 3 rfl ?unfed⟩
  rintro ⟨_, _, flow, _⟩
  obtain ⟨_, _, node, found, tensor, isInput, produced⟩ := Relation.TransGen.tail'_iff.mp flow
  cases found
  have first : tensor ∈ [0, 0, 0] := isInput
  obtain rfl : tensor = 0 := by simpa using first
  cases produced

/-- The sum moves in front of the copy, although the copy carries the lower rank. -/
theorem carried_ranks_descend :
    ∃ graph result, build relayTensors fedOperations ⟨8, 8⟩ = .ok graph ∧
      graph.sorted = .ok result ∧ result.carriedRank? 0 = some 3 ∧
      result.carriedRank? 4 = some 2 ∧ ¬result.AscendsBy result.carriedRank? := by
  refine ⟨_, _, rfl, rfl, rfl, rfl, ?_⟩
  intro ascends
  obtain ⟨rank, other, carried, otherCarried, ordered⟩ :=
    ascends 0 4 ⟨by decide, by decide⟩ rfl rfl
  cases carried
  cases otherCarried
  exact absurd ordered (by decide)

end Graph

end TensorGraph
