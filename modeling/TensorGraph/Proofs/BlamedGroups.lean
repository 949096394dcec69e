import TensorGraph.Proofs.Completeness

/-!
Which group a sort blames when it cannot keep groups together. Some group lies on a circle of blocks
then, but the one that is named may only read from it.
-/

namespace TensorGraph

namespace Operation

def OnCircle (operations : List Operation) (head : Operation) : Prop :=
  ∃ other, other ≠ head ∧ Relation.TransGen (BlockFeeds operations) head other ∧
    Relation.TransGen (BlockFeeds operations) other head

theorem onCircle_iff {operations : List Operation} {head : Operation} :
    OnCircle operations head ↔ Relation.TransGen (BlockFeeds operations) head head := by
  constructor
  · rintro ⟨_, _, there, back⟩
    exact there.trans back
  · intro circle
    obtain ⟨other, step, back⟩ := Relation.TransGen.head'_iff.mp circle
    have different : head ≠ other := step.1
    rcases Relation.reflTransGen_iff_eq_or_transGen.mp back with same | path
    · exact absurd same different
    · exact ⟨other, different.symm, Relation.TransGen.single step, path⟩

end Operation

namespace Graph

section Blocked

variable {graph : Graph}

theorem exists_blockFeeds_of_path (wellFormed : graph.WellFormed)
    (arranged : Grouping.Arranged graph.operationList) {consumer producer : Nat} {head : Operation}
    (path : Relation.TransGen graph.blockSources.Lists consumer producer)
    (here : graph.HeadAt consumer head) :
    ∃ next, graph.HeadAt producer next ∧
      Relation.TransGen (Operation.BlockFeeds graph.operationList) next head := by
  induction path with
  | single lists =>
      obtain ⟨next, there, feeds⟩ := exists_blockFeeds_of_lists wellFormed arranged lists here
      exact ⟨next, there, Relation.TransGen.single feeds⟩
  | tail _ lists ih =>
      obtain ⟨middle, between, path⟩ := ih
      obtain ⟨next, there, feeds⟩ := exists_blockFeeds_of_lists wellFormed arranged lists between
      exact ⟨next, there, Relation.TransGen.head feeds path⟩

/-- What leads to a circle of blocks leads to a group on that circle. -/
theorem exists_group_on_circle (wellFormed : graph.WellFormed)
    (arranged : Grouping.Arranged graph.operationList)
    (acyclic : Operation.Acyclic graph.operationList) {place again : Nat} {head : Operation}
    (here : graph.HeadAt place head)
    (leads : Relation.TransGen graph.blockSources.Lists place again)
    (circle : Relation.TransGen graph.blockSources.Lists again again) :
    ∃ culprit ∈ graph.operationList, culprit.isGroup = true ∧
      Operation.OnCircle graph.operationList culprit ∧
      Relation.TransGen (Operation.BlockFeeds graph.operationList) culprit head := by
  obtain ⟨position, ⟨there, back⟩, block, found, marked⟩ :=
    exists_marker_of_circle wellFormed arranged acyclic (circle_within circle)
  -- Operations alone form no circle, so that a group stands on it; the path from it goes there.
  obtain ⟨culprit, isMarker⟩ := Option.isSome_iff_exists.mp marked
  obtain ⟨node, members, nodes, same, isGroup⟩ := Block.marker?_eq_some isMarker
  have inside : graph.InBlock position node := ⟨block, found, by rw [nodes]; simp⟩
  have atPosition : graph.HeadAt position culprit := by
    rw [← same] at isGroup ⊢
    exact headAt_of_isGroup arranged inside isGroup
  refine ⟨culprit, same ▸ List.mem_map_of_mem inside.mem, isGroup, ?_, ?_⟩
  · obtain ⟨other, otherHere, around⟩ :=
      exists_blockFeeds_of_path wellFormed arranged (back.trans there) atPosition
    rw [otherHere.eq atPosition] at around
    exact Operation.onCircle_iff.mpr around
  · obtain ⟨other, otherHere, path⟩ :=
      exists_blockFeeds_of_path wellFormed arranged (leads.trans there) here
    rwa [otherHere.eq atPosition] at path

end Blocked

section Built

variable {tensors : List Tensor} {operations : List Operation} {capacity : Capacity}
  {graph : Graph} {group : OperationId} {fault : GroupFault}

theorem unranked_of_blamed (built : build tensors operations capacity = .ok graph)
    (failed : graph.sorted = .error (.invalidGroup group fault)) :
    (rankings graph.blockSources).mapM id = none := by
  rcases sorted_outcome built with ⟨_, sorted, _⟩ | ⟨circular, _⟩ | ⟨_, _, _, _, _, violated, _⟩
  · rw [sorted] at failed
    cases failed
  · by_contra ranked
    obtain ⟨found, ranked⟩ := Option.ne_none_iff_exists'.mp ranked
    exact (ranked_blocks_iff (wellFormed_of_build built) (arranged_of_build built)).mp
      ⟨found, ranked⟩ circular
  · rw [violated] at failed
    cases failed

/-- Some group on a circle of blocks feeds the group that a sort blames, directly or through further
blocks. The two may be one and the same. -/
theorem blamed_group (built : build tensors operations capacity = .ok graph)
    (failed : graph.sorted = .error (.invalidGroup group fault)) :
    fault = .notContiguous ∧ ∃ marker ∈ graph.operationList, marker.id = group ∧
      marker.isGroup = true ∧ ∃ culprit ∈ graph.operationList, culprit.isGroup = true ∧
        Operation.OnCircle graph.operationList culprit ∧
        Relation.TransGen (Operation.BlockFeeds graph.operationList) culprit marker := by
  have wellFormed := wellFormed_of_build built
  have arranged := arranged_of_build built
  have acyclic := acyclic_of_build built
  have unranked := unranked_of_blamed built failed
  obtain ⟨marker, listed, isGroup, blocked, place, again, here, leads, circle⟩ :=
    blockedBy_eq wellFormed arranged acyclic unranked
  have outcome : graph.sorted = .error (.invalidGroup marker.id .notContiguous) := by
    simp only [sorted, blockRankings, unranked, blocked]
    rfl
  rw [outcome] at failed
  cases failed
  exact ⟨rfl, marker, listed, rfl, isGroup,
    exists_group_on_circle wellFormed arranged acyclic here leads circle⟩

def movableMarker (id : OperationId) (members : List OperationId) : Operation :=
  { relayMarker with id, kind := .group false, inputs := members }

def readerTensors : List Tensor := relayTensors ++ [.scalar 5 .u8]

/-- Two copies of one group and a third that both feeds and consumes that group, and a group in
front of them that only reads what it makes. -/
def readerOperations : List Operation :=
  [movableMarker 11 [4, 5], relayCopy 4 1 4, relayCopy 5 1 5, movableMarker 10 [1, 2],
    relayCopy 1 0 1, relayCopy 2 2 3, relayCopy 3 1 2]

theorem blamed_group_reader :
    ∃ graph, build readerTensors readerOperations ⟨8, 8⟩ = .ok graph ∧
      graph.sorted = .error (.invalidGroup 11 .notContiguous) ∧
      ∃ marker ∈ graph.operationList, marker.id = 11 ∧ marker.isGroup = true ∧
        ∃ culprit ∈ graph.operationList, culprit.isGroup = true ∧
          Operation.OnCircle graph.operationList culprit ∧
          Relation.TransGen (Operation.BlockFeeds graph.operationList) culprit marker := by
  refine ⟨_, rfl, rfl, ?_⟩
  exact (@blamed_group readerTensors readerOperations ⟨8, 8⟩ _ 11 .notContiguous rfl rfl).2

/-- The group in front is blamed, although nothing reads what it writes. -/
theorem blamed_group_off_circle :
    ∃ graph, build readerTensors readerOperations ⟨8, 8⟩ = .ok graph ∧
      graph.sorted = .error (.invalidGroup 11 .notContiguous) ∧
      ∀ marker ∈ graph.operationList, marker.id = 11 →
        ¬Operation.OnCircle graph.operationList marker := by
  refine ⟨_, rfl, rfl, ?_⟩
  intro marker listed named circle
  have outputs : ∀ writer ∈ readerOperations, writer.id ∈ [4, 5, 11] →
      writer.outputs = [] ∨ writer.outputs = [4] ∨ writer.outputs = [5] := by
    decide
  have unread : ∀ reader ∈ readerOperations, reader.reads 4 = false ∧ reader.reads 5 = false := by
    decide
  have members : ∀ operation ∈ readerOperations, operation.id = 11 →
      operation.memberIds = [4, 5] := by
    decide
  obtain ⟨other, step, _⟩ := Relation.TransGen.head'_iff.mp (Operation.onCircle_iff.mp circle)
  obtain ⟨_, writer, reader, writerHeaded, readerHeaded, name, writes, reads⟩ := step
  have inside : writer.id ∈ [4, 5, 11] := by
    rcases writerHeaded.2.2 with isMember | ⟨same, _⟩
    · rw [members marker listed named] at isMember
      simp only [List.mem_cons, List.not_mem_nil, or_false] at isMember ⊢
      rcases isMember with isFirst | isSecond
      · exact Or.inl isFirst
      · exact Or.inr (Or.inl isSecond)
    · rw [same, named]
      simp
  have written := (Connections.writes_iff.mp writes).2
  obtain ⟨noFirst, noSecond⟩ := unread reader readerHeaded.2.1
  rcases outputs writer writerHeaded.2.1 inside with none | first | second
  · rw [none] at written
    cases written
  · rw [first, List.mem_singleton] at written
    rw [written, noFirst] at reads
    cases reads
  · rw [second, List.mem_singleton] at written
    rw [written, noSecond] at reads
    cases reads

end Built

end Graph

end TensorGraph
