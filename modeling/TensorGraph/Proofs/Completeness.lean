import TensorGraph.Proofs.BlockDependencies

/-!
Sorting misses no execution order. Where two operations end up in the wrong order they belong to one
group, or a pinned group stands between them, and then they are in the wrong order in every
arrangement. Where blocks feed each other in a circle, no order exists at all.
-/

namespace TensorGraph

open Operation (ids)

namespace Schedule

theorem Separated.map {α β : Type} {pinned : β → Bool} (image : α → β) {items : List α}
    {first second : α} (separated : Separated (fun item => pinned (image item)) items first second) :
    Separated pinned (items.map image) (image first) (image second) := by
  obtain ⟨left, item, right, split, isPinned, sides⟩ := separated
  refine ⟨left.map image, image item, right.map image, ?_, isPinned, ?_⟩
  · rw [split, List.map_append, List.map_cons]
  · rcases sides with ⟨isLeft, notLeft⟩ | ⟨same, isRight⟩
    · rw [← List.map_cons]
      exact Or.inl ⟨List.mem_map_of_mem isLeft, List.mem_map_of_mem notLeft⟩
    · exact Or.inr ⟨congrArg image same, List.mem_map_of_mem isRight⟩

end Schedule

namespace Graph

/-- In every arrangement the first operation stands before the second one. -/
def Forces (graph : Graph) (first second : Operation) : Prop :=
  ∀ order, graph.Arrangement order → order.idxOf first < order.idxOf second

section Arrangements

variable {graph : Graph}

theorem forces_within_block (wellFormed : graph.WellFormed)
    (arranged : Grouping.Arranged graph.operationList) {block : Block}
    (present : block ∈ graph.blocks) : block.operations.Pairwise graph.Forces := by
  rw [List.pairwise_iff_forall_sublist]
  intro first second both order arrangement
  have within := arrangement.block_infix arranged wellFormed.operationIds present
  have ordered := pairwise_idxOf (arrangement.nodup wellFormed.operationIds)
  exact List.pairwise_iff_forall_sublist.mp ordered (both.trans within.sublist)

theorem forces_of_separated (wellFormed : graph.WellFormed)
    (arranged : Grouping.Arranged graph.operationList) {block other : Block}
    (separated : Schedule.Separated Block.isPinned graph.blocks block other)
    {first second : Operation} (firstMember : first ∈ block.operations)
    (secondMember : second ∈ other.operations) : graph.Forces first second := by
  intro order arrangement
  obtain ⟨left, pinned, right, split, isPinned, sides⟩ := separated
  obtain ⟨before, after, same, leftMoved, rightMoved⟩ :=
    arrangement.split_pinned arranged split isPinned
  have unique := arrangement.nodup wellFormed.operationIds
  rw [same] at unique ⊢
  rcases sides with ⟨isLeft, notLeft⟩ | ⟨samePinned, isRight⟩
  · refine idxOf_lt_of_append unique
      (leftMoved.mem_iff.mpr (List.mem_flatMap.mpr ⟨block, isLeft, firstMember⟩)) ?_
    rcases List.mem_cons.mp notLeft with here | isRight
    · exact List.mem_append_left _ (here ▸ secondMember)
    · exact List.mem_append_right _
        (rightMoved.mem_iff.mpr (List.mem_flatMap.mpr ⟨other, isRight, secondMember⟩))
  · rw [← List.append_assoc] at unique ⊢
    exact idxOf_lt_of_append unique (List.mem_append_right _ (samePinned ▸ firstMember))
      (rightMoved.mem_iff.mpr (List.mem_flatMap.mpr ⟨other, isRight, secondMember⟩))

theorem arrangement_of_ranked (arranged : Grouping.Arranged graph.operationList)
    {rankings : List Ranking} (ranked : rankings.length = graph.blocks.length) :
    graph.Arrangement
      ((Schedule.arrange graph.blocks rankings).flatMap Block.operations) where
  operations := flatMap_arrange_perm ranked
  groups _ _ found isGroup :=
    arranged_members (Block.arranged_flatMap (headed_of_mem_arrange arranged ranked)) found isGroup
  pinned := keepsPinned_arrange arranged ranked

theorem nodup_blocks (wellFormed : graph.WellFormed)
    (arranged : Grouping.Arranged graph.operationList) : graph.blocks.Nodup := by
  rw [List.nodup_iff_getElem?_ne_getElem?]
  intro first second before bound same
  have found := List.getElem?_eq_getElem bound
  obtain ⟨head, there⟩ := exists_headAt arranged found
  obtain ⟨other, here⟩ := exists_headAt arranged (same.trans found)
  obtain ⟨node, inside, sameHead⟩ := there.inBlock
  obtain ⟨block, blockFound, member⟩ := inside
  have position := InBlock.unique wellFormed.operationIds ⟨block, same.trans blockFound, member⟩
    ⟨block, blockFound, member⟩ rfl
  omega

/-- Whatever the sort leaves in the wrong order is in the wrong order in every arrangement. -/
theorem arrange_forces (wellFormed : graph.WellFormed)
    (arranged : Grouping.Arranged graph.operationList) {rankings : List Ranking}
    (ranked : graph.blockRankings = .ok rankings) :
    ((Schedule.arrange graph.blocks rankings).flatMap Block.operations).Pairwise
      fun first second => second.Feeds first → graph.Forces first second := by
  have count := length_of_blockRankings ranked
  have listed := Schedule.sortRuns_perm (fun entry : Block × Ranking => entry.1.isPinned)
    (fun entry => entry.2.key) [] (graph.blocks.zip rankings)
  rw [List.nil_append] at listed
  have blocksOf : (graph.blocks.zip rankings).map Prod.fst = graph.blocks :=
    List.map_fst_zip (Nat.le_of_eq count.symm)
  have different : (graph.blocks.zip rankings).Nodup := by
    have unique := nodup_blocks wellFormed arranged
    rw [← blocksOf] at unique
    exact unique.of_map
  rw [List.pairwise_flatMap]
  constructor
  · intro block present
    have inside := forces_within_block wellFormed arranged
      ((Schedule.arrange_perm count).mem_iff.mp present)
    refine inside.imp ?_
    intro first second forces _
    exact forces
  · rw [Schedule.arrange, List.pairwise_map]
    refine ((Schedule.sortRuns_pairwise _ _ [] _).and (listed.nodup_iff.mpr different)).imp_of_mem ?_
    rintro ⟨block, ranking⟩ ⟨other, otherRanking⟩ member otherMember ⟨ordered, apart⟩
      first firstMember second secondMember feeds
    rcases ordered with ordered | separated
    · -- The first block reads from the second one, so its key is the larger one.
      exfalso
      obtain ⟨position, found⟩ := List.mem_iff_getElem?.mp (listed.mem_iff.mp member)
      obtain ⟨place, otherFound⟩ := List.mem_iff_getElem?.mp (listed.mem_iff.mp otherMember)
      obtain ⟨blockFound, rankingFound⟩ := List.getElem?_zip_eq_some.mp found
      obtain ⟨otherBlockFound, otherRankingFound⟩ := List.getElem?_zip_eq_some.mp otherFound
      obtain ⟨reader, readerMember, sameReader⟩ := List.mem_map.mp firstMember
      obtain ⟨writer, writerMember, sameWriter⟩ := List.mem_map.mp secondMember
      rw [← sameReader, ← sameWriter] at feeds
      have lists : graph.blockSources.Lists position place := by
        refine (lists_blockSources_iff wellFormed).mpr ⟨fun same => apart ?_, reader, writer,
          ⟨block, blockFound, readerMember⟩, ⟨other, otherBlockFound, writerMember⟩, feeds⟩
        rw [same, otherFound] at found
        exact (Option.some.inj found).symm
      have larger := key_lt_of_lists lists (get?_of_blockRankings ranked rankingFound)
        (get?_of_blockRankings ranked otherRankingFound)
      rw [StableSort.notAfter_iff] at ordered
      omega
    · rw [List.nil_append] at separated
      have blocksSeparated := separated.map Prod.fst
      rw [blocksOf] at blocksSeparated
      exact forces_of_separated wellFormed arranged blocksSeparated firstMember secondMember

theorem exists_violation (wellFormed : graph.WellFormed) {error : GraphError}
    (failed : graph.checkOrder = .error error) :
    ∃ (consumer producer : Nat) (reader writer : Operation),
      graph.operationList[consumer]? = some reader ∧
        graph.operationList[producer]? = some writer ∧ consumer ≤ producer ∧
        writer.Feeds reader ∧ error = .scheduleViolation writer.id reader.id := by
  rw [checkOrder_eq] at failed
  cases violations : graph.orderViolations with
  | nil => simp [violations, failAtFirst] at failed
  | cons first rest =>
      simp only [violations, failAtFirst, Except.error.injEq] at failed
      have member : first ∈ graph.orderViolations := by simp [violations]
      obtain ⟨⟨reader, consumer⟩, listed, violated⟩ := List.mem_flatMap.mp member
      have found := List.mem_zipIdx_iff_getElem?.mp listed
      obtain ⟨tensor, isInput, source⟩ := List.mem_filterMap.mp violated
      obtain ⟨rfl, _, produced, behind⟩ := violation?_eq_some_iff.mp source
      obtain ⟨writer, writerFound, isOutput⟩ := wellFormed.producer?_eq_some_iff.mp produced
      refine ⟨first.consumer, first.producer, reader.operation, writer.operation,
        WellFormed.operationList_getElem?.mpr ⟨reader, found, rfl⟩,
        WellFormed.operationList_getElem?.mpr ⟨writer, writerFound, rfl⟩, behind, ?_, ?_⟩
      · exact (feeds_iff_inputs wellFormed (List.mem_of_getElem? writerFound)
          (List.mem_of_getElem? found)).mpr ⟨tensor, isOutput, isInput⟩
      · simp only [operationId, found, writerFound, Option.map_some, Option.getD_some] at failed
        exact failed.symm

theorem heads_head (wellFormed : graph.WellFormed)
    (arranged : Grouping.Arranged graph.operationList) {head operation : Operation}
    (headed : Operation.Heads graph.operationList head operation) :
    Operation.Heads graph.operationList head head := by
  obtain ⟨position, _, here, _, _⟩ := (heads_iff wellFormed arranged).mp headed
  obtain ⟨node, inside, same⟩ := here.inBlock
  exact (heads_iff wellFormed arranged).mpr ⟨position, node, here, inside, same⟩

theorem between_head (wellFormed : graph.WellFormed)
    (arranged : Grouping.Arranged graph.operationList) {order : List Operation}
    (arrangement : graph.Arrangement order) {head operation : Operation}
    (headed : Operation.Heads graph.operationList head operation) :
    order.idxOf head ≤ order.idxOf operation ∧
      ∀ middle ∈ order, order.idxOf head ≤ order.idxOf middle →
        order.idxOf middle ≤ order.idxOf operation →
        Operation.Heads graph.operationList head middle := by
  have unique := arrangement.nodup wellFormed.operationIds
  obtain ⟨position, node, here, inside, same⟩ := (heads_iff wellFormed arranged).mp headed
  obtain ⟨block, found, member⟩ := inside
  have block' := here
  obtain ⟨_, first, members, otherFound, nodes, sameHead, _⟩ := block'
  rw [found] at otherFound
  cases otherFound
  have within := arrangement.block_infix arranged wellFormed.operationIds
    (List.mem_of_getElem? found)
  have operations : block.operations = head :: members.map OperationNode.operation := by
    rw [Block.operations, nodes, List.map_cons, sameHead]
  have operationMember : operation ∈ block.operations :=
    same ▸ List.mem_map_of_mem member
  have headMember : head ∈ block.operations := by simp [operations]
  constructor
  · have ordered := (pairwise_idxOf unique).sublist within.sublist
    rw [operations, List.pairwise_cons] at ordered
    rw [operations] at operationMember
    rcases List.mem_cons.mp operationMember with isHead | isMember
    · rw [isHead]
    · exact Nat.le_of_lt (ordered.1 operation isMember)
  · intro middle listed behind before
    have middleMember :=
      mem_of_between unique within headMember operationMember listed behind before
    obtain ⟨middleNode, nodeMember, sameMiddle⟩ := List.mem_map.mp middleMember
    exact (heads_iff wellFormed arranged).mpr
      ⟨position, middleNode, here, ⟨block, found, nodeMember⟩, sameMiddle⟩

theorem producersFirst_of_ordered (wellFormed : graph.WellFormed) (ordered : graph.Ordered) :
    ∀ producer ∈ graph.operationList, ∀ consumer ∈ graph.operationList,
      producer.Feeds consumer →
        graph.operationList.idxOf producer < graph.operationList.idxOf consumer := by
  intro producer producerListed consumer consumerListed ⟨name, writes, reads⟩
  refine ordered_iff_feeds.mp ordered _ _ (wellFormed.feeds_iff.mpr ?_)
  exact ⟨producer, consumer, name, List.getElem?_idxOf producerListed,
    List.getElem?_idxOf consumerListed, writes, reads⟩

theorem idxOf_lt_of_blockFeeds (wellFormed : graph.WellFormed)
    (arranged : Grouping.Arranged graph.operationList) {order : List Operation}
    (admissible : graph.Admissible order) {first second : Operation}
    (feeds : Operation.BlockFeeds graph.operationList first second) :
    order.idxOf first < order.idxOf second := by
  obtain ⟨different, writer, reader, writerHeaded, readerHeaded, feeds⟩ := feeds
  have listed : ∀ {operation : Operation}, operation ∈ graph.operationList → operation ∈ order :=
    fun member => admissible.operations.mem_iff.mpr member
  have forward := admissible.producersFirst writer (listed writerHeaded.2.1) reader
    (listed readerHeaded.2.1) feeds
  have firstEarly := (between_head wellFormed arranged admissible.toArrangement writerHeaded).1
  by_contra notBefore
  -- Otherwise the first head stands between the second one and the reader, inside the second block.
  have inSecond := (between_head wellFormed arranged admissible.toArrangement readerHeaded).2 first
    (listed writerHeaded.1) (by omega) (by omega)
  exact different (heads_unique wellFormed arranged
    (heads_head wellFormed arranged writerHeaded) inSecond)

theorem not_admissible_of_circular (wellFormed : graph.WellFormed)
    (arranged : Grouping.Arranged graph.operationList)
    (circular : Operation.BlocksCircular graph.operationList) (order : List Operation) :
    ¬graph.Admissible order := by
  intro admissible
  obtain ⟨head, circle⟩ := circular
  have forward : ∀ last, Relation.TransGen (Operation.BlockFeeds graph.operationList) head last →
      order.idxOf head < order.idxOf last := by
    intro last path
    induction path with
    | single feeds => exact idxOf_lt_of_blockFeeds wellFormed arranged admissible feeds
    | tail _ feeds ih =>
        exact ih.trans (idxOf_lt_of_blockFeeds wellFormed arranged admissible feeds)
  exact Nat.lt_irrefl _ (forward head circle)

end Arrangements

section Built

variable {tensors : List Tensor} {operations : List Operation} {capacity : Capacity}
  {graph : Graph}

theorem exists_build_of_arranged (built : build tensors operations capacity = .ok graph)
    {order : List Operation} (arranged : Grouping.Arranged order)
    (same : order.Perm graph.operationList) :
    ∃ result, build graph.tensorList order graph.capacity = .ok result := by
  obtain ⟨acceptable, _, sound, acyclic⟩ := exists_build_iff.mp ⟨graph, build_descriptors built⟩
  have accepted := acceptable.perm same
  exact exists_build_iff.mpr ⟨accepted, arranged.sound accepted.operationIds,
    sound.perm same.symm, acyclic.of_subset same.subset⟩

theorem sorted_of_circular (built : build tensors operations capacity = .ok graph)
    (circular : Operation.BlocksCircular graph.operationList) :
    ∃ marker : Operation, graph.sorted = .error (.invalidGroup marker.id .notContiguous) := by
  have wellFormed := wellFormed_of_build built
  have arranged := arranged_of_build built
  have unranked : (rankings graph.blockSources).mapM id = none := by
    by_contra ranked
    obtain ⟨found, ranked⟩ := Option.ne_none_iff_exists'.mp ranked
    exact (ranked_blocks_iff wellFormed arranged).mp ⟨found, ranked⟩ circular
  obtain ⟨marker, _, _, blocked, _⟩ :=
    blockedBy_eq wellFormed arranged (acyclic_of_build built) unranked
  refine ⟨marker, ?_⟩
  simp only [sorted, blockRankings, unranked, blocked]
  rfl

/-- Without a circle of blocks, the sort builds one arrangement, and only its last check can fail. -/
theorem exists_sorted_candidate (built : build tensors operations capacity = .ok graph)
    (notCircular : ¬Operation.BlocksCircular graph.operationList) :
    ∃ result : Graph, graph.sorted = (result.checkOrder.map fun _ => result) ∧
      result.WellFormed ∧ graph.Arrangement result.operationList ∧
      result.operationList.Pairwise fun first second =>
        second.Feeds first → graph.Forces first second := by
  have wellFormed := wellFormed_of_build built
  have arranged := arranged_of_build built
  obtain ⟨rankings, found⟩ := (ranked_blocks_iff wellFormed arranged).mpr notCircular
  have ranked := blockRankings_ok_iff.mpr found
  have count := length_of_blockRankings ranked
  have arrangement := arrangement_of_ranked arranged count
  have headed := headed_of_mem_arrange arranged count
  obtain ⟨result, rebuilt⟩ := exists_build_of_arranged built (Block.arranged_flatMap headed)
    arrangement.operations
  obtain ⟨_, listed⟩ := lists_of_arranged rebuilt (Block.arranged_flatMap headed)
  have forces := arrange_forces wellFormed arranged ranked
  rw [← listed] at forces arrangement
  refine ⟨result, ?_, wellFormed_of_build rebuilt, arrangement, forces⟩
  have steps : graph.sorted = (do
      let result ← build graph.tensorList
        ((Schedule.arrange graph.blocks rankings).flatMap Block.operations) graph.capacity
      result.checkOrder
      return result) := by
    rw [sorted, ranked]
    rfl
  rw [steps, rebuilt]
  cases checked : result.checkOrder with
  | error failure => simp [bind, Except.bind, Except.map, checked]
  | ok _ => simp [bind, Except.bind, Except.map, checked, pure, Except.pure]

theorem sorted_outcome (built : build tensors operations capacity = .ok graph) :
    (∃ result, graph.sorted = .ok result ∧ graph.Admissible result.operationList) ∨
      (Operation.BlocksCircular graph.operationList ∧
        ∃ marker : Operation, graph.sorted = .error (.invalidGroup marker.id .notContiguous)) ∨
      (¬Operation.BlocksCircular graph.operationList ∧
        ∃ producer ∈ graph.operationList, ∃ consumer ∈ graph.operationList,
          graph.sorted = .error (.scheduleViolation producer.id consumer.id) ∧
            producer.Feeds consumer ∧ graph.Forces consumer producer) := by
  by_cases circular : Operation.BlocksCircular graph.operationList
  · exact Or.inr (Or.inl ⟨circular, sorted_of_circular built circular⟩)
  · obtain ⟨result, outcome, wellFormed, arrangement, forces⟩ :=
      exists_sorted_candidate built circular
    cases checked : result.checkOrder with
    | ok _ =>
        refine Or.inl ⟨result, by rw [outcome, checked]; rfl, arrangement, ?_⟩
        exact producersFirst_of_ordered wellFormed (checkOrder_ok_iff.mp checked)
    | error failure =>
        obtain ⟨consumer, producer, reader, writer, readerFound, writerFound, behind, feeds,
          violation⟩ := exists_violation wellFormed checked
        obtain ⟨readerBound, readerHere⟩ := List.getElem?_eq_some_iff.mp readerFound
        obtain ⟨writerBound, writerHere⟩ := List.getElem?_eq_some_iff.mp writerFound
        have readerListed := arrangement.operations.mem_iff.mp (List.mem_of_getElem? readerFound)
        have writerListed := arrangement.operations.mem_iff.mp (List.mem_of_getElem? writerFound)
        refine Or.inr (Or.inr ⟨circular, writer, writerListed, reader, readerListed, ?_, feeds, ?_⟩)
        · rw [outcome, checked, violation]
          rfl
        · have apart : consumer ≠ producer := by
            intro same
            subst same
            rw [readerHere] at writerHere
            subst writerHere
            exact acyclic_of_build built reader
              (Relation.TransGen.single ⟨readerListed, readerListed, feeds⟩)
          have forced := List.pairwise_iff_getElem.mp forces consumer producer readerBound
            writerBound (by omega)
          rw [readerHere, writerHere] at forced
          exact forced feeds

/-- Sorting succeeds exactly if the graph has an execution order. It blames a group exactly if
blocks feed each other in a circle, and otherwise two operations that every arrangement puts in the
wrong order. -/
theorem sorted_complete (built : build tensors operations capacity = .ok graph) :
    ((∃ result, graph.sorted = .ok result) ↔ ∃ order, graph.Admissible order) ∧
      ∀ error, graph.sorted = .error error →
        ((∃ group fault, error = .invalidGroup group fault) ↔
          Operation.BlocksCircular graph.operationList) ∧
        (¬Operation.BlocksCircular graph.operationList →
          ∃ producer ∈ graph.operationList, ∃ consumer ∈ graph.operationList,
            error = .scheduleViolation producer.id consumer.id ∧ producer.Feeds consumer ∧
              graph.Forces consumer producer) := by
  have wellFormed := wellFormed_of_build built
  have arranged := arranged_of_build built
  rcases sorted_outcome built with ⟨result, sorted, admissible⟩ | ⟨circular, marker, failed⟩ |
    ⟨notCircular, producer, producerListed, consumer, consumerListed, failed, feeds, forced⟩
  · refine ⟨⟨fun _ => ⟨_, admissible⟩, fun _ => ⟨result, sorted⟩⟩, fun error failed => ?_⟩
    rw [sorted] at failed
    cases failed
  · refine ⟨⟨fun ⟨result, sorted⟩ => ?_, fun ⟨order, admissible⟩ => ?_⟩, fun error same => ?_⟩
    · rw [failed] at sorted
      cases sorted
    · exact absurd admissible (not_admissible_of_circular wellFormed arranged circular order)
    · rw [failed] at same
      cases same
      exact ⟨⟨fun _ => circular, fun _ => ⟨_, _, rfl⟩⟩, fun notCircular => absurd circular notCircular⟩
  · refine ⟨⟨fun ⟨result, sorted⟩ => ?_, fun ⟨order, admissible⟩ => ?_⟩, fun error same => ?_⟩
    · rw [failed] at sorted
      cases sorted
    · have before := admissible.producersFirst producer
        (admissible.operations.mem_iff.mpr producerListed) consumer
        (admissible.operations.mem_iff.mpr consumerListed) feeds
      have behind := forced order admissible.toArrangement
      omega
    · rw [failed] at same
      cases same
      refine ⟨⟨fun ⟨_, _, other⟩ => ?_, fun circular => absurd circular notCircular⟩, fun _ => ?_⟩
      · cases other
      · exact ⟨producer, producerListed, consumer, consumerListed, rfl, feeds, forced⟩

end Built

theorem sorted_complete_relay :
    (∃ graph, build relayTensors relayOperations ⟨8, 8⟩ = .ok graph ∧
      ∃ order, graph.Admissible order) ∧
    ∃ graph, build relayTensors
        [relayMarker, relayCopy 3 2 3, relaySum, relayCopy 2 0 1, relayCopy 1 1 2] ⟨8, 8⟩ =
          .ok graph ∧
      graph.sorted = .error (.scheduleViolation 1 3) ∧ ¬∃ order, graph.Admissible order := by
  constructor
  · refine ⟨_, rfl, ?_⟩
    exact (@sorted_complete relayTensors relayOperations ⟨8, 8⟩ _ rfl).1.mp ⟨_, rfl⟩
  · refine ⟨_, rfl, rfl, fun exists_order => ?_⟩
    obtain ⟨result, sorted⟩ := (@sorted_complete relayTensors
      [relayMarker, relayCopy 3 2 3, relaySum, relayCopy 2 0 1, relayCopy 1 1 2] ⟨8, 8⟩ _
      rfl).1.mpr exists_order
    cases sorted

end Graph

end TensorGraph
