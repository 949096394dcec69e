import Mathlib.Data.List.Infix
import TensorGraph.Proofs.Acceptance
import TensorGraph.Proofs.Schedule

/-!
Orders that the operations of a graph could be put in. Whatever such an order does, it keeps the
operations of a block next to each other and what stands on the two sides of a pinned block apart.
-/

namespace TensorGraph

open Operation (ids)

section Positions

variable {α : Type} [DecidableEq α]

theorem pairwise_idxOf {items : List α} (unique : items.Nodup) :
    items.Pairwise fun first second => items.idxOf first < items.idxOf second := by
  rw [List.pairwise_iff_getElem]
  intro first second firstBound secondBound before
  rwa [unique.idxOf_getElem, unique.idxOf_getElem]

theorem idxOf_lt_of_append {left right : List α} (unique : (left ++ right).Nodup)
    {first second : α} (isLeft : first ∈ left) (isRight : second ∈ right) :
    (left ++ right).idxOf first < (left ++ right).idxOf second :=
  (List.pairwise_append.mp (pairwise_idxOf unique)).2.2 first isLeft second isRight

theorem mem_of_between {part items : List α} (unique : items.Nodup) (within : part <:+: items)
    {first middle last : α} (firstMember : first ∈ part) (lastMember : last ∈ part)
    (middleMember : middle ∈ items) (behind : items.idxOf first ≤ items.idxOf middle)
    (before : items.idxOf middle ≤ items.idxOf last) : middle ∈ part := by
  obtain ⟨left, right, same⟩ := within
  subst same
  rw [List.append_assoc] at unique middleMember behind before
  rcases List.mem_append.mp middleMember with isLeft | notLeft
  · have earlier := idxOf_lt_of_append unique isLeft (List.mem_append_left right firstMember)
    omega
  · rcases List.mem_append.mp notLeft with here | isRight
    · exact here
    · rw [← List.append_assoc] at unique behind before
      have later := idxOf_lt_of_append unique (List.mem_append_right left lastMember) isRight
      omega

end Positions

namespace Block

theorem marker?_eq_some {block : Block} {marker : Operation}
    (found : block.marker? = some marker) :
    ∃ node members, block.nodes = node :: members ∧ node.operation = marker ∧
      marker.isGroup = true := by
  cases nodes : block.nodes with
  | nil => simp [marker?, nodes] at found
  | cons node members =>
      by_cases isGroup : node.operation.isGroup = true
      · simp only [marker?, nodes, List.head?_cons, Option.bind_eq_bind, Option.bind_some,
          isGroup, if_true, Option.some.injEq] at found
        subst found
        exact ⟨node, members, rfl, rfl, isGroup⟩
      · simp [marker?, nodes, isGroup] at found

theorem marker_of_isPinned {block : Block} (isPinned : block.isPinned = true) :
    ∃ marker members, block.nodes = marker :: members ∧ marker.operation.isPinned = true := by
  obtain ⟨operation, found, markerPinned⟩ := (Option.any_eq_true _ _).mp isPinned
  obtain ⟨marker, members, nodes, same, _⟩ := marker?_eq_some found
  exact ⟨marker, members, nodes, by rw [same]; exact markerPinned⟩

end Block

namespace Operation

/-- The block of an operation is headed by the group marker that lists it, or by itself. -/
def Heads (operations : List Operation) (head operation : Operation) : Prop :=
  head ∈ operations ∧ operation ∈ operations ∧
    (operation.id ∈ head.memberIds ∨
      (operation = head ∧ operation.id ∉ Grouping.claimed operations))

def BlockFeeds (operations : List Operation) (first second : Operation) : Prop :=
  first ≠ second ∧ ∃ writer reader, Heads operations first writer ∧
    Heads operations second reader ∧ writer.Feeds reader

def BlocksCircular (operations : List Operation) : Prop :=
  ∃ head, Relation.TransGen (BlockFeeds operations) head head

end Operation

namespace Graph

/-- Orders that keep groups together and respect pinned groups, whether or not they can be run. -/
structure Arrangement (graph : Graph) (order : List Operation) : Prop where
  operations : order.Perm graph.operationList
  groups : ∀ (header : Nat) (marker : Operation), order[header]? = some marker →
    marker.isGroup = true →
    ids ((order.drop (header + 1)).take marker.inputs.length) = marker.inputs
  pinned : KeepsPinned graph.operationList order

structure Admissible (graph : Graph) (order : List Operation) : Prop extends
    graph.Arrangement order where
  producersFirst : ∀ producer ∈ order, ∀ consumer ∈ order, producer.Feeds consumer →
    order.idxOf producer < order.idxOf consumer

namespace Arrangement

variable {graph : Graph} {order : List Operation}

theorem nodup (arrangement : graph.Arrangement order)
    (unique : (ids graph.operationList).Nodup) : order.Nodup :=
  arrangement.operations.nodup_iff.mpr unique.of_map

theorem eq_of_ids_eq {operations first second : List Operation}
    (unique : (ids operations).Nodup) (firstInside : first ⊆ operations)
    (secondInside : second ⊆ operations) (same : ids first = ids second) : first = second := by
  rw [← Grouping.Arranged.filterMap_named unique firstInside, same,
    Grouping.Arranged.filterMap_named unique secondInside]

/-- The operations of a block stand next to each other in every arrangement. -/
theorem block_infix (arrangement : graph.Arrangement order)
    (arranged : Grouping.Arranged graph.operationList)
    (unique : (ids graph.operationList).Nodup) {block : Block} (present : block ∈ graph.blocks) :
    block.operations <:+: order := by
  obtain ⟨head, members, nodes, listed, _⟩ := headed_of_mem_blocks arranged block present
  have inside : block.operations ⊆ graph.operationList := by
    intro operation member
    rw [operationList, ← flatMap_blocks, ← Block.flatMap_operations]
    exact List.mem_flatMap.mpr ⟨block, present, member⟩
  have blockOperations : block.operations =
      head.operation :: members.map OperationNode.operation := by
    rw [Block.operations, nodes, List.map_cons]
  rw [blockOperations] at inside ⊢
  obtain ⟨headInside, membersInside⟩ := List.cons_subset.mp inside
  obtain ⟨header, found⟩ :=
    List.mem_iff_getElem?.mp (arrangement.operations.mem_iff.mpr headInside)
  obtain ⟨bound, here⟩ := List.getElem?_eq_some_iff.mp found
  have followers : ∃ behind,
      order.drop (header + 1) = members.map OperationNode.operation ++ behind := by
    cases isGroup : head.operation.isGroup with
    | false =>
        rw [Operation.memberIds_of_not_isGroup isGroup] at listed
        exact ⟨_, by rw [List.map_eq_nil_iff.mp listed]; rfl⟩
    | true =>
        rw [Operation.memberIds_of_isGroup isGroup] at listed
        have same := arrangement.groups header head.operation found isGroup
        rw [← listed] at same
        refine ⟨(order.drop (header + 1)).drop head.operation.inputs.length, ?_⟩
        rw [← eq_of_ids_eq unique (fun operation member => ?_) membersInside same, listed,
          List.take_append_drop]
        exact arrangement.operations.mem_iff.mp
          (List.mem_of_mem_drop (List.mem_of_mem_take member))
  obtain ⟨behind, follow⟩ := followers
  refine ⟨order.take header, behind, ?_⟩
  rw [List.append_assoc, List.cons_append, ← follow, ← here, List.getElem_cons_drop,
    List.take_append_drop]

/-- A pinned block separates the same operations in every arrangement. -/
theorem split_pinned (arrangement : graph.Arrangement order)
    (arranged : Grouping.Arranged graph.operationList) {left right : List Block} {block : Block}
    (split : graph.blocks = left ++ block :: right) (isPinned : block.isPinned = true) :
    ∃ before after, order = before ++ (block.operations ++ after) ∧
      before.Perm (left.flatMap Block.operations) ∧
      after.Perm (right.flatMap Block.operations) := by
  obtain ⟨marker, members, nodes, markerPinned⟩ := Block.marker_of_isPinned isPinned
  obtain ⟨head, tail, sameNodes, listed, _⟩ :=
    headed_of_mem_blocks arranged block (by rw [split]; simp)
  rw [nodes] at sameNodes
  cases sameNodes
  rw [Operation.memberIds_of_isGroup (Operation.isGroup_of_isPinned markerPinned)] at listed
  have given : graph.operationList = left.flatMap Block.operations ++
      (block.operations ++ right.flatMap Block.operations) := by
    rw [operationList, ← flatMap_blocks graph, ← Block.flatMap_operations, split,
      List.flatMap_append, List.flatMap_cons]
  have blockLength : block.operations.length = marker.operation.inputs.length + 1 := by
    rw [Block.operations, nodes, ← listed, ids, List.length_map, List.length_map, List.length_map,
      List.length_cons]
  have found : graph.operationList[(left.flatMap Block.operations).length]? =
      some marker.operation := by
    rw [given, List.getElem?_append_right (Nat.le_refl _), Nat.sub_self, Block.operations, nodes]
    rfl
  obtain ⟨sameBlock, sameLeft, sameRight⟩ := arrangement.pinned _ _ found markerPinned
  obtain ⟨givenLeft, givenBlock, givenRight⟩ := sections_eq (right.flatMap Block.operations)
    (Eq.refl (left.flatMap Block.operations).length) blockLength
  rw [given, givenBlock] at sameBlock
  rw [given, givenLeft] at sameLeft
  rw [given, givenRight] at sameRight
  refine ⟨_, _, ?_, sameLeft, sameRight⟩
  rw [← sameBlock, ← List.drop_drop, List.take_append_drop, List.take_append_drop]

end Arrangement

end Graph

end TensorGraph
