import TensorGraph.Proofs.Obtained
import TensorGraph.Proofs.Reachability

/-!
The marks are exact: an operation is marked when data flows from it into a wanted tensor, and not
otherwise. Tensors and markers of groups follow the operations.
-/

namespace TensorGraph

open Operation (ids)

namespace Graph

/-- Data flows from the operation into a wanted tensor, maybe through other operations. -/
def LeadsTo (graph : Graph) (wanted : List Nat) (position : Nat) : Prop :=
  ∃ last node, Relation.ReflTransGen graph.Feeds position last ∧
    graph.operations[last]? = some node ∧ ∃ tensor ∈ node.outputs, tensor ∈ wanted

variable {graph : Graph} {wanted : List Nat}

theorem leadsTo_of_writes {position tensor : Nat} {node : OperationNode}
    (found : graph.operations[position]? = some node) (written : tensor ∈ node.outputs)
    (isWanted : tensor ∈ wanted) : graph.LeadsTo wanted position :=
  ⟨position, node, Relation.ReflTransGen.refl, found, tensor, written, isWanted⟩

theorem LeadsTo.of_feeds {producer consumer : Nat} (leads : graph.LeadsTo wanted consumer)
    (feeds : graph.Feeds producer consumer) : graph.LeadsTo wanted producer := by
  obtain ⟨last, node, flow, found, written⟩ := leads
  exact ⟨last, node, Relation.ReflTransGen.head feeds flow, found, written⟩

namespace WellFormed

theorem isDemanded_iff (wellFormed : graph.WellFormed) {marked : List Bool} {tensor : Nat} :
    graph.isDemanded wanted marked tensor = true ↔ tensor ∈ wanted ∨
      ∃ (consumer : Nat) (node : OperationNode), graph.operations[consumer]? = some node ∧
        tensor ∈ node.inputs ∧ marked[consumer]?.getD false = true := by
  simp only [isDemanded, Bool.or_eq_true, decide_eq_true_eq, List.any_eq_true]
  refine or_congr_right ⟨?_, ?_⟩
  · rintro ⟨consumer, listed, mark⟩
    cases found : graph.tensors[tensor]? with
    | none => simp [found] at listed
    | some tensorNode =>
        rw [found, Option.map_some, Option.getD_some] at listed
        obtain ⟨node, nodeFound, isInput⟩ := (wellFormed.mem_consumers_iff found).mp listed
        exact ⟨consumer, node, nodeFound, isInput, mark⟩
  · rintro ⟨consumer, node, nodeFound, isInput, mark⟩
    obtain ⟨tensorNode, found, _⟩ :=
      (wellFormed.mem_inputs_iff (List.mem_of_getElem? nodeFound)).mp isInput
    refine ⟨consumer, ?_, mark⟩
    rw [found, Option.map_some, Option.getD_some]
    exact (wellFormed.mem_consumers_iff found).mpr ⟨node, nodeFound, isInput⟩

theorem leadsTo_of_iterate (wellFormed : graph.WellFormed) (rounds : Nat) {position : Nat}
    (mark : ((graph.demand wanted)^[rounds]
      (graph.operations.map fun _ => false))[position]?.getD false = true) :
    graph.LeadsTo wanted position := by
  -- What a round marks writes a wanted tensor or feeds what the round before marked.
  induction rounds generalizing position with
  | zero =>
      rw [Function.iterate_zero_apply, List.getElem?_map] at mark
      cases found : graph.operations[position]? with
      | none => simp [found] at mark
      | some node => simp [found] at mark
  | succ rounds ih =>
      rw [Function.iterate_succ_apply', demand, List.getElem?_map] at mark
      cases found : graph.operations[position]? with
      | none => simp [found] at mark
      | some node =>
          rw [found, Option.map_some, Option.getD_some, List.any_eq_true] at mark
          obtain ⟨tensor, written, demanded⟩ := mark
          rcases wellFormed.isDemanded_iff.mp demanded with isWanted | reading
          · exact leadsTo_of_writes found written isWanted
          · obtain ⟨consumer, reader, readerFound, isInput, earlier⟩ := reading
            have produced := wellFormed.producer?_eq_some_iff.mpr ⟨node, found, written⟩
            exact (ih earlier).of_feeds ⟨reader, readerFound, tensor, isInput, produced⟩

theorem needed_of_feeds (wellFormed : graph.WellFormed) {producer consumer : Nat}
    (feeds : graph.Feeds producer consumer)
    (needed : (graph.neededOperations wanted)[consumer]?.getD false = true) :
    (graph.neededOperations wanted)[producer]?.getD false = true := by
  obtain ⟨reader, readerFound, tensor, isInput, produced⟩ := feeds
  obtain ⟨writer, writerFound, written⟩ := wellFormed.producer?_eq_some_iff.mp produced
  rw [neededOperations_get writerFound, Option.getD_some, List.any_eq_true]
  exact ⟨tensor, written,
    wellFormed.isDemanded_iff.mpr (Or.inr ⟨consumer, reader, readerFound, isInput, needed⟩)⟩

theorem needed_iff_leadsTo (wellFormed : graph.WellFormed) {position : Nat} :
    (graph.neededOperations wanted)[position]?.getD false = true ↔
      graph.LeadsTo wanted position := by
  constructor
  · intro needed
    rw [neededOperations, closeBackward_eq_iterate] at needed
    exact wellFormed.leadsTo_of_iterate _ needed
  · rintro ⟨last, node, flow, found, tensor, written, isWanted⟩
    induction flow using Relation.ReflTransGen.head_induction_on with
    | refl =>
        rw [neededOperations_get found, Option.getD_some, List.any_eq_true]
        exact ⟨tensor, written, wellFormed.isDemanded_iff.mpr (Or.inl isWanted)⟩
    | head feeds _ needed => exact wellFormed.needed_of_feeds feeds needed

theorem mem_marker_inputs_iff (wellFormed : graph.WellFormed) {header position : Nat}
    {marker operation : Operation} (markerFound : graph.operationList[header]? = some marker)
    (isGroup : marker.isGroup = true) (found : graph.operationList[position]? = some operation) :
    operation.id ∈ marker.inputs ↔
      header + 1 ≤ position ∧ position < header + 1 + marker.inputs.length := by
  have placed : ∀ {place : Nat} {other : Operation},
      ((graph.operationList.drop (header + 1)).take marker.inputs.length)[place]? = some other ↔
        place < marker.inputs.length ∧ graph.operationList[header + 1 + place]? = some other := by
    intro place other
    rw [List.getElem?_take, List.getElem?_drop]
    split
    · rename_i inside
      simp [inside]
    · rename_i outside
      simp [outside]
  have members := wellFormed.members header marker markerFound isGroup
  constructor
  · intro listed
    rw [← members] at listed
    obtain ⟨other, present, sameId⟩ := List.mem_map.mp listed
    obtain ⟨place, placeFound⟩ := List.mem_iff_getElem?.mp present
    obtain ⟨inside, otherFound⟩ := placed.mp placeFound
    have samePlace : header + 1 + place = position := by
      refine (List.getElem?_inj ?_ wellFormed.operationIds).mp ?_
      · rw [ids, List.length_map]
        exact (List.getElem?_eq_some_iff.mp otherFound).1
      · rw [ids, List.getElem?_map, List.getElem?_map, otherFound, found, Option.map_some,
          Option.map_some, sameId]
    omega
  · rintro ⟨behind, inside⟩
    obtain ⟨place, rfl⟩ := Nat.exists_eq_add_of_le behind
    rw [← members]
    exact List.mem_map_of_mem (List.mem_of_getElem? (placed.mpr ⟨by omega, found⟩))

end WellFormed

end Graph

structure Reachability.Exact (marks : Reachability) (graph : Graph) (wanted : List Nat) : Prop where
  tensorCount : marks.tensors.length = graph.tensors.length
  operationCount : marks.operations.length = graph.operations.length
  operations : ∀ (position : Nat) (node : OperationNode),
    graph.operations[position]? = some node → node.operation.isGroup = false →
    (marks.operations[position]? = some true ↔ graph.LeadsTo wanted position)
  tensors : ∀ tensor : Nat, marks.tensors[tensor]? = some true ↔ tensor ∈ wanted ∨
    ∃ (position : Nat) (node : OperationNode), graph.operations[position]? = some node ∧
      marks.operations[position]? = some true ∧ (tensor ∈ node.inputs ∨ tensor ∈ node.outputs)
  /-- A marker is kept if and only if all its members are. -/
  markers : ∀ (header : Nat) (marker : Operation), graph.operationList[header]? = some marker →
    marker.isGroup = true →
    (marks.operations[header]? = some true ↔
      ∀ (position : Nat) (member : Operation), graph.operationList[position]? = some member →
        member.id ∈ marker.inputs → marks.operations[position]? = some true)

namespace Graph

variable {graph : Graph} {wanted : List Nat}

theorem length_neededOperations (graph : Graph) (wanted : List Nat) :
    (graph.neededOperations wanted).length = graph.operations.length := by
  rw [← neededOperations_fixed, demand, List.length_map]

theorem isTouched_iff {marked : List Bool} {tensor : Nat} :
    graph.isTouched wanted marked tensor = true ↔ tensor ∈ wanted ∨
      ∃ (position : Nat) (node : OperationNode), graph.operations[position]? = some node ∧
        marked[position]? = some true ∧ (tensor ∈ node.inputs ∨ tensor ∈ node.outputs) := by
  simp only [isTouched, Bool.or_eq_true, decide_eq_true_eq, List.any_eq_true, Bool.and_eq_true]
  refine or_congr_right ⟨?_, ?_⟩
  · rintro ⟨⟨node, mark⟩, listed, set, operand⟩
    obtain ⟨position, entryFound⟩ := List.mem_iff_getElem?.mp listed
    obtain ⟨found, markFound⟩ := List.getElem?_zip_eq_some.mp entryFound
    exact ⟨position, node, found, markFound.trans (congrArg some set), operand⟩
  · rintro ⟨position, node, found, markFound, operand⟩
    have listed : (node, true) ∈ graph.operations.zip marked := List.mem_iff_getElem?.mpr
      ⟨position, List.getElem?_zip_eq_some.mpr ⟨found, markFound⟩⟩
    exact ⟨(node, true), listed, rfl, operand⟩

theorem reachability_of_outside {before behind : List Nat} {index : Nat}
    (inside : ∀ tensor ∈ before, tensor < graph.tensors.length)
    (outside : graph.tensors.length ≤ index) :
    graph.reachability (before ++ index :: behind) =
      .error (.tensorIndexOutOfBounds index graph.tensors.length) := by
  have noneBefore : before.find? (fun tensor => graph.tensors.length ≤ tensor) = none := by
    rw [List.find?_eq_none]
    intro tensor member
    simpa using inside tensor member
  have first : graph.firstOutside (before ++ index :: behind) = some index := by
    rw [firstOutside, List.find?_append, noneBefore, Option.none_or, List.find?_cons_of_pos]
    simpa using outside
  rw [reachability, first]

namespace WellFormed

theorem markGroups_get_header (wellFormed : graph.WellFormed) {marked : List Bool}
    (counted : marked.length = graph.operations.length) {header : Nat} {marker : Operation}
    (found : graph.operationList[header]? = some marker) (isGroup : marker.isGroup = true) :
    (markGroups graph.slots marked)[header]? = some true ↔
      ∀ (position : Nat) (member : Operation), graph.operationList[position]? = some member →
        member.id ∈ marker.inputs → marked[position]? = some true := by
  have slot := (wellFormed.headerSlots header marker found isGroup).1
  have sameLength : graph.operationList.length = marked.length := by
    rw [counted, operationList, List.length_map]
  rw [markGroups, List.getElem?_map, List.getElem?_zipIdx, slot]
  simp only [markOf, Option.map_some, Option.some.injEq, Nat.zero_add, List.all_eq_true]
  constructor
  · intro all position member memberFound listed
    obtain ⟨behind, inside⟩ :=
      (wellFormed.mem_marker_inputs_iff found isGroup memberFound).mp listed
    obtain ⟨place, rfl⟩ := Nat.exists_eq_add_of_le behind
    have bound : header + 1 + place < marked.length := by
      rw [← sameLength]
      exact (List.getElem?_eq_some_iff.mp memberFound).1
    rw [List.getElem?_eq_getElem bound, Option.some.injEq]
    refine all _ (List.mem_iff_getElem?.mpr ⟨place, ?_⟩)
    rw [List.getElem?_take, if_pos (by omega), List.getElem?_drop, List.getElem?_eq_getElem bound]
  · intro all mark listed
    obtain ⟨place, markFound⟩ := List.mem_iff_getElem?.mp listed
    rw [List.getElem?_take] at markFound
    split at markFound
    · rename_i inside
      rw [List.getElem?_drop] at markFound
      have bound : header + 1 + place < graph.operationList.length := by
        rw [sameLength]
        exact (List.getElem?_eq_some_iff.mp markFound).1
      have memberFound := List.getElem?_eq_getElem bound
      have isMember := (wellFormed.mem_marker_inputs_iff found isGroup memberFound).mpr
        ⟨by omega, by omega⟩
      rw [all _ _ memberFound isMember] at markFound
      exact (Option.some.inj markFound).symm
    · cases markFound

theorem markGroups_get_iff (wellFormed : graph.WellFormed) {marked : List Bool}
    (counted : marked.length = graph.operations.length) {position : Nat} {node : OperationNode}
    (found : graph.operations[position]? = some node) (plain : node.operation.isGroup = false) :
    (markGroups graph.slots marked)[position]? = some true ↔ marked[position]? = some true := by
  have bound : position < marked.length := by
    rw [counted]
    exact (List.getElem?_eq_some_iff.mp found).1
  rw [wellFormed.markGroups_get found plain, List.getElem?_eq_getElem bound, Option.getD_some]

theorem lt_of_operand (wellFormed : graph.WellFormed) {node : OperationNode}
    (member : node ∈ graph.operations) {tensor : Nat}
    (operand : tensor ∈ node.inputs ∨ tensor ∈ node.outputs) : tensor < graph.tensors.length := by
  rcases operand with isInput | isOutput
  · obtain ⟨_, found, _⟩ := (wellFormed.mem_inputs_iff member).mp isInput
    exact (List.getElem?_eq_some_iff.mp found).1
  · obtain ⟨_, found, _⟩ := (wellFormed.mem_outputs_iff member).mp isOutput
    exact (List.getElem?_eq_some_iff.mp found).1

theorem plain_of_operand (wellFormed : graph.WellFormed) {node : OperationNode}
    (member : node ∈ graph.operations) {tensor : Nat}
    (operand : tensor ∈ node.inputs ∨ tensor ∈ node.outputs) : node.operation.isGroup = false := by
  cases isGroup : node.operation.isGroup with
  | false => rfl
  | true =>
      obtain ⟨noInputs, noOutputs⟩ := wellFormed.markers node member isGroup
      simp [noInputs, noOutputs] at operand

theorem plain_of_mem_marker_inputs (wellFormed : graph.WellFormed) {header position : Nat}
    {marker member : Operation} (found : graph.operationList[header]? = some marker)
    (isGroup : marker.isGroup = true) (memberFound : graph.operationList[position]? = some member)
    (listed : member.id ∈ marker.inputs) : member.isGroup = false := by
  obtain ⟨behind, inside⟩ := (wellFormed.mem_marker_inputs_iff found isGroup memberFound).mp listed
  obtain ⟨place, rfl⟩ := Nat.exists_eq_add_of_le behind
  have memberSlot := (wellFormed.headerSlots header marker found isGroup).2 place (by omega)
  cases memberGroup : member.isGroup with
  | false => rfl
  | true =>
      rw [(wellFormed.headerSlots _ member memberFound memberGroup).1] at memberSlot
      cases memberSlot

theorem isTouched_needed_iff (wellFormed : graph.WellFormed) {tensor : Nat} :
    graph.isTouched wanted (graph.neededOperations wanted) tensor = true ↔ tensor ∈ wanted ∨
      ∃ (position : Nat) (node : OperationNode), graph.operations[position]? = some node ∧
        (markGroups graph.slots (graph.neededOperations wanted))[position]? = some true ∧
        (tensor ∈ node.inputs ∨ tensor ∈ node.outputs) := by
  have counted := graph.length_neededOperations wanted
  rw [isTouched_iff]
  refine or_congr_right (exists_congr fun position => exists_congr fun node =>
    and_congr_right fun found => and_congr_left fun operand => ?_)
  have plain := wellFormed.plain_of_operand (List.mem_of_getElem? found) operand
  exact (wellFormed.markGroups_get_iff counted found plain).symm

theorem exact_marks (wellFormed : graph.WellFormed)
    (inside : ∀ tensor ∈ wanted, tensor < graph.tensors.length) :
    Reachability.Exact {
      tensors := (List.range graph.tensors.length).map
        (graph.isTouched wanted (graph.neededOperations wanted))
      operations := markGroups graph.slots (graph.neededOperations wanted) } graph wanted := by
  have counted := graph.length_neededOperations wanted
  constructor
  case tensorCount => simp
  case operationCount => rw [markGroups, List.length_map, List.length_zipIdx, wellFormed.slotCount]
  case operations =>
    intro position node found plain
    rw [wellFormed.markGroups_get found plain, Option.some.injEq]
    exact wellFormed.needed_iff_leadsTo
  case tensors =>
    intro tensor
    rw [← wellFormed.isTouched_needed_iff, List.getElem?_map]
    by_cases bound : tensor < graph.tensors.length
    · rw [List.getElem?_range bound, Option.map_some, Option.some.injEq]
    · rw [List.getElem?_eq_none (by simpa using bound), Option.map_none]
      simp only [reduceCtorEq, false_iff]
      intro touched
      refine bound ?_
      rcases wellFormed.isTouched_needed_iff.mp touched with isWanted | ⟨_, _, found, _, operand⟩
      · exact inside tensor isWanted
      · exact wellFormed.lt_of_operand (List.mem_of_getElem? found) operand
  case markers =>
    intro header marker found isGroup
    rw [wellFormed.markGroups_get_header counted found isGroup]
    refine forall_congr' fun position => forall_congr' fun member =>
      forall_congr' fun memberFound => forall_congr' fun listed => ?_
    obtain ⟨node, nodeFound, same⟩ := operationList_getElem?.mp memberFound
    have plain := wellFormed.plain_of_mem_marker_inputs found isGroup memberFound listed
    exact (wellFormed.markGroups_get_iff counted nodeFound (same ▸ plain)).symm

end WellFormed

end Graph

end TensorGraph
