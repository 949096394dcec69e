import TensorGraph.Graph.StepwiseBuild
import TensorGraph.Proofs.Acceptance
import TensorGraph.Proofs.GroupRotation
import TensorGraph.Proofs.IndexGeneration
import TensorGraph.Proofs.ReadyRanking

/-!
Building a graph pass by pass comes to building it at once, for all descriptors: no pass reaches out
of range, and where a pass fails, it is with the same error. Both accept exactly the well-formed
descriptors.
-/

namespace TensorGraph

open Guarded (Agrees)
open Operation (ids)

namespace Graph

section Slots

theorem fillSlots?_plain {members : List Operation}
    (plain : ∀ member ∈ members, member.isGroup = false) (position : Nat)
    (rest : List Operation) (slots : List Slot) :
    fillSlots? position (members ++ rest) slots =
      fillSlots? (position + members.length) rest slots := by
  induction members generalizing position with
  | nil => rfl
  | cons member members ih =>
      obtain ⟨first, others⟩ := List.forall_mem_cons.mp plain
      have noMembers : member.members? = none := by simp [Operation.members?, first]
      rw [List.cons_append, fillSlots?, noMembers]
      dsimp only
      rw [ih others, List.length_cons, Nat.add_right_comm, Nat.add_assoc]

theorem enterGroup?_free (before : List Slot) (members : List OperationId) (pinned : Bool)
    (rank : Nat) {memberRanks : List Nat} (sized : memberRanks.length = members.length)
    (ranks : List Nat) :
    enterGroup? before.length members pinned
        (before ++ (rank :: (memberRanks ++ ranks)).map Slot.free) =
      some (before ++ .header members.length pinned ::
        List.replicate members.length (.member before.length pinned) ++ ranks.map Slot.free) := by
  have count : members.length = (memberRanks.map Slot.free).length := by rw [List.length_map, sized]
  rw [enterGroup?, List.map_cons, List.map_append, Guarded.put?_behind]
  simp only [Option.bind_eq_bind, Option.bind_some, Guarded.cut?_behind]
  rw [count, Guarded.cut?_append]
  simp [List.map_const']

theorem fillSlots?_eq {position : Nat} {operations : List Operation} {ranks : List Nat}
    {slots : List Slot} (fits : Slot.Fits position operations ranks slots) (before : List Slot)
    (here : before.length = position) :
    fillSlots? position operations (before ++ ranks.map Slot.free) = some (before ++ slots) := by
  induction fits generalizing before with
  | nil => rfl
  | @free position rank operation rest ranks slots plain _ ih =>
      have noMembers : operation.members? = none := by simp [Operation.members?, plain]
      have next := ih (before ++ [.free rank]) (by simp [here])
      rw [fillSlots?, noMembers]
      simpa using next
  | @group position rank marker members rest memberRanks ranks slots isGroup plain counted sized _
      ih =>
      subst here
      have hasMembers : marker.members? = some marker.inputs := by
        simp [Operation.members?, isGroup]
      have entered := enterGroup?_free before marker.inputs marker.isPinned rank
        (sized.trans counted) ranks
      have next := ih (before ++ .header marker.inputs.length marker.isPinned ::
        List.replicate members.length (.member before.length marker.isPinned)) (by simp; omega)
      rw [fillSlots?, hasMembers]
      dsimp only
      rw [entered, ← counted, Option.bind_eq_bind, Option.bind_some, fillSlots?_plain plain]
      rw [← counted] at next
      simpa using next

end Slots

section Passes

variable {tensors : List Tensor} {operations : List Operation}

theorem fillSlots?_ranks {ranks : List Nat} (arranged : Grouping.Arranged operations)
    (ranked : Graph.ranks (tensors.map (Connections.tensorNode operations))
      (operations.map (Connections.operationNode tensors)) = .ok ranks) :
    fillSlots? 0 ((operations.map (Connections.operationNode tensors)).map fun node =>
      node.operation) (ranks.map Slot.free) = some (slotsOf operations ranks) := by
  obtain ⟨known, found, rfl⟩ := ranks_ok_iff.mp ranked
  have listed : ((operations.map (Connections.operationNode tensors)).map fun node =>
      node.operation) = operations := connected_operationList ⟨0, 0⟩ tensors operations []
  rw [listed]
  exact fillSlots?_eq (slotsFrom_fits arranged 0 0 false (length_ranks found)) [] rfl

theorem build_agrees (tensors : List Tensor) (operations : List Operation) (capacity : Capacity) :
    Agrees (buildStepwise tensors operations capacity) (build tensors operations capacity) := by
  refine .bind (.of_plain _) fun _ _ => .bind (.of_plain _) fun _ _ =>
    .bind (.of_plain _) fun _ tensorsChecked => .bind (.of_plain _) fun _ operationsChecked => ?_
  have tensorIds := ((checkTensors_ok_iff [] tensors).mp tensorsChecked).2
  obtain ⟨valid, operationIds⟩ := (checkOperations_ok_iff [] operations).mp operationsChecked
  refine .bind (Rotation.rotateGroups_agrees operationIds) fun arranged grouped => ?_
  obtain ⟨isArranged, same⟩ := arrangeGroups_ok operationIds grouped
  have generates := Indices.generate_agrees tensorIds fun operation member plain =>
    (Operation.computes_of_validate (valid operation (same.subset member)).1 plain).outputsOnce
  refine generates.after_check fun checked => ?_
  rw [checked] at generates
  refine .bind (ReadySearch.rankAll_agrees (Indices.linked_of_generate generates))
    fun ranks ranked => ?_
  exact .access_bind (fillSlots?_ranks isArranged ranked) (.of_plain _)

end Passes

/-- Building pass by pass never reaches out of range and comes to the same as building at once. It
accepts exactly the well-formed descriptors. -/
theorem exists_build_iff_buildable (tensors : List Tensor) (operations : List Operation)
    (capacity : Capacity) :
    Agrees (buildStepwise tensors operations capacity) (build tensors operations capacity) ∧
      ((∃ graph, build tensors operations capacity = .ok graph) ↔
        Buildable tensors operations capacity) :=
  ⟨build_agrees tensors operations capacity, exists_build_iff.trans buildable_iff.symm⟩

end Graph

end TensorGraph
