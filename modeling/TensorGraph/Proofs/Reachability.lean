import TensorGraph.Graph.Subgraph
import TensorGraph.Proofs.Rounds
import TensorGraph.Proofs.WellFormed

/-!
What is kept of a graph. The marks are closed: whatever writes a tensor that is kept, is kept.
-/

namespace TensorGraph

section Kept

variable {α : Type}

theorem keepMarked_cons (item : α) (items : List α) (mark : Bool) (marks : List Bool) :
    keepMarked (item :: items) (mark :: marks) =
      if mark then item :: keepMarked items marks else keepMarked items marks := by
  cases mark with
  | false => rfl
  | true => rfl

theorem keepMarked_sublist (items : List α) (marks : List Bool) :
    (keepMarked items marks).Sublist items := by
  induction items generalizing marks with
  | nil => exact List.Sublist.slnil
  | cons item items ih =>
      cases marks with
      | nil => exact List.nil_sublist _
      | cons mark marks =>
          rw [keepMarked_cons]
          split
          · exact (ih marks).cons_cons item
          · exact (ih marks).cons item

theorem mem_keepMarked {items : List α} {marks : List Bool} {item : α} :
    item ∈ keepMarked items marks ↔
      ∃ position : Nat, items[position]? = some item ∧ marks[position]? = some true := by
  simp only [keepMarked, List.mem_map, List.mem_filter]
  constructor
  · rintro ⟨⟨kept, mark⟩, ⟨listed, set⟩, same⟩
    obtain ⟨position, found⟩ := List.mem_iff_getElem?.mp listed
    obtain ⟨itemFound, markFound⟩ := List.getElem?_zip_eq_some.mp found
    exact ⟨position, same ▸ itemFound, by rw [markFound, set]⟩
  · rintro ⟨position, itemFound, markFound⟩
    have listed : (item, true) ∈ items.zip marks := List.mem_iff_getElem?.mpr
      ⟨position, List.getElem?_zip_eq_some.mpr ⟨itemFound, markFound⟩⟩
    exact ⟨(item, true), ⟨listed, rfl⟩, rfl⟩

theorem length_keepMarked {items : List α} {marks : List Bool}
    (counted : marks.length = items.length) :
    (keepMarked items marks).length = marks.count true := by
  induction items generalizing marks with
  | nil => simp [List.eq_nil_of_length_eq_zero counted, keepMarked]
  | cons item items ih =>
      cases marks with
      | nil => simp at counted
      | cons mark marks =>
          have rest := ih (by simpa using counted)
          cases mark with
          | false => simpa [keepMarked_cons] using rest
          | true => simpa [keepMarked_cons] using rest

theorem mem_keepMarked_iff_getElem? {items : List α} {marks : List Bool} (unique : items.Nodup)
    {position : Nat} {item : α} (found : items[position]? = some item) :
    item ∈ keepMarked items marks ↔ marks[position]? = some true := by
  rw [mem_keepMarked]
  constructor
  · rintro ⟨other, otherFound, marked⟩
    have bound := (List.getElem?_eq_some_iff.mp found).1
    rwa [(List.getElem?_inj bound unique).mp (found.trans otherFound.symm)]
  · intro marked
    exact ⟨position, found, marked⟩

end Kept

namespace Graph

def demand (graph : Graph) (wanted : List Nat) (marked : List Bool) : List Bool :=
  graph.operations.map fun node => node.outputs.any (graph.isDemanded wanted marked)

theorem closeBackward_eq_iterate (graph : Graph) (wanted : List Nat) (rounds : Nat)
    (marked : List Bool) :
    graph.closeBackward wanted rounds marked = (graph.demand wanted)^[rounds] marked := by
  apply Rounds.eq_iterate (graph.demand wanted) (graph.closeBackward wanted)
  · intro state; rfl
  · intro rounds state; rfl

theorem mark_of_grows {before after : List Bool} (grows : Rounds.Grows id before after)
    {position : Nat} (marked : before[position]?.getD false = true) :
    after[position]?.getD false = true := by
  cases found : before[position]? with
  | none =>
      rw [found] at marked
      cases marked
  | some mark =>
      rw [found, Option.getD_some] at marked
      rw [grows.kept found marked, Option.getD_some]
      exact marked

theorem isDemanded_of_grows {graph : Graph} {wanted : List Nat} {before after : List Bool}
    (grows : Rounds.Grows id before after) {tensor : Nat}
    (demanded : graph.isDemanded wanted before tensor = true) :
    graph.isDemanded wanted after tensor = true := by
  simp only [isDemanded, Bool.or_eq_true, List.any_eq_true] at demanded ⊢
  refine demanded.imp_right ?_
  rintro ⟨consumer, listed, marked⟩
  exact ⟨consumer, listed, mark_of_grows grows marked⟩

theorem demand_grows {graph : Graph} {wanted : List Nat} {before after : List Bool}
    (grows : Rounds.Grows id before after) :
    Rounds.Grows id (graph.demand wanted before) (graph.demand wanted after) := by
  refine Rounds.grows_map (fun _ unmarked => unmarked) fun node _ isMarked => ?_
  obtain ⟨output, listed, demanded⟩ := List.any_eq_true.mp isMarked
  rw [isMarked]
  exact List.any_eq_true.mpr ⟨output, listed, isDemanded_of_grows grows demanded⟩

theorem neededOperations_fixed (graph : Graph) (wanted : List Nat) :
    graph.demand wanted (graph.neededOperations wanted) = graph.neededOperations wanted := by
  have first : Rounds.Grows id (graph.operations.map fun _ => false)
      (graph.demand wanted (graph.operations.map fun _ => false)) :=
    Rounds.grows_map (fun _ unmarked => unmarked) fun _ _ isMarked => by cases isMarked
  have fixed := Rounds.iterate_fixed _ _ _ first demand_grows
  rwa [List.length_map, ← closeBackward_eq_iterate] at fixed

/-- An operation is needed when something it writes is demanded by what is needed. -/
theorem neededOperations_get {graph : Graph} {wanted : List Nat} {position : Nat}
    {node : OperationNode} (found : graph.operations[position]? = some node) :
    (graph.neededOperations wanted)[position]? =
      some (node.outputs.any (graph.isDemanded wanted (graph.neededOperations wanted))) := by
  conv_lhs => rw [← neededOperations_fixed, demand, List.getElem?_map, found]
  rfl

theorem reachability_ok_iff {graph : Graph} {wanted : List Nat} {reachability : Reachability} :
    graph.reachability wanted = .ok reachability ↔
      (∀ tensor ∈ wanted, tensor < graph.tensors.length) ∧
        reachability = {
          tensors := (List.range graph.tensors.length).map
            (graph.isTouched wanted (graph.neededOperations wanted))
          operations := markGroups graph.slots (graph.neededOperations wanted) } := by
  rw [Graph.reachability]
  split
  · rename_i outside found
    have member := List.mem_of_find?_eq_some found
    have beyond : graph.tensors.length ≤ outside := by simpa using List.find?_some found
    refine ⟨fun impossible => (by cases impossible), fun ⟨inside, _⟩ => ?_⟩
    exact absurd (inside outside member) (Nat.not_lt.mpr beyond)
  · rename_i noneFound
    have inside : ∀ tensor ∈ wanted, tensor < graph.tensors.length := by
      intro tensor member
      simpa using List.find?_eq_none.mp noneFound tensor member
    exact ⟨fun same => ⟨inside, (Except.ok.inj same).symm⟩,
      fun same => congrArg Except.ok same.2.symm⟩

namespace WellFormed

variable {graph : Graph} {wanted : List Nat}

theorem slot_of_plain (wellFormed : graph.WellFormed) {position : Nat} {node : OperationNode}
    (found : graph.operations[position]? = some node) (plain : node.operation.isGroup = false) :
    (∃ rank, graph.slots[position]? = some (.free rank)) ∨
      ∃ header pinned, graph.slots[position]? = some (.member header pinned) := by
  have listed : graph.operationList[position]? = some node.operation :=
    operationList_getElem?.mpr ⟨node, found, rfl⟩
  by_cases inGroup : ∃ header, graph.InGroup header position
  · obtain ⟨header, marker, markerFound, isGroup, before, within⟩ := inGroup
    have behind := (wellFormed.headerSlots header marker markerFound isGroup).2
      (position - (header + 1)) (by omega)
    rw [Nat.add_sub_cancel' before] at behind
    exact Or.inr ⟨header, marker.isPinned, behind⟩
  · exact Or.inl (wellFormed.freeSlots position node.operation listed plain
      (not_exists.mp inGroup))

theorem markGroups_get (wellFormed : graph.WellFormed) {marked : List Bool} {position : Nat}
    {node : OperationNode} (found : graph.operations[position]? = some node)
    (plain : node.operation.isGroup = false) :
    (markGroups graph.slots marked)[position]? = some (marked[position]?.getD false) := by
  rw [markGroups, List.getElem?_map, List.getElem?_zipIdx, Nat.zero_add]
  rcases wellFormed.slot_of_plain found plain with ⟨rank, free⟩ | ⟨header, pinned, isMember⟩
  · rw [free]
    rfl
  · rw [isMember]
    rfl

theorem needed_of_touched (wellFormed : graph.WellFormed) {tensor position : Nat}
    {node : OperationNode} (found : graph.operations[position]? = some node)
    (written : tensor ∈ node.outputs)
    (touched : graph.isTouched wanted (graph.neededOperations wanted) tensor = true) :
    (graph.neededOperations wanted)[position]?.getD false = true := by
  rw [neededOperations_get found, Option.getD_some, List.any_eq_true]
  simp only [isTouched, Bool.or_eq_true, decide_eq_true_eq, List.any_eq_true,
    Bool.and_eq_true] at touched
  rcases touched with isWanted | ⟨⟨other, mark⟩, listed, set, operand⟩
  · exact ⟨tensor, written, by simp [isDemanded, isWanted]⟩
  · obtain ⟨otherPosition, entryFound⟩ := List.mem_iff_getElem?.mp listed
    obtain ⟨otherFound, markFound⟩ := List.getElem?_zip_eq_some.mp entryFound
    rw [set] at markFound
    rcases operand with isRead | isWritten
    · obtain ⟨tensorNode, tensorFound, _⟩ :=
        (wellFormed.mem_inputs_iff (List.mem_of_getElem? otherFound)).mp isRead
      have consumes := (wellFormed.mem_consumers_iff tensorFound).mpr ⟨other, otherFound, isRead⟩
      refine ⟨tensor, written, ?_⟩
      simp only [isDemanded, Bool.or_eq_true, List.any_eq_true]
      refine Or.inr ⟨otherPosition, ?_, ?_⟩
      · rw [tensorFound]
        exact consumes
      · rw [markFound]
        rfl
    · have produced := wellFormed.producer?_eq_some_iff.mpr ⟨other, otherFound, isWritten⟩
      rw [wellFormed.producer?_eq_some_iff.mpr ⟨node, found, written⟩] at produced
      cases produced
      rw [found] at otherFound
      cases otherFound
      rw [neededOperations_get found, Option.some.injEq, List.any_eq_true] at markFound
      exact markFound

end WellFormed

end Graph

end TensorGraph
