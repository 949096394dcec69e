import Mathlib.Data.Fintype.EquivFin
import TensorGraph.Proofs.NestedParts

/-!
The part that all unread tensors depend on. Following data from any operation one comes to a tensor
that nothing reads, because no flow of data is circular. So this part is the whole graph.
-/

namespace TensorGraph

namespace Graph

variable {graph : Graph} {wanted : List Nat} {marks : Reachability}

theorem mem_boundary_outputs_iff {index : Nat} :
    index ∈ graph.boundary.outputs ↔
      ∃ node, graph.tensors[index]? = some node ∧ node.consumers = [] := by
  simp only [boundary, List.mem_map, List.mem_filter, List.isEmpty_iff]
  constructor
  · rintro ⟨⟨node, _⟩, ⟨listed, unread⟩, rfl⟩
    exact ⟨node, List.mem_zipIdx_iff_getElem?.mp listed, unread⟩
  · rintro ⟨node, found, unread⟩
    exact ⟨(node, index), ⟨List.mem_zipIdx_iff_getElem?.mpr found, unread⟩, rfl⟩

/-- Wanted are at least the tensors that nothing reads. -/
def CoversUnread (graph : Graph) (wanted : List Nat) : Prop :=
  ∀ (index : Nat) (node : TensorNode), graph.tensors[index]? = some node → node.consumers = [] →
    index ∈ wanted

namespace WellFormed

theorem flow_wellFounded (wellFormed : graph.WellFormed) :
    WellFounded fun later earlier : Fin graph.operations.length =>
      Relation.TransGen graph.Feeds earlier later := by
  have transitive : IsTrans (Fin graph.operations.length) fun later earlier =>
      Relation.TransGen graph.Feeds earlier later :=
    ⟨fun _ _ _ second first => first.trans second⟩
  have irreflexive : Std.Irrefl fun later earlier : Fin graph.operations.length =>
      Relation.TransGen graph.Feeds earlier later :=
    ⟨fun position => wellFormed.acyclic position⟩
  exact Finite.wellFounded_of_trans_of_irrefl _

theorem exists_mem_outputs (wellFormed : graph.WellFormed) {node : OperationNode}
    (member : node ∈ graph.operations) (plain : node.operation.isGroup = false) :
    ∃ tensor tensorNode, tensor ∈ node.outputs ∧ graph.tensors[tensor]? = some tensorNode := by
  have valid := wellFormed.operationsValid node.operation (List.mem_map_of_mem member)
  obtain ⟨name, writes⟩ :=
    List.exists_mem_of_ne_nil _ (Operation.computes_of_validate valid plain).writesSomething
  obtain ⟨tensor, written, _, _⟩ :=
    exists_of_forall₂ (List.Forall₂.flip (wellFormed.outputs node member plain)) writes
  obtain ⟨tensorNode, found, _⟩ := (wellFormed.mem_outputs_iff member).mp written
  exact ⟨tensor, tensorNode, written, found⟩

theorem leadsTo_of_coversUnread (wellFormed : graph.WellFormed)
    (covers : graph.CoversUnread wanted) {position : Nat} {node : OperationNode}
    (found : graph.operations[position]? = some node) (plain : node.operation.isGroup = false) :
    graph.LeadsTo wanted position := by
  -- Induction against the flow: what the readers of its outputs lead to, it leads to.
  suffices ∀ place : Fin graph.operations.length,
      graph.operations[place.val].operation.isGroup = false → graph.LeadsTo wanted place by
    obtain ⟨bound, rfl⟩ := List.getElem?_eq_some_iff.mp found
    exact this ⟨position, bound⟩ plain
  intro place
  induction place using wellFormed.flow_wellFounded.induction with
  | _ place ih =>
      intro plain
      have here : graph.operations[place.val]? = some graph.operations[place.val] :=
        List.getElem?_eq_getElem place.isLt
      obtain ⟨tensor, tensorNode, written, tensorFound⟩ :=
        wellFormed.exists_mem_outputs (List.getElem_mem place.isLt) plain
      cases reading : tensorNode.consumers with
      | nil => exact leadsTo_of_writes here written (covers tensor tensorNode tensorFound reading)
      | cons consumer _ =>
          have isConsumer : consumer ∈ tensorNode.consumers := reading ▸ List.mem_cons_self
          obtain ⟨reader, readerFound, isInput⟩ :=
            (wellFormed.mem_consumers_iff tensorFound).mp isConsumer
          have feeds : graph.Feeds place consumer := ⟨reader, readerFound, tensor, isInput,
            wellFormed.producer?_eq_some_iff.mpr ⟨_, here, written⟩⟩
          obtain ⟨bound, rfl⟩ := List.getElem?_eq_some_iff.mp readerFound
          have readerPlain :=
            wellFormed.plain_of_operand (List.getElem_mem bound) (Or.inl isInput)
          exact (ih ⟨consumer, bound⟩ (.single feeds) readerPlain).of_feeds feeds

/-- Nothing is left out, neither a marker nor a tensor that no operation touches. -/
theorem all_marked (wellFormed : graph.WellFormed) (exact : marks.Exact graph wanted)
    (covers : graph.CoversUnread wanted) :
    (∀ index < graph.tensors.length, marks.tensors[index]? = some true) ∧
      ∀ position < graph.operations.length, marks.operations[position]? = some true := by
  have plainMarked : ∀ {position : Nat} {node : OperationNode},
      graph.operations[position]? = some node → node.operation.isGroup = false →
      marks.operations[position]? = some true := fun found plain =>
    (exact.operations _ _ found plain).mpr (wellFormed.leadsTo_of_coversUnread covers found plain)
  constructor
  · intro index bound
    have found := List.getElem?_eq_getElem bound
    rw [exact.tensors]
    cases reading : graph.tensors[index].consumers with
    | nil => exact Or.inl (covers index _ found reading)
    | cons consumer _ =>
        have isConsumer : consumer ∈ graph.tensors[index].consumers := reading ▸ List.mem_cons_self
        obtain ⟨reader, readerFound, isInput⟩ :=
          (wellFormed.mem_consumers_iff found).mp isConsumer
        have plain :=
          wellFormed.plain_of_operand (List.mem_of_getElem? readerFound) (Or.inl isInput)
        exact Or.inr ⟨consumer, reader, readerFound, plainMarked readerFound plain, Or.inl isInput⟩
  · intro position bound
    have found := List.getElem?_eq_getElem bound
    cases isGroup : graph.operations[position].operation.isGroup with
    | false => exact plainMarked found isGroup
    | true =>
        have markerFound := WellFormed.operationList_getElem?.mpr ⟨_, found, rfl⟩
        refine (exact.markers position _ markerFound isGroup).mpr ?_
        intro place member memberFound listed
        obtain ⟨node, nodeFound, rfl⟩ := WellFormed.operationList_getElem?.mp memberFound
        exact plainMarked nodeFound
          (wellFormed.plain_of_mem_marker_inputs markerFound isGroup memberFound listed)

end WellFormed

end Graph

theorem keepMarked_eq_self {α : Type} {items : List α} {marks : List Bool}
    (distinct : items.Nodup)
    (marked : ∀ position < items.length, marks[position]? = some true) :
    keepMarked items marks = items := by
  refine eq_of_same_members distinct (keepMarked_sublist items marks) (List.Sublist.refl items) ?_
  intro item listed
  obtain ⟨position, found⟩ := List.mem_iff_getElem?.mp listed
  have bound := (List.getElem?_eq_some_iff.mp found).1
  exact iff_of_true (mem_keepMarked.mpr ⟨position, found, marked position bound⟩) listed

namespace Graph

variable {graph : Graph} {wanted : List Nat}

theorem subgraphAt_eq_self (obtained : graph.Obtained) (covers : graph.CoversUnread wanted)
    (inside : ∀ index ∈ wanted, index < graph.tensors.length) :
    graph.subgraphAt wanted graph.capacity = .ok graph := by
  obtain ⟨_, _, _, built⟩ := obtained.exists_build
  have wellFormed := wellFormed_of_build built
  have reached := reachability_ok_iff.mpr ⟨inside, rfl⟩
  obtain ⟨tensorsMarked, operationsMarked⟩ :=
    wellFormed.all_marked (exact_of_reachability wellFormed reached) covers
  rw [subgraphAt_ok_iff reached, keepMarked_eq_self wellFormed.tensorIds.of_map,
    keepMarked_eq_self wellFormed.operationIds.of_map]
  · exact build_descriptors built
  · rwa [operationList, List.length_map]
  · rwa [tensorList, List.length_map]

/-- What the outputs of a graph depend on is the graph, with all that it holds. -/
theorem part_of_outputs (obtained : graph.Obtained) :
    graph.subgraphAt graph.boundary.outputs graph.capacity = .ok graph := by
  refine subgraphAt_eq_self obtained ?_ ?_
  · exact fun index node found unread => mem_boundary_outputs_iff.mpr ⟨node, found, unread⟩
  · intro index listed
    obtain ⟨_, found, _⟩ := mem_boundary_outputs_iff.mp listed
    exact (List.getElem?_eq_some_iff.mp found).1

theorem part_of_outputs_fork :
    ∃ graph, build (.scalar 5 .u8 :: relayTensors) forkOperations ⟨8, 8⟩ = .ok graph ∧
      graph.boundary.outputs = [0, 4, 5] ∧ graph.operationList = forkOperations ∧
      graph.subgraphAt graph.boundary.outputs graph.capacity = .ok graph := by
  refine ⟨_, rfl, rfl, rfl, ?_⟩
  exact part_of_outputs
    (@Obtained.built (.scalar 5 .u8 :: relayTensors) forkOperations ⟨8, 8⟩ _ rfl)

end Graph

end TensorGraph
