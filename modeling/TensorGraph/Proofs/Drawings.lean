import TensorGraph.Proofs.DrawingTexts
import TensorGraph.Proofs.Reachability
import TensorGraph.Proofs.Obtained

/-!
What the drawing of a graph shows: each tensor, each operation that is not a marker, and between
them an edge wherever an operation reads or writes. Nothing of this is lost in the text.
-/

namespace TensorGraph

structure Drawing.Shows (drawing : Drawing) (graph : Graph) : Prop where
  boxes : drawing.boxes = (List.range graph.tensors.length).map graph.tensorLabel
  circles : drawing.circles =
    (List.range graph.operations.length).filterMap graph.operationLabel?
  /-- All operations but markers are drawn. -/
  named : ∀ position operation, graph.operationList[position]? = some operation →
    ((graph.operationLabel? position).isSome = true ↔ operation.isGroup = false)
  distinct : (drawing.boxes ++ drawing.circles).Nodup
  /-- Edges use no names but those of boxes and circles, and lead from one kind to the other. -/
  declared : ∀ source targets, (source, targets) ∈ drawing.edges →
    (source ∈ drawing.boxes ∧ ∀ target ∈ targets, target ∈ drawing.circles) ∨
      (source ∈ drawing.circles ∧ ∀ target ∈ targets, target ∈ drawing.boxes)
  reads : ∀ tensor descriptor position operation label,
    graph.tensorList[tensor]? = some descriptor →
    graph.operationList[position]? = some operation →
    graph.operationLabel? position = some label →
    (drawing.Leads (graph.tensorLabel tensor) label ↔ operation.reads descriptor.id = true)
  writes : ∀ tensor descriptor position operation label,
    graph.tensorList[tensor]? = some descriptor →
    graph.operationList[position]? = some operation →
    graph.operationLabel? position = some label →
    (drawing.Leads label (graph.tensorLabel tensor) ↔ operation.writes descriptor.id = true)

structure ShownOperation where
  id : OperationId
  slot : Slot
  outputs : List Nat
  deriving DecidableEq

namespace Graph

def shown? (graph : Graph) (position : Nat) : Option ShownOperation :=
  match graph.operations[position]?, graph.slots[position]? with
  | some node, some slot =>
      if node.operation.isGroup then none else some ⟨node.operation.id, slot, node.outputs⟩
  | _, _ => none

/-- The graphs agree in all that a drawing shows. -/
structure LooksLike (graph other : Graph) : Prop where
  tensorIds : graph.tensorList.map Tensor.id = other.tensorList.map Tensor.id
  consumers : graph.tensors.map TensorNode.consumers = other.tensors.map TensorNode.consumers
  operations : ∀ position, graph.shown? position = other.shown? position

variable {graph other : Graph}

section Edges

theorem mem_edges_iff {source : String} {targets : List String} :
    (source, targets) ∈ graph.drawing.edges ↔
      (∃ tensor node, graph.tensors[tensor]? = some node ∧ graph.tensorLabel tensor = source ∧
        node.consumers.filterMap graph.operationLabel? = targets) ∨
      ∃ position node, graph.operations[position]? = some node ∧
        graph.operationLabel? position = some source ∧
        node.outputs.map graph.tensorLabel = targets := by
  rw [drawing, List.mem_append, List.mem_map, List.mem_filterMap]
  simp only [Prod.exists, List.mk_mem_zipIdx_iff_getElem?, Option.map_eq_some_iff, Prod.mk.injEq]
  constructor
  · rintro (⟨node, tensor, found, same, listed⟩ | ⟨node, position, found, _, named, rfl, listed⟩)
    · exact Or.inl ⟨tensor, node, found, same, listed⟩
    · exact Or.inr ⟨position, node, found, named, listed⟩
  · rintro (⟨tensor, node, found, same, listed⟩ | ⟨position, node, found, named, listed⟩)
    · exact Or.inl ⟨node, tensor, found, same, listed⟩
    · exact Or.inr ⟨node, position, found, source, named, rfl, listed⟩

theorem mem_edges_tensorLabel {tensor : Nat} {node : TensorNode} {targets : List String}
    (found : graph.tensors[tensor]? = some node) :
    (graph.tensorLabel tensor, targets) ∈ graph.drawing.edges ↔
      node.consumers.filterMap graph.operationLabel? = targets := by
  rw [mem_edges_iff]
  constructor
  · rintro (⟨place, other, otherFound, same, listed⟩ | ⟨_, _, _, named, _⟩)
    · rw [(tensorLabel_injective same).2, found] at otherFound
      cases otherFound
      exact listed
    · exact absurd rfl (tensorLabel_ne_operationLabel named)
  · intro listed
    exact Or.inl ⟨tensor, node, found, rfl, listed⟩

theorem mem_edges_operationLabel {position : Nat} {node : OperationNode} {label : String}
    {targets : List String} (found : graph.operations[position]? = some node)
    (named : graph.operationLabel? position = some label) :
    (label, targets) ∈ graph.drawing.edges ↔ node.outputs.map graph.tensorLabel = targets := by
  rw [mem_edges_iff]
  constructor
  · rintro (⟨_, _, _, same, _⟩ | ⟨place, other, otherFound, otherNamed, listed⟩)
    · exact absurd same (tensorLabel_ne_operationLabel named)
    · rw [(operationLabel?_injective otherNamed named).2.1, found] at otherFound
      cases otherFound
      exact listed
  · intro listed
    exact Or.inr ⟨position, node, found, named, listed⟩

end Edges

theorem mem_boxes_iff {name : String} :
    name ∈ graph.drawing.boxes ↔
      ∃ tensor < graph.tensors.length, graph.tensorLabel tensor = name := by
  simp [drawing]

theorem nodup_names (graph : Graph) : (graph.drawing.boxes ++ graph.drawing.circles).Nodup := by
  refine List.nodup_append.mpr ⟨?_, ?_, ?_⟩
  · exact List.nodup_range.map fun _ _ same => (tensorLabel_injective same).2
  · refine List.nodup_range.filterMap fun position place label named otherNamed => ?_
    exact (operationLabel?_injective named otherNamed).2.1
  · intro box isBox circle isCircle
    obtain ⟨_, _, rfl⟩ := mem_boxes_iff.mp isBox
    obtain ⟨_, _, named⟩ := List.mem_filterMap.mp isCircle
    exact tensorLabel_ne_operationLabel named

namespace WellFormed

theorem isSome_operationLabel?_iff (wellFormed : graph.WellFormed) {position : Nat}
    {node : OperationNode} (found : graph.operations[position]? = some node) :
    (graph.operationLabel? position).isSome = true ↔ node.operation.isGroup = false := by
  cases isGroup : node.operation.isGroup with
  | true =>
      have listed := operationList_getElem?.mpr ⟨node, found, rfl⟩
      rw [operationLabel?, (wellFormed.headerSlots position _ listed isGroup).1]
      simp
  | false =>
      rw [operationLabel?]
      rcases wellFormed.slot_of_plain found isGroup with ⟨rank, free⟩ | ⟨header, pinned, isMember⟩
      · simp [free]
      · cases pinned <;> simp [isMember]

theorem exists_node_of_operationLabel? (wellFormed : graph.WellFormed) {position : Nat}
    {label : String} (named : graph.operationLabel? position = some label) :
    ∃ node, graph.operations[position]? = some node ∧ node.operation.isGroup = false := by
  obtain ⟨slot, _, slotFound, _⟩ := exists_parts_of_operationLabel? named
  have bound := (List.getElem?_eq_some_iff.mp slotFound).1
  rw [wellFormed.slotCount] at bound
  have found := List.getElem?_eq_getElem bound
  refine ⟨_, found, (wellFormed.isSome_operationLabel?_iff found).mp ?_⟩
  rw [named, Option.isSome_some]

theorem mem_circles_iff (wellFormed : graph.WellFormed) {name : String} :
    name ∈ graph.drawing.circles ↔ ∃ position, graph.operationLabel? position = some name := by
  rw [drawing, List.mem_filterMap]
  constructor
  · rintro ⟨position, _, named⟩
    exact ⟨position, named⟩
  · rintro ⟨position, named⟩
    obtain ⟨_, found, _⟩ := wellFormed.exists_node_of_operationLabel? named
    exact ⟨position, List.mem_range.mpr (List.getElem?_eq_some_iff.mp found).1, named⟩

theorem leads_tensorLabel_iff (wellFormed : graph.WellFormed) {tensor position : Nat}
    {tensorNode : TensorNode} {node : OperationNode} {label : String}
    (tensorFound : graph.tensors[tensor]? = some tensorNode)
    (found : graph.operations[position]? = some node)
    (named : graph.operationLabel? position = some label) :
    graph.drawing.Leads (graph.tensorLabel tensor) label ↔
      node.operation.reads tensorNode.tensor.id = true := by
  simp only [Drawing.Leads, mem_edges_tensorLabel tensorFound, exists_eq_left', List.mem_filterMap]
  have listed := operationList_getElem?.mpr ⟨node, found, rfl⟩
  constructor
  · rintro ⟨consumer, isConsumer, same⟩
    rw [(operationLabel?_injective same named).2.1] at isConsumer
    obtain ⟨reader, readerListed, reads⟩ :=
      (wellFormed.consumers tensorNode (List.mem_of_getElem? tensorFound) position).mp isConsumer
    rw [listed] at readerListed
    cases readerListed
    exact reads
  · intro reads
    exact ⟨position, (wellFormed.consumers tensorNode (List.mem_of_getElem? tensorFound)
      position).mpr ⟨node.operation, listed, reads⟩, named⟩

theorem leads_operationLabel_iff (wellFormed : graph.WellFormed) {tensor position : Nat}
    {tensorNode : TensorNode} {node : OperationNode} {label : String}
    (tensorFound : graph.tensors[tensor]? = some tensorNode)
    (found : graph.operations[position]? = some node)
    (named : graph.operationLabel? position = some label) :
    graph.drawing.Leads label (graph.tensorLabel tensor) ↔
      node.operation.writes tensorNode.tensor.id = true := by
  simp only [Drawing.Leads, mem_edges_operationLabel found named, exists_eq_left', List.mem_map]
  have isOutput : tensor ∈ node.outputs ↔ _ :=
    wellFormed.mem_outputs_iff (List.mem_of_getElem? found)
  simp only [tensorFound, Option.some.injEq, exists_eq_left'] at isOutput
  rw [← isOutput]
  constructor
  · rintro ⟨output, isWritten, same⟩
    rwa [← (tensorLabel_injective same).2]
  · intro isWritten
    exact ⟨tensor, isWritten, rfl⟩

theorem names_declared (wellFormed : graph.WellFormed) {source : String} {targets : List String}
    (listed : (source, targets) ∈ graph.drawing.edges) :
    (source ∈ graph.drawing.boxes ∧ ∀ target ∈ targets, target ∈ graph.drawing.circles) ∨
      (source ∈ graph.drawing.circles ∧ ∀ target ∈ targets, target ∈ graph.drawing.boxes) := by
  rcases mem_edges_iff.mp listed with ⟨tensor, node, found, rfl, rfl⟩ | ⟨position, node, found,
    named, rfl⟩
  · refine Or.inl ⟨mem_boxes_iff.mpr ⟨tensor, (List.getElem?_eq_some_iff.mp found).1, rfl⟩, ?_⟩
    intro target isTarget
    obtain ⟨consumer, _, consumerNamed⟩ := List.mem_filterMap.mp isTarget
    exact wellFormed.mem_circles_iff.mpr ⟨consumer, consumerNamed⟩
  · refine Or.inr ⟨wellFormed.mem_circles_iff.mpr ⟨position, named⟩, ?_⟩
    intro target isTarget
    obtain ⟨output, isOutput, rfl⟩ := List.mem_map.mp isTarget
    obtain ⟨_, outputFound, _⟩ :=
      (wellFormed.mem_outputs_iff (List.mem_of_getElem? found)).mp isOutput
    exact mem_boxes_iff.mpr ⟨output, (List.getElem?_eq_some_iff.mp outputFound).1, rfl⟩

theorem shows_drawing (wellFormed : graph.WellFormed) : graph.drawing.Shows graph := by
  constructor
  case boxes => rfl
  case circles => rfl
  case named =>
    intro position operation listed
    obtain ⟨node, found, rfl⟩ := operationList_getElem?.mp listed
    exact wellFormed.isSome_operationLabel?_iff found
  case distinct => exact graph.nodup_names
  case declared => exact fun source targets listed => wellFormed.names_declared listed
  case reads =>
    intro tensor descriptor position operation label tensorListed listed named
    obtain ⟨tensorNode, tensorFound, rfl⟩ := tensorList_getElem?.mp tensorListed
    obtain ⟨node, found, rfl⟩ := operationList_getElem?.mp listed
    exact wellFormed.leads_tensorLabel_iff tensorFound found named
  case writes =>
    intro tensor descriptor position operation label tensorListed listed named
    obtain ⟨tensorNode, tensorFound, rfl⟩ := tensorList_getElem?.mp tensorListed
    obtain ⟨node, found, rfl⟩ := operationList_getElem?.mp listed
    exact wellFormed.leads_operationLabel_iff tensorFound found named

end WellFormed

section Injectivity

theorem eq_of_filterMap_eq_filterMap {α : Type} {first second : Nat → Option α}
    {positions places : List Nat}
    (same : positions.filterMap first = places.filterMap second)
    (named : ∀ position ∈ positions, (first position).isSome = true)
    (otherNamed : ∀ place ∈ places, (second place).isSome = true)
    (apart : ∀ position place name, first position = some name → second place = some name →
      position = place) :
    positions = places := by
  induction positions generalizing places with
  | nil =>
      cases places with
      | nil => rfl
      | cons place places =>
          obtain ⟨name, found⟩ := Option.isSome_iff_exists.mp (otherNamed place (by simp))
          simp [found] at same
  | cons position positions ih =>
      obtain ⟨name, found⟩ := Option.isSome_iff_exists.mp (named position (by simp))
      rw [List.filterMap_cons_some found] at same
      cases places with
      | nil => simp at same
      | cons place places =>
          obtain ⟨other, otherFound⟩ := Option.isSome_iff_exists.mp (otherNamed place (by simp))
          rw [List.filterMap_cons_some otherFound, List.cons.injEq] at same
          obtain ⟨rfl, rest⟩ := same
          rw [apart position place name found otherFound,
            ih rest (List.forall_mem_cons.mp named).2 (List.forall_mem_cons.mp otherNamed).2]

theorem length_tensors_of_drawing_eq (same : graph.drawing = other.drawing) :
    graph.tensors.length = other.tensors.length := by
  have lengths := congrArg (fun drawing => drawing.boxes.length) same
  simpa [drawing] using lengths

theorem tensorLabel_of_drawing_eq (same : graph.drawing = other.drawing) {tensor : Nat}
    (bound : tensor < graph.tensors.length) :
    graph.tensorLabel tensor = other.tensorLabel tensor := by
  have boxes := congrArg (fun drawing => drawing.boxes[tensor]?) same
  have otherBound := bound
  rw [length_tensors_of_drawing_eq same] at otherBound
  simpa [drawing, List.getElem?_range bound, List.getElem?_range otherBound] using boxes

theorem shown?_eq_some_iff {position : Nat} {shown : ShownOperation} :
    graph.shown? position = some shown ↔ ∃ node, graph.operations[position]? = some node ∧
      node.operation.isGroup = false ∧ graph.slots[position]? = some shown.slot ∧
      node.operation.id = shown.id ∧ node.outputs = shown.outputs := by
  obtain ⟨id, slot, outputs⟩ := shown
  rw [shown?]
  cases graph.operations[position]? with
  | none => simp
  | some node =>
      cases graph.slots[position]? with
      | none => simp
      | some found =>
          cases isGroup : node.operation.isGroup with
          | true => simp [isGroup]
          | false => simp [isGroup, and_left_comm]

namespace WellFormed

theorem isSome_of_mem_consumers (wellFormed : graph.WellFormed) {node : TensorNode}
    (member : node ∈ graph.tensors) {position : Nat} (isConsumer : position ∈ node.consumers) :
    (graph.operationLabel? position).isSome = true := by
  obtain ⟨_, listed, reads⟩ := (wellFormed.consumers node member position).mp isConsumer
  obtain ⟨_, found, rfl⟩ := operationList_getElem?.mp listed
  exact (wellFormed.isSome_operationLabel?_iff found).mpr (Connections.reads_iff.mp reads).1

theorem operationLabel?_of_drawing_eq (wellFormed : graph.WellFormed)
    (otherWellFormed : other.WellFormed) (same : graph.drawing = other.drawing) {position : Nat}
    {label : String} (named : graph.operationLabel? position = some label) :
    other.operationLabel? position = some label := by
  have isCircle := wellFormed.mem_circles_iff.mpr ⟨position, named⟩
  rw [same] at isCircle
  obtain ⟨place, otherNamed⟩ := otherWellFormed.mem_circles_iff.mp isCircle
  rwa [(operationLabel?_injective named otherNamed).2.1]

theorem consumers_of_drawing_eq (wellFormed : graph.WellFormed)
    (otherWellFormed : other.WellFormed) (same : graph.drawing = other.drawing) {tensor : Nat}
    {node otherNode : TensorNode} (found : graph.tensors[tensor]? = some node)
    (otherFound : other.tensors[tensor]? = some otherNode) :
    node.consumers = otherNode.consumers := by
  have line := (mem_edges_tensorLabel found).mpr rfl
  rw [same, tensorLabel_of_drawing_eq same (List.getElem?_eq_some_iff.mp found).1,
    mem_edges_tensorLabel otherFound] at line
  refine eq_of_filterMap_eq_filterMap line.symm ?_ ?_ ?_
  · exact fun _ => wellFormed.isSome_of_mem_consumers (List.mem_of_getElem? found)
  · exact fun _ => otherWellFormed.isSome_of_mem_consumers (List.mem_of_getElem? otherFound)
  · exact fun _ _ _ named otherNamed => (operationLabel?_injective named otherNamed).2.1

theorem shown?_of_drawing_eq (wellFormed : graph.WellFormed)
    (otherWellFormed : other.WellFormed) (same : graph.drawing = other.drawing) {position : Nat}
    {shown : ShownOperation} (isShown : graph.shown? position = some shown) :
    other.shown? position = some shown := by
  obtain ⟨node, found, plain, slotFound, sameId, sameOutputs⟩ := shown?_eq_some_iff.mp isShown
  obtain ⟨label, named⟩ :=
    Option.isSome_iff_exists.mp ((wellFormed.isSome_operationLabel?_iff found).mpr plain)
  have otherNamed := wellFormed.operationLabel?_of_drawing_eq otherWellFormed same named
  obtain ⟨otherNode, otherFound, otherPlain⟩ :=
    otherWellFormed.exists_node_of_operationLabel? otherNamed
  obtain ⟨ids, _, slots⟩ := operationLabel?_injective named otherNamed
  rw [operationId_eq (operationList_getElem?.mpr ⟨node, found, rfl⟩),
    operationId_eq (operationList_getElem?.mpr ⟨otherNode, otherFound, rfl⟩)] at ids
  have line := (mem_edges_operationLabel found named).mpr rfl
  rw [same, mem_edges_operationLabel otherFound otherNamed, ← List.filterMap_eq_map,
    ← List.filterMap_eq_map] at line
  have outputs : otherNode.outputs = node.outputs := by
    refine eq_of_filterMap_eq_filterMap line (fun _ _ => rfl) (fun _ _ => rfl) ?_
    intro tensor place name isName otherIsName
    exact (tensorLabel_injective (Option.some.inj (isName.trans otherIsName.symm))).2
  exact shown?_eq_some_iff.mpr ⟨otherNode, otherFound, otherPlain, slots ▸ slotFound,
    ids ▸ sameId, outputs.trans sameOutputs⟩

theorem looksLike_of_drawing_eq (wellFormed : graph.WellFormed)
    (otherWellFormed : other.WellFormed) (same : graph.drawing = other.drawing) :
    graph.LooksLike other := by
  have sameLength := length_tensors_of_drawing_eq same
  constructor
  case tensorIds =>
    refine List.ext_getElem (by simpa [tensorList] using sameLength) fun tensor bound _ => ?_
    have inside : tensor < graph.tensors.length := by simpa [tensorList] using bound
    have ids := (tensorLabel_injective (tensorLabel_of_drawing_eq same inside)).1
    simpa [tensorId, tensorList, inside, sameLength ▸ inside] using ids
  case consumers =>
    refine List.ext_getElem (by simpa using sameLength) fun tensor bound otherBound => ?_
    rw [List.length_map] at bound otherBound
    rw [List.getElem_map, List.getElem_map]
    exact wellFormed.consumers_of_drawing_eq otherWellFormed same
      (List.getElem?_eq_getElem bound) (List.getElem?_eq_getElem otherBound)
  case operations =>
    refine fun position => Option.ext fun shown => ⟨?_, ?_⟩
    · exact wellFormed.shown?_of_drawing_eq otherWellFormed same
    · exact otherWellFormed.shown?_of_drawing_eq wellFormed same.symm

end WellFormed

end Injectivity

/-- The text of a drawing shows the graph, and any graph with this text looks the same. -/
theorem dot_shows (obtained : graph.Obtained) :
    (∃ drawing, Drawing.read? (graph.dot {}) = some drawing ∧ drawing.Shows graph) ∧
      ∀ other : Graph, other.Obtained → other.dot {} = graph.dot {} → graph.LooksLike other := by
  obtain ⟨_, _, _, built⟩ := obtained.exists_build
  have wellFormed := wellFormed_of_build built
  refine ⟨⟨graph.drawing, graph.read?_dot, wellFormed.shows_drawing⟩, ?_⟩
  intro other otherObtained same
  obtain ⟨_, _, _, otherBuilt⟩ := otherObtained.exists_build
  exact wellFormed.looksLike_of_drawing_eq (wellFormed_of_build otherBuilt)
    (dot_eq_iff.mp same.symm)

def sineOperations : List Operation :=
  [{ relayCopy 1 1 2 with kind := .sin }, relayCopy 2 0 1, { relayMarker with id := 11 },
    relayCopy 3 2 3, relaySum]

/-- Kinds of operations, ids of markers and capacities are not drawn. -/
theorem dot_shows_relay :
    ∃ graph other drawing, build relayTensors relayOperations ⟨8, 8⟩ = .ok graph ∧
      build relayTensors sineOperations ⟨9, 8⟩ = .ok other ∧ graph ≠ other ∧
      other.dot {} = graph.dot {} ∧ Drawing.read? (graph.dot {}) = some drawing ∧
      drawing.circles = ["OP1_0_2", "OP2_1_1", "OP4_3_2_t", "OP3_4_2_t"] ∧
      drawing.Shows graph ∧ graph.LooksLike other := by
  obtain ⟨⟨drawing, isRead, shows⟩, unique⟩ :=
    dot_shows (@Obtained.built relayTensors relayOperations ⟨8, 8⟩ _ rfl)
  have otherObtained := @Obtained.built relayTensors sineOperations ⟨9, 8⟩ _ rfl
  refine ⟨_, _, drawing, rfl, rfl, by decide, ?same, isRead, ?circles, shows,
    unique _ otherObtained ?same⟩
  case same =>
    rw [dot_eq_iff]
    decide +kernel
  case circles =>
    rw [read?_dot, Option.some.injEq] at isRead
    rw [← isRead]
    decide

end Graph

end TensorGraph
