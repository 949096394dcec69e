import Mathlib.Data.List.NodupEquivFin
import TensorGraph.Proofs.ClosedParts
import TensorGraph.Proofs.Running

/-!
Running a part of a graph gives its tensors the contents that a run of the whole graph gives them.
-/

namespace TensorGraph

theorem tensorsAt_map {tensors partTensors : List Tensor} {place : Nat → Nat}
    (placed : ∀ index, partTensors[index]? = tensors[place index]?) (positions : List Nat) :
    tensorsAt tensors (positions.map place) = tensorsAt partTensors positions := by
  rw [tensorsAt, tensorsAt, List.filterMap_map]
  exact List.filterMap_congr fun index _ => (placed index).symm

/-- Whether an operation is solved depends on its operands only, not on their positions. -/
theorem Graph.solved_of_placed {kernels : KernelSet} {tensors partTensors : List Tensor}
    {place : Nat → Nat} (placed : ∀ index, partTensors[index]? = tensors[place index]?)
    {operation : Operation} {inputs outputs : List Nat} {table : Table}
    (solved : (compacted operation (inputs.map place) (outputs.map place)).Solved kernels tensors
      table) :
    (compacted operation inputs outputs).Solved kernels partTensors
      fun elementType index => table elementType (place index) := by
  intro position before lengths
  have sameLengths : before.map List.length =
      (tensorsAt tensors (outputs.map place)).map Tensor.elementCount := by
    rw [tensorsAt_map placed]
    exact lengths
  have result := solved position before sameLengths
  simp only [CompactOperation.task, compacted, tensorsAt_map placed, List.map_map] at result ⊢
  exact result

namespace Executor

theorem Serves.read_eq {executor : Executor} {graph : Graph} (serves : executor.Serves graph)
    (wellFormed : graph.WellFormed) {index : Nat} {tensor : Tensor}
    (found : graph.tensorList[index]? = some tensor) (elementType : ElementType) :
    executor.read elementType tensor.id = executor.store.read elementType index := by
  have located : executor.graph.tensors.findIdx? (fun other => other.id = tensor.id) =
      some index := by
    rw [serves.tensors_eq, List.findIdx?_eq_some_iff_getElem]
    obtain ⟨bound, here⟩ := List.getElem?_eq_some_iff.mp found
    refine ⟨bound, by simp [here], fun earlier before isNamed => ?_⟩
    have same := Connections.position_eq_of_id_eq wellFormed.tensorIds
      (List.getElem?_eq_getElem (before.trans bound)) found (by simpa using isNamed)
    omega
  simp only [Executor.read, tensorIndex, located, readAt, bind, Except.bind]

end Executor

namespace Graph

namespace CutFrom

variable {part graph : Graph}

theorem exists_place (cut : part.CutFrom graph) :
    ∃ place : Nat → Nat, ∀ index, part.tensorList[index]? = graph.tensorList[place index]? := by
  obtain ⟨place, placed⟩ := List.sublist_iff_exists_orderEmbedding_getElem?_eq.mp cut.tensors
  exact ⟨place, placed⟩

theorem named_map {place : Nat → Nat}
    (placed : ∀ index, part.tensorList[index]? = graph.tensorList[place index]?)
    {positions : List Nat} {names : List TensorId}
    (named : Connections.Named part.tensorList positions names) :
    Connections.Named graph.tensorList (positions.map place) names := by
  refine List.forall₂_map_left_iff.mpr (named.imp ?_)
  rintro position name ⟨tensor, found, same⟩
  exact ⟨tensor, by rw [← placed, found], same⟩

theorem exists_compactNode (cut : part.CutFrom graph) (wellFormed : graph.WellFormed)
    (partWellFormed : part.WellFormed) {place : Nat → Nat}
    (placed : ∀ index, part.tensorList[index]? = graph.tensorList[place index]?)
    {node : OperationNode} (member : node ∈ part.executable) :
    compacted node.operation (node.inputs.map place) (node.outputs.map place) ∈
      graph.executable.map compactNode := by
  obtain ⟨listed, plain⟩ := mem_executable.mp member
  obtain ⟨whole, wholeMember, same⟩ := cut.exists_executable member
  obtain ⟨wholeListed, wholePlain⟩ := mem_executable.mp wholeMember
  have inputs := wellFormed.inputs whole wholeListed wholePlain
  have outputs := wellFormed.outputs whole wholeListed wholePlain
  rw [same] at inputs outputs
  rw [(named_map placed (partWellFormed.inputs node listed plain)).eq inputs wellFormed.tensorIds,
    (named_map placed (partWellFormed.outputs node listed plain)).eq outputs wellFormed.tensorIds,
    ← same]
  exact List.mem_map_of_mem wholeMember

theorem solution (cut : part.CutFrom graph) (wellFormed : graph.WellFormed)
    (partWellFormed : part.WellFormed) {place : Nat → Nat}
    (placed : ∀ index, part.tensorList[index]? = graph.tensorList[place index]?)
    {table : Table} (solution : graph.Solution table) :
    part.Solution fun elementType index => table elementType (place index) := by
  constructor
  case supported =>
    rw [List.forall_mem_map]
    intro node member
    have supported := solution.supported _
      (cut.exists_compactNode wellFormed partWellFormed placed member)
    exact supported
  case solved =>
    rw [List.forall_mem_map]
    intro node member
    exact solved_of_placed placed
      (solution.solved _ (cut.exists_compactNode wellFormed partWellFormed placed member))

theorem producer?_place (cut : part.CutFrom graph) (wellFormed : graph.WellFormed)
    (partWellFormed : part.WellFormed) {place : Nat → Nat}
    (placed : ∀ index, part.tensorList[index]? = graph.tensorList[place index]?)
    {index : Nat} {tensor : Tensor} (found : part.tensorList[index]? = some tensor)
    (noProducer : part.producer? index = none) : graph.producer? (place index) = none := by
  cases produced : graph.producer? (place index) with
  | none => rfl
  | some position =>
      obtain ⟨node, nodeFound, written⟩ := wellFormed.producer?_eq_some_iff.mp produced
      have listed := List.mem_of_getElem? nodeFound
      obtain ⟨tensorNode, tensorFound, writes⟩ := (wellFormed.mem_outputs_iff listed).mp written
      have wholeFound := WellFormed.tensorList_getElem?.mpr ⟨tensorNode, tensorFound, rfl⟩
      rw [← placed, found] at wholeFound
      have notWritten := cut.not_written partWellFormed found noProducer node.operation
        (List.mem_map_of_mem listed)
      rw [Option.some.inj wholeFound, writes] at notWritten
      cases notWritten

end CutFrom

theorem CutFrom.exists_executor {part graph : Graph} (cut : part.CutFrom graph)
    {executor : Executor} (serves : executor.Serves graph) {compactPart : CompactGraph}
    (compacted : part.compact = .ok compactPart) :
    ∃ fresh, Executor.create compactPart .standard = .ok fresh := by
  obtain ⟨_, created, _, _⟩ := serves.created
  obtain ⟨_, laidOut, _⟩ := Executor.create_ok_iff.mp created
  obtain ⟨_, placed, _⟩ := Store.ofGraph_ok_iff.mp laidOut
  rw [serves.tensors_eq] at placed
  obtain ⟨_, partPlaced⟩ := placeFrom_of_sublist cut.tensors (fun _ => Nat.le_refl _) placed
  obtain ⟨_, _, same⟩ := compact_ok_iff.mp compacted
  have partTensors : compactPart.tensors = part.tensorList := by rw [same]
  rw [← partTensors] at partPlaced
  exact ⟨_, Executor.create_ok_iff.mpr ⟨_, Store.ofGraph_ok_iff.mpr ⟨_, partPlaced, rfl⟩, rfl⟩⟩

/-- From the same contents of what it does not compute itself, the part computes what the graph
computes. -/
theorem CutFrom.run_of_run {part graph : Graph} (cut : part.CutFrom graph)
    (wellFormed : graph.WellFormed) (partWellFormed : part.WellFormed)
    {executor partExecutor : Executor} (serves : executor.Serves graph)
    (partServes : partExecutor.Serves part) (finished : executor.run.error = none)
    {place : Nat → Nat}
    (placed : ∀ index, part.tensorList[index]? = graph.tensorList[place index]?)
    (given : ∀ index tensor, part.tensorList[index]? = some tensor →
      part.producer? index = none →
        partExecutor.store.contents tensor.elementType index =
          executor.store.contents tensor.elementType (place index)) :
    partExecutor.run.error = none ∧
      ∀ index tensor, part.tensorList[index]? = some tensor →
        partExecutor.run.store.contents tensor.elementType index =
          executor.run.store.contents tensor.elementType (place index) := by
  have solution := cut.solution wellFormed partWellFormed placed
    (serves.solution_of_run wellFormed finished)
  refine partServes.run_of_solution partWellFormed solution ?_
  intro index noProducer tensor found
  have wholeNoProducer := cut.producer?_place wellFormed partWellFormed placed found noProducer
  rw [given index tensor found noProducer]
  exact (serves.run_frame wellFormed wholeNoProducer tensor (by rw [← placed, found])).symm

theorem subgraph_run {tensors : List Tensor} {operations : List Operation}
    {wholeCapacity capacity : Capacity} {graph part : Graph} {wanted : List TensorId}
    (built : build tensors operations wholeCapacity = .ok graph)
    (extracted : graph.subgraph wanted capacity = .ok part)
    {executor : Executor} (serves : executor.Serves graph)
    (finished : executor.run.error = none) :
    part.isOrdered = true ∧
      ∃ compactPart fresh, part.compact = .ok compactPart ∧
        Executor.create compactPart .standard = .ok fresh ∧
        ∀ partExecutor : Executor, partExecutor.Serves part →
          (∀ index tensor, part.tensorList[index]? = some tensor →
            part.producer? index = none → ∀ elementType,
              partExecutor.read elementType tensor.id = executor.read elementType tensor.id) →
          partExecutor.run.error = none ∧
            ∀ tensor ∈ part.tensorList, ∀ elementType,
              (partExecutor.after partExecutor.run).read elementType tensor.id =
                (executor.after executor.run).read elementType tensor.id := by
  simp only [subgraph, bind_eq_ok_iff] at extracted
  obtain ⟨positions, _, extractedAt⟩ := extracted
  have cut := cutFrom_of_subgraphAt built extractedAt
  obtain ⟨_, _, partBuilt⟩ := exists_build_of_subgraphAt extractedAt
  have wellFormed := wellFormed_of_build built
  have partWellFormed := wellFormed_of_build partBuilt
  obtain ⟨ordered, typed, _⟩ := compact_ok_iff.mp serves.compacted
  have partOrdered := cut.ordered wellFormed partWellFormed ordered
  have partCompacted := compact_ok_iff.mpr
    ⟨partOrdered, cut.typed wellFormed partWellFormed typed, rfl⟩
  obtain ⟨fresh, created⟩ := cut.exists_executor serves partCompacted
  refine ⟨isOrdered_iff.mpr partOrdered, _, fresh, partCompacted, created, ?_⟩
  intro partExecutor partServes agree
  -- Tensors keep their names in the part, but not their positions.
  obtain ⟨place, placed⟩ := cut.exists_place
  have given : ∀ index tensor, part.tensorList[index]? = some tensor →
      part.producer? index = none → partExecutor.store.contents tensor.elementType index =
        executor.store.contents tensor.elementType (place index) := by
    intro index tensor found noProducer
    have wholeFound : graph.tensorList[place index]? = some tensor := by rw [← placed, found]
    refine (Store.read_eq_read_iff partServes.fits_tensorList serves.fits_tensorList found
      wholeFound).mp fun elementType => ?_
    rw [← partServes.read_eq partWellFormed found, ← serves.read_eq wellFormed wholeFound]
    exact agree index tensor found noProducer elementType
  obtain ⟨partFinished, results⟩ := cut.run_of_run wellFormed partWellFormed serves partServes
    finished placed given
  refine ⟨partFinished, fun tensor member elementType => ?_⟩
  obtain ⟨index, found⟩ := List.mem_iff_getElem?.mp member
  have wholeFound : graph.tensorList[place index]? = some tensor := by rw [← placed, found]
  have after := serves.after_run wellFormed
  have partAfter := partServes.after_run partWellFormed
  rw [partAfter.read_eq partWellFormed found, after.read_eq wellFormed wholeFound]
  exact (Store.read_eq_read_iff partAfter.fits_tensorList after.fits_tensorList found
    wholeFound).mpr (results index tensor found) elementType

theorem subgraph_run_relay :
    ∃ graph part compactGraph compactPart fresh partFresh executor partExecutor,
      build relayTensors [relayCopy 2 0 1, relayCopy 1 1 2, relayMarker, relayCopy 3 2 3, relaySum]
        ⟨8, 8⟩ = .ok graph ∧
      graph.subgraph [2] ⟨4, 4⟩ = .ok part ∧ part.operationList.map Operation.id = [2, 1] ∧
      graph.compact = .ok compactGraph ∧ part.compact = .ok compactPart ∧
      Executor.create compactGraph .standard = .ok fresh ∧
      Executor.create compactPart .standard = .ok partFresh ∧
      fresh.writeAt .u8 0 [7] = .ok executor ∧ partFresh.writeAt .u8 0 [7] = .ok partExecutor ∧
      executor.run.error = none ∧ partExecutor.run.error = none ∧
      ∀ elementType, (partExecutor.after partExecutor.run).read elementType 2 =
        (executor.after executor.run).read elementType 2 := by
  refine ⟨_, _, _, _, _, _, _, _, rfl, rfl, by decide, rfl, rfl, rfl, rfl, rfl, rfl, rfl, ?_⟩
  obtain ⟨_, _, _, _, _, runs⟩ := @subgraph_run relayTensors
    [relayCopy 2 0 1, relayCopy 1 1 2, relayMarker, relayCopy 3 2 3, relaySum] ⟨8, 8⟩ ⟨4, 4⟩ _ _
    [2] rfl rfl _ (@Executor.Serves.after_write _ _ (.of_create rfl rfl) .u8 0 [7] _ rfl) rfl
  obtain ⟨finished, same⟩ := runs _
    (@Executor.Serves.after_write _ _ (.of_create rfl rfl) .u8 0 [7] _ rfl) (by
    intro index tensor found noProducer elementType
    match index with
    | 0 =>
        cases found
        cases elementType <;> decide
    | 1 | 2 => exact absurd noProducer (by decide)
    | _ + 3 => cases found)
  exact ⟨finished, same (.scalar 2 .u8) (by decide)⟩

end Graph

end TensorGraph
