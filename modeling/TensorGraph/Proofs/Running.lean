import TensorGraph.Proofs.Compaction

/-!
Executors. However the memory of an executor came about, it keeps the layout it was created with, and
a run of the executor finishes exactly if its graph has a solution with the given contents.
-/

namespace TensorGraph

namespace CompactGraph

variable {graph : CompactGraph} {kernels : KernelSet} {store : Store}

structure Runnable (graph : CompactGraph) : Prop where
  valid : ∀ tensor ∈ graph.tensors, tensor.validate = .ok ()
  sequential : Sequential graph.tensors graph.operations

structure Solution (graph : CompactGraph) (kernels : KernelSet) (table : Table) : Prop where
  supported : ∀ operation ∈ graph.operations,
    kernels.supports operation.kind operation.elementType = true
  solved : ∀ operation ∈ graph.operations, operation.Solved kernels graph.tensors table

theorem checkSupported_ok_iff : graph.checkSupported kernels = .ok () ↔
    ∀ operation ∈ graph.operations,
      kernels.supports operation.kind operation.elementType = true := by
  rw [checkSupported]
  split
  · rename_i operation found
    have member := List.mem_of_find?_eq_some found
    have unsupported := List.find?_some found
    rw [Bool.not_eq_true'] at unsupported
    refine ⟨fun impossible => (by cases impossible), fun supported => ?_⟩
    rw [supported operation member] at unsupported
    cases unsupported
  · rename_i noneFound
    refine ⟨fun _ operation member => ?_, fun _ => rfl⟩
    simpa using List.find?_eq_none.mp noneFound operation member

theorem run_of_supported (supported : graph.checkSupported kernels = .ok ()) :
    graph.run kernels store = graph.runFrom kernels 0 graph.operations store := by
  rw [run, supported]

theorem run_frame (runnable : graph.Runnable) (overwrites : kernels.Overwrites)
    (fits : store.Fits graph.tensors) :
    (graph.run kernels store).store.SameLayout store ∧
      ∀ index, (∀ operation ∈ graph.operations, index ∉ operation.outputs) →
        AgreeAt graph.tensors (graph.run kernels store).store.contents store.contents index := by
  rw [run]
  split
  · exact ⟨⟨rfl, fun _ => rfl⟩, fun _ _ _ _ => rfl⟩
  · exact runFrom_frame overwrites runnable.valid runnable.sequential fits 0

theorem solution_of_run (runnable : graph.Runnable) (overwrites : kernels.Overwrites)
    (fits : store.Fits graph.tensors) (finished : (graph.run kernels store).error = none) :
    graph.Solution kernels (graph.run kernels store).store.contents := by
  cases supported : graph.checkSupported kernels with
  | error failure =>
      rw [run, supported] at finished
      cases finished
  | ok _ =>
      rw [run_of_supported supported] at finished ⊢
      exact ⟨checkSupported_ok_iff.mp supported,
        solved_of_runFrom overwrites runnable.valid runnable.sequential fits finished⟩

theorem run_of_solution (runnable : graph.Runnable) (overwrites : kernels.Overwrites)
    (fits : store.Fits graph.tensors) {table : Table} (solution : graph.Solution kernels table)
    (given : ∀ index, (∀ operation ∈ graph.operations, index ∉ operation.outputs) →
      AgreeAt graph.tensors store.contents table index) :
    (graph.run kernels store).error = none ∧
      ∀ index, AgreeAt graph.tensors (graph.run kernels store).store.contents table index := by
  rw [run_of_supported (checkSupported_ok_iff.mpr solution.supported)]
  exact runFrom_of_solved overwrites runnable.valid runnable.sequential fits 0 solution.solved given

end CompactGraph

/-- Contents with which the outputs of every operation hold what the standard kernels make of its
inputs. -/
structure Graph.Solution (graph : Graph) (table : Table) : Prop where
  supported : ∀ operation ∈ graph.executable.map Graph.compactNode,
    KernelSet.standardSupports operation.kind operation.elementType = true
  solved : ∀ operation ∈ graph.executable.map Graph.compactNode,
    operation.Solved .standard graph.tensorList table

namespace Executor

/-- The executor runs the compact form of the graph with the standard kernels, in memory laid out for
it that may hold anything. -/
structure Serves (executor : Executor) (graph : Graph) : Prop where
  compacted : graph.compact = .ok executor.graph
  created : ∃ fresh, create executor.graph .standard = .ok fresh ∧
    executor.kernels = fresh.kernels ∧ executor.store.SameLayout fresh.store

theorem create_ok_iff {graph : CompactGraph} {kernels : KernelSet} {executor : Executor} :
    create graph kernels = .ok executor ↔
      ∃ store, Store.ofGraph graph = .ok store ∧ executor = ⟨graph, store, kernels⟩ := by
  simp only [create, bind_eq_ok_iff]
  refine exists_congr fun store => and_congr_right fun _ => ?_
  exact ⟨fun same => (Except.ok.inj same).symm, fun same => congrArg Except.ok same.symm⟩

namespace Serves

variable {executor : Executor} {graph : Graph}

theorem of_create {compactGraph : CompactGraph} (compacted : graph.compact = .ok compactGraph)
    (created : create compactGraph .standard = .ok executor) : executor.Serves graph := by
  obtain ⟨store, laidOut, same⟩ := create_ok_iff.mp created
  subst same
  exact ⟨compacted, _, created, rfl, rfl, fun _ => rfl⟩

theorem kernels_eq (serves : executor.Serves graph) : executor.kernels = .standard := by
  obtain ⟨fresh, created, sameKernels, _⟩ := serves.created
  obtain ⟨_, _, same⟩ := create_ok_iff.mp created
  rw [sameKernels, same]

theorem overwrites (serves : executor.Serves graph) : executor.kernels.Overwrites := by
  rw [serves.kernels_eq]
  exact KernelSet.standard_overwrites

theorem tensors_eq (serves : executor.Serves graph) :
    executor.graph.tensors = graph.tensorList := by
  obtain ⟨_, _, same⟩ := Graph.compact_ok_iff.mp serves.compacted
  rw [same]

theorem operations_eq (serves : executor.Serves graph) :
    executor.graph.operations = graph.executable.map Graph.compactNode := by
  obtain ⟨_, _, same⟩ := Graph.compact_ok_iff.mp serves.compacted
  rw [same]

theorem fits (serves : executor.Serves graph) : executor.store.Fits executor.graph.tensors := by
  obtain ⟨fresh, created, _, layout⟩ := serves.created
  obtain ⟨store, laidOut, same⟩ := create_ok_iff.mp created
  rw [same] at layout
  exact (Store.fits_of_ofGraph laidOut).of_sameLayout layout

theorem runnable (serves : executor.Serves graph) (wellFormed : graph.WellFormed) :
    executor.graph.Runnable := by
  obtain ⟨ordered, typed, _⟩ := Graph.compact_ok_iff.mp serves.compacted
  constructor
  case valid =>
    rw [serves.tensors_eq]
    exact wellFormed.tensorsValid
  case sequential =>
    rw [serves.tensors_eq, serves.operations_eq]
    exact wellFormed.sequential ordered typed

theorem fits_tensorList (serves : executor.Serves graph) :
    executor.store.Fits graph.tensorList := by
  rw [← serves.tensors_eq]
  exact serves.fits

theorem after_run (serves : executor.Serves graph) (wellFormed : graph.WellFormed) :
    (executor.after executor.run).Serves graph := by
  obtain ⟨fresh, created, sameKernels, layout⟩ := serves.created
  have kept := (CompactGraph.run_frame (serves.runnable wellFormed) serves.overwrites
    serves.fits).1
  exact ⟨serves.compacted, fresh, created, sameKernels, kept.trans layout⟩

theorem after_write (serves : executor.Serves graph) {elementType : ElementType} {index : Nat}
    {data : List (Element elementType)} {written : Executor}
    (succeeded : executor.writeAt elementType index data = .ok written) :
    written.Serves graph := by
  simp only [writeAt, bind_eq_ok_iff] at succeeded
  obtain ⟨store, storeWritten, same⟩ := succeeded
  cases same
  obtain ⟨fresh, created, sameKernels, layout⟩ := serves.created
  exact ⟨serves.compacted, fresh, created, sameKernels,
    (Store.write_sameLayout serves.fits storeWritten).trans layout⟩

theorem run_frame (serves : executor.Serves graph) (wellFormed : graph.WellFormed) {index : Nat}
    (noProducer : graph.producer? index = none) :
    AgreeAt graph.tensorList executor.run.store.contents executor.store.contents index := by
  rw [wellFormed.producer?_eq_none_iff, ← serves.operations_eq] at noProducer
  rw [← serves.tensors_eq]
  exact (CompactGraph.run_frame (serves.runnable wellFormed) serves.overwrites serves.fits).2
    index noProducer

theorem solution_of_run (serves : executor.Serves graph) (wellFormed : graph.WellFormed)
    (finished : executor.run.error = none) :
    graph.Solution executor.run.store.contents := by
  have solution := CompactGraph.solution_of_run (serves.runnable wellFormed) serves.overwrites
    serves.fits finished
  rw [serves.kernels_eq] at solution
  rw [Executor.run, serves.kernels_eq]
  constructor
  case supported =>
    rw [← serves.operations_eq]
    exact solution.supported
  case solved =>
    rw [← serves.operations_eq, ← serves.tensors_eq]
    exact solution.solved

/-- Where there is a solution with the given contents, a run finishes and finds it. -/
theorem run_of_solution (serves : executor.Serves graph) (wellFormed : graph.WellFormed)
    {table : Table} (solution : graph.Solution table)
    (given : ∀ index, graph.producer? index = none →
      AgreeAt graph.tensorList executor.store.contents table index) :
    executor.run.error = none ∧
      ∀ index, AgreeAt graph.tensorList executor.run.store.contents table index := by
  have compactSolution : executor.graph.Solution executor.kernels table := by
    rw [serves.kernels_eq]
    constructor
    case supported =>
      rw [serves.operations_eq]
      exact solution.supported
    case solved =>
      rw [serves.operations_eq, serves.tensors_eq]
      exact solution.solved
  rw [← serves.tensors_eq] at given ⊢
  refine CompactGraph.run_of_solution (serves.runnable wellFormed) serves.overwrites serves.fits
    compactSolution fun index untouched => given index ?_
  rw [wellFormed.producer?_eq_none_iff, ← serves.operations_eq]
  exact untouched

end Serves

end Executor

end TensorGraph
