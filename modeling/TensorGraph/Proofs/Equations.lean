import TensorGraph.Proofs.KernelCorrectness
import TensorGraph.Proofs.Obtained
import TensorGraph.Proofs.Running

/-!
Memory as a solution of the graph. When a run has finished, every operation stands as an equation
between what its inputs and its outputs hold at the end, and another run changes nothing.
-/

namespace TensorGraph

namespace CompactOperation

variable {tensors : List Tensor} {operation : CompactOperation} {store : Store}

theorem forall₂_tensorsAt {positions : List Nat}
    (inside : ∀ position ∈ positions, ∃ tensor, tensors[position]? = some tensor) :
    List.Forall₂ (fun tensor position => tensors[position]? = some tensor)
      (tensorsAt tensors positions) positions := by
  induction positions with
  | nil => exact List.Forall₂.nil
  | cons position rest ih =>
      obtain ⟨tensor, found⟩ := inside position (by simp)
      rw [tensorsAt, List.filterMap_cons_some found]
      exact List.Forall₂.cons found (ih fun later member => inside later
        (List.mem_cons_of_mem _ member))

theorem filled_views (fits : store.Fits tensors) (sound : operation.Sound tensors)
    (valid : ∀ tensor ∈ tensors, tensor.validate = .ok ()) :
    Kernel.Filled (tensorsAt tensors operation.inputs) (store.views operation).inputs := by
  intro position tensor contents listed held
  obtain ⟨index, isInput, found⟩ :=
    getElem?_of_forall₂ (forall₂_tensorsAt (sound.found (List.subset_append_left _ _))) listed
  obtain ⟨typedTensor, typedFound, sameType⟩ :=
    sound.typed index (List.mem_append_left _ (List.mem_of_getElem? isInput))
  rw [found] at typedFound
  cases typedFound
  rw [Store.views, List.getElem?_map, isInput] at held
  cases held
  refine ⟨valid tensor (List.mem_of_getElem? found), ?_⟩
  rw [← sameType]
  exact fits.length_contents found

theorem exists_yields_of_solved (fits : store.Fits tensors) (sound : operation.Sound tensors)
    (valid : ∀ tensor ∈ tensors, tensor.validate = .ok ())
    (solved : operation.Solved .standard tensors store.contents) :
    ∃ arithmetic result, operation.elementType.arithmetic = some arithmetic ∧
      ∀ index ∈ operation.outputs, store.contents operation.elementType index = result ∧
        ∃ tensor, tensors[index]? = some tensor ∧
          Kernel.Yields arithmetic (operation.parameters.scalar? operation.elementType)
            (tensorsAt tensors operation.inputs) tensor (store.views operation).inputs result
            operation.kind := by
  have lengths := length_views_outputs fits sound
  obtain ⟨finished, results⟩ := solved 0 (store.views operation).outputs lengths
  simp only [KernelSet.standard, KernelSet.standardExecute] at finished results
  cases known : operation.elementType.arithmetic with
  | none =>
      rw [known] at finished
      cases finished
  | some arithmetic =>
      rw [known] at finished results
      obtain ⟨result, copies, yields⟩ := Kernel.yields_of_compute (filled_views fits sound valid)
        (task_fitting 0 valid lengths).valid lengths (Option.map_eq_none_iff.mp finished)
      refine ⟨arithmetic, result, rfl, fun index member => ?_⟩
      have inside := sound.found (List.subset_append_right _ _)
      have everywhere := (map_tensorsAt (fun _ => result) (fun _ => result) operation.outputs
        fun position listed => (inside position listed).imp fun _ found => ⟨found, rfl⟩).symm.trans
          (copies.symm.trans results)
      obtain ⟨tensor, found⟩ := inside index member
      refine ⟨(List.map_inj_left.mp everywhere index member).symm, tensor, found, ?_⟩
      exact yields tensor (List.mem_filterMap.mpr ⟨index, member, found⟩)

end CompactOperation

namespace CompactGraph

open CompactOperation (outcome stepped)

variable {graph : CompactGraph} {kernels : KernelSet} {store : Store}

/-- Operations whose results are in place run without changing anything. -/
theorem runFrom_of_settled (valid : ∀ tensor ∈ graph.tensors, tensor.validate = .ok ())
    (fits : store.Fits graph.tensors) {operations : List CompactOperation}
    (sound : ∀ operation ∈ operations, operation.Sound graph.tensors)
    (solved : ∀ operation ∈ operations, operation.Solved kernels graph.tensors store.contents)
    (position : Nat) :
    (graph.runFrom kernels position operations store).error = none ∧
      (graph.runFrom kernels position operations store).store = store := by
  induction operations generalizing position with
  | nil => exact ⟨rfl, rfl⟩
  | cons operation rest ih =>
      have headSound := sound operation (by simp)
      obtain ⟨finished, results⟩ := solved operation (by simp) position
        (store.views operation).outputs (CompactOperation.length_views_outputs fits headSound)
      have unchanged : stepped kernels position graph.tensors store operation = store :=
        (congrArg (store.withOutputs operation) results).trans (fits.withOutputs_contents headSound)
      obtain ⟨sameError, sameStore⟩ :=
        runFrom_cons_of_finished rest fits headSound valid finished
      rw [sameError, sameStore, unchanged]
      exact ih (fun other member => sound other (List.mem_cons_of_mem _ member))
        (fun other member => solved other (List.mem_cons_of_mem _ member)) (position + 1)

theorem run_of_settled (runnable : graph.Runnable) (fits : store.Fits graph.tensors)
    (solution : graph.Solution kernels store.contents) :
    (graph.run kernels store).error = none ∧ (graph.run kernels store).store = store := by
  rw [run_of_supported (checkSupported_ok_iff.mpr solution.supported)]
  exact runFrom_of_settled runnable.valid fits runnable.sequential.sound solution.solved 0

end CompactGraph

namespace Executor

/-- All outputs of the operation hold the one result that it has on what its inputs hold. -/
def Solves (executor : Executor) (operation : CompactOperation) : Prop :=
  ∃ arithmetic operands result, operation.elementType.arithmetic = some arithmetic ∧
    List.Forall₂ (fun index contents =>
      executor.readAt operation.elementType index = .ok contents) operation.inputs operands ∧
    ∀ index ∈ operation.outputs, executor.readAt operation.elementType index = .ok result ∧
      ∃ tensor, executor.graph.tensors[index]? = some tensor ∧ ∀ contents,
        Kernel.Yields arithmetic (operation.parameters.scalar? operation.elementType)
          (tensorsAt executor.graph.tensors operation.inputs) tensor operands contents
          operation.kind ↔ contents = result

variable {executor : Executor} {operation : CompactOperation}

theorem solves_of_solved (fits : executor.store.Fits executor.graph.tensors)
    (sound : operation.Sound executor.graph.tensors)
    (valid : ∀ tensor ∈ executor.graph.tensors, tensor.validate = .ok ())
    (solved : operation.Solved .standard executor.graph.tensors executor.store.contents) :
    executor.Solves operation := by
  obtain ⟨arithmetic, result, known, holds⟩ :=
    CompactOperation.exists_yields_of_solved fits sound valid solved
  have reads := fits.read_operand sound
  refine ⟨arithmetic, (executor.store.views operation).inputs, result, known, ?_, ?_⟩
  · rw [Store.views, List.forall₂_map_right_iff, List.forall₂_same]
    exact fun index member => reads index (List.mem_append_left _ member)
  · intro index member
    obtain ⟨same, tensor, found, yields⟩ := holds index member
    refine ⟨?_, tensor, found, fun contents => ⟨fun others => others.unique yields, ?_⟩⟩
    · rw [readAt, reads index (List.mem_append_right _ member), same]
    · intro isResult
      rw [isResult]
      exact yields

end Executor

namespace Graph

theorem run_solves {graph : Graph} (obtained : graph.Obtained) {executor : Executor}
    (serves : executor.Serves graph) (finished : executor.run.error = none) :
    (∀ index, graph.producer? index = none → ∀ elementType,
      (executor.after executor.run).readAt elementType index =
        executor.readAt elementType index) ∧
    (∀ operation ∈ executor.graph.operations,
      (executor.after executor.run).Solves operation) ∧
    (executor.after executor.run).run.error = none ∧
    (executor.after executor.run).run.store = executor.run.store := by
  obtain ⟨_, _, _, built⟩ := obtained.exists_build
  have wellFormed := wellFormed_of_build built
  have after := serves.after_run wellFormed
  have runnable := serves.runnable wellFormed
  have solution := CompactGraph.solution_of_run runnable serves.overwrites serves.fits finished
  refine ⟨fun index noProducer => ?_, fun operation member => ?_, ?_⟩
  · exact (Store.read_eq_iff after.fits_tensorList serves.fits_tensorList).mpr
      (serves.run_frame wellFormed noProducer)
  · have solved : operation.Solved executor.kernels executor.graph.tensors
        executor.run.store.contents := solution.solved operation member
    rw [serves.kernels_eq] at solved
    exact Executor.solves_of_solved after.fits (runnable.sequential.sound operation member)
      runnable.valid solved
  · exact CompactGraph.run_of_settled runnable after.fits solution

theorem run_solves_relay :
    ∃ graph compactGraph fresh executor,
      build relayTensors [relayCopy 2 0 1, relayCopy 1 1 2, relayMarker, relayCopy 3 2 3, relaySum]
        ⟨8, 8⟩ = .ok graph ∧
      graph.compact = .ok compactGraph ∧ Executor.create compactGraph .standard = .ok fresh ∧
      fresh.writeAt .u8 0 [7] = .ok executor ∧ executor.run.error = none ∧
      executor.readAt .u8 4 = .ok [0] ∧
      (executor.after executor.run).readAt .u8 4 = .ok [14] ∧
      (∀ index, graph.producer? index = none → ∀ elementType,
        (executor.after executor.run).readAt elementType index =
          executor.readAt elementType index) ∧
      (∀ operation ∈ executor.graph.operations,
        (executor.after executor.run).Solves operation) ∧
      (executor.after executor.run).run.error = none ∧
      (executor.after executor.run).run.store = executor.run.store := by
  refine ⟨_, _, _, _, rfl, rfl, rfl, rfl, rfl, by decide, by decide, ?_⟩
  have built := @Obtained.built relayTensors
    [relayCopy 2 0 1, relayCopy 1 1 2, relayMarker, relayCopy 3 2 3, relaySum] ⟨8, 8⟩ _ rfl
  exact run_solves built (@Executor.Serves.after_write _ _ (.of_create rfl rfl) .u8 0 [7] _ rfl) rfl

end Graph

end TensorGraph
