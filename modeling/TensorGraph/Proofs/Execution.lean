import TensorGraph.Execution
import TensorGraph.Proofs.Contents
import TensorGraph.Proofs.StandardKernels

/-!
One operation of a run. The kernels see the present contents of its operands, memory keeps its
layout, and only the outputs change.
-/

namespace TensorGraph

def tensorsAt (tensors : List Tensor) (positions : List Nat) : List Tensor :=
  positions.filterMap fun position => tensors[position]?

namespace CompactOperation

def task (tensors : List Tensor) (operation : CompactOperation) (position : Nat)
    (contents : Views (Element operation.elementType)) : KernelCall operation.elementType where
  position
  operation := operation.id
  kind := operation.kind
  inputs := tensorsAt tensors operation.inputs
  outputs := tensorsAt tensors operation.outputs
  parameters := operation.parameters
  contents

variable {tensors : List Tensor} {operation : CompactOperation}

theorem map_tensorsAt {α : Type} (property : Tensor → α) (value : Nat → α)
    (positions : List Nat)
    (agrees : ∀ position ∈ positions, ∃ tensor, tensors[position]? = some tensor ∧
      property tensor = value position) :
    (tensorsAt tensors positions).map property = positions.map value := by
  induction positions with
  | nil => rfl
  | cons position rest ih =>
      obtain ⟨tensor, found, same⟩ := agrees position (by simp)
      rw [tensorsAt, List.filterMap_cons_some found, List.map_cons, List.map_cons, same]
      exact congrArg _ (ih fun later member => agrees later (List.mem_cons_of_mem _ member))

theorem Sound.found (sound : operation.Sound tensors) {positions : List Nat}
    (operands : positions ⊆ operation.inputs ++ operation.outputs) :
    ∀ position ∈ positions, ∃ tensor, tensors[position]? = some tensor := by
  intro position member
  obtain ⟨tensor, found, _⟩ := sound.typed position (operands member)
  exact ⟨tensor, found⟩

section Step

variable {store : Store} (kernels : KernelSet) (position : Nat)

theorem task_fitting (valid : ∀ tensor ∈ tensors, tensor.validate = .ok ())
    {contents : Views (Element operation.elementType)}
    (lengths : contents.outputs.map List.length =
      (tensorsAt tensors operation.outputs).map Tensor.elementCount) :
    (operation.task tensors position contents).Fitting := by
  constructor
  case valid =>
    intro tensor member
    obtain ⟨index, _, found⟩ := List.mem_filterMap.mp member
    exact valid tensor (List.mem_of_getElem? found)
  case lengths => exact lengths

theorem length_views_outputs (fits : store.Fits tensors) (sound : operation.Sound tensors) :
    (store.views operation).outputs.map List.length =
      (tensorsAt tensors operation.outputs).map Tensor.elementCount := by
  refine List.map_map.trans (map_tensorsAt Tensor.elementCount _ operation.outputs ?_).symm
  intro index member
  obtain ⟨tensor, found, sameType⟩ := sound.typed index (List.mem_append_right _ member)
  refine ⟨tensor, found, ?_⟩
  rw [← sameType]
  exact (fits.length_contents found).symm

def outcome (tensors : List Tensor) (store : Store) (operation : CompactOperation) :
    KernelOutcome operation.elementType :=
  kernels.execute operation.elementType (operation.task tensors position (store.views operation))

def stepped (tensors : List Tensor) (store : Store) (operation : CompactOperation) : Store :=
  store.withOutputs operation (outcome kernels position tensors store operation).outputs

variable {kernels}

theorem outcome_lengths (overwrites : kernels.Overwrites) (fits : store.Fits tensors)
    (sound : operation.Sound tensors) (valid : ∀ tensor ∈ tensors, tensor.validate = .ok ()) :
    (outcome kernels position tensors store operation).outputs.map List.length =
      operation.outputs.map fun index => (store.contents operation.elementType index).length :=
  (overwrites.keepsLengths _ (task_fitting position valid (length_views_outputs fits sound))).trans
    List.map_map

theorem stepped_sameLayout (overwrites : kernels.Overwrites) (fits : store.Fits tensors)
    (sound : operation.Sound tensors) (valid : ∀ tensor ∈ tensors, tensor.validate = .ok ()) :
    (stepped kernels position tensors store operation).SameLayout store :=
  fits.withOutputs_sameLayout sound (outcome_lengths position overwrites fits sound valid)

theorem contents_stepped (overwrites : kernels.Overwrites) (fits : store.Fits tensors)
    (sound : operation.Sound tensors) (valid : ∀ tensor ∈ tensors, tensor.validate = .ok ()) :
    operation.outputs.map
        ((stepped kernels position tensors store operation).contents operation.elementType) =
      (outcome kernels position tensors store operation).outputs :=
  fits.contents_withOutputs sound (outcome_lengths position overwrites fits sound valid)

theorem contents_stepped_of_not_mem (overwrites : kernels.Overwrites) (fits : store.Fits tensors)
    (sound : operation.Sound tensors) (valid : ∀ tensor ∈ tensors, tensor.validate = .ok ())
    {index : Nat} {tensor : Tensor} (found : tensors[index]? = some tensor)
    (untouched : index ∉ operation.outputs) :
    (stepped kernels position tensors store operation).contents tensor.elementType index =
      store.contents tensor.elementType index :=
  fits.contents_withOutputs_of_not_mem sound
    (outcome_lengths position overwrites fits sound valid) found untouched

end Step

end CompactOperation

namespace CompactGraph

open CompactOperation (outcome stepped)

variable {graph : CompactGraph} {operation : CompactOperation} {store : Store}
  {kernels : KernelSet} {position : Nat}

theorem descriptors_eq {positions : List Nat}
    (inside : ∀ position ∈ positions, ∃ tensor, graph.tensors[position]? = some tensor) :
    graph.descriptors positions = .ok (tensorsAt graph.tensors positions) := by
  induction positions with
  | nil => rfl
  | cons position rest ih =>
      obtain ⟨tensor, found⟩ := inside position (by simp)
      have others := ih fun later member => inside later (List.mem_cons_of_mem _ member)
      simp only [descriptors, found, others, bind, Except.bind, pure, Except.pure]
      rw [tensorsAt, tensorsAt, List.filterMap_cons_some found]

theorem call_eq (fits : store.Fits graph.tensors) (sound : operation.Sound graph.tensors)
    (valid : ∀ tensor ∈ graph.tensors, tensor.validate = .ok ()) :
    graph.call store position operation =
      .ok (operation.task graph.tensors position (store.views operation)) := by
  have inputs := descriptors_eq (sound.found (List.subset_append_left _ _))
  have outputs := descriptors_eq (sound.found (List.subset_append_right _ _))
  have operands := fits.operands_eq sound fun tensor member =>
    Tensor.elementCount_pos (valid tensor member)
  simp only [call, inputs, outputs, operands, bind, Except.bind, pure, Except.pure]
  rfl

section Run

variable (rest : List CompactOperation)

theorem runFrom_cons_of_finished (fits : store.Fits graph.tensors)
    (sound : operation.Sound graph.tensors)
    (valid : ∀ tensor ∈ graph.tensors, tensor.validate = .ok ())
    (finished : (outcome kernels position graph.tensors store operation).error = none) :
    let continued := graph.runFrom kernels (position + 1) rest
      (stepped kernels position graph.tensors store operation)
    (graph.runFrom kernels position (operation :: rest) store).error = continued.error ∧
      (graph.runFrom kernels position (operation :: rest) store).store = continued.store := by
  rw [outcome] at finished
  simp only [runFrom, call_eq fits sound valid, finished]
  exact ⟨rfl, rfl⟩

theorem runFrom_cons_of_stopped (fits : store.Fits graph.tensors)
    (sound : operation.Sound graph.tensors)
    (valid : ∀ tensor ∈ graph.tensors, tensor.validate = .ok ()) {error : ExecutionError}
    (stopped : (outcome kernels position graph.tensors store operation).error = some error) :
    (graph.runFrom kernels position (operation :: rest) store).error = some error ∧
      (graph.runFrom kernels position (operation :: rest) store).store =
        stepped kernels position graph.tensors store operation := by
  rw [outcome] at stopped
  simp only [runFrom, call_eq fits sound valid, stopped, true_and]
  rfl

end Run

end CompactGraph

end TensorGraph
