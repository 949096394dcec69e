import TensorGraph.Proofs.KernelCorrectness

/-!
How a call of the standard kernels ends. It depends on what the kernel makes of the first output, and
on whether the further outputs can hold a copy of that.
-/

namespace TensorGraph

namespace Kernel

variable {α : Type}

theorem copyToOthers_eq_none_iff {first : Tensor} {contents : List α} {tensors : List Tensor}
    {others : List (List α)} (counted : others.length = tensors.length) :
    (copyToOthers first contents tensors others).2 = none ↔
      ∀ tensor ∈ tensors, tensor.shape = first.shape ∧ tensor.layout = first.layout := by
  refine ⟨fun finished => (copyToOthers_finished counted finished).2, fun alike => ?_⟩
  induction tensors generalizing others with
  | nil => rfl
  | cons tensor tensors ih =>
      obtain ⟨other, others, rfl⟩ := List.exists_cons_of_length_eq_add_one counted
      obtain ⟨here, later⟩ := List.forall_mem_cons.mp alike
      rw [copyToOthers, if_pos here]
      exact ih (Nat.succ.inj counted) later

end Kernel

namespace KernelCall

variable {elementType : ElementType}

structure WritesFirst (call : KernelCall elementType) (first : Tensor)
    (output : List (Element elementType)) : Prop where
  tensor : call.outputs.head? = some first
  contents : call.contents.outputs.head? = some output
  counted : call.contents.outputs.length = call.outputs.length

def Mirrored (call : KernelCall elementType) : Prop :=
  ∀ first, call.outputs.head? = some first →
    ∀ tensor ∈ call.outputs, tensor.shape = first.shape ∧ tensor.layout = first.layout

/-- What the standard kernels make of the first output. -/
def course (call : KernelCall elementType) (arithmetic : Arithmetic (Element elementType))
    (output : List (Element elementType)) : Progress (Element elementType) :=
  Kernel.primary arithmetic (call.parameters.scalar? elementType) call.kind call.inputs
    call.outputs call.contents.inputs output

variable {call : KernelCall elementType} {arithmetic : Arithmetic (Element elementType)}
  {first : Tensor} {output : List (Element elementType)}

theorem WritesFirst.exists_further (writes : call.WritesFirst first output) :
    ∃ further others, call.outputs = first :: further ∧ call.contents.outputs = output :: others ∧
      others.length = further.length := by
  obtain ⟨further, outputs⟩ := List.head?_eq_some_iff.mp writes.tensor
  obtain ⟨others, contents⟩ := List.head?_eq_some_iff.mp writes.contents
  have counted := writes.counted
  rw [outputs, contents] at counted
  exact ⟨further, others, outputs, contents, Nat.succ.inj counted⟩

theorem mirrored_iff {further : List Tensor} (outputs : call.outputs = first :: further) :
    call.Mirrored ↔
      ∀ tensor ∈ further, tensor.shape = first.shape ∧ tensor.layout = first.layout := by
  simp [Mirrored, outputs]

theorem error_eq_none_iff (known : elementType.arithmetic = some arithmetic)
    (writes : call.WritesFirst first output) :
    (KernelSet.standardExecute elementType call).error = none ↔
      (call.course arithmetic output).fault = none ∧ call.Mirrored := by
  obtain ⟨further, others, outputs, contents, counted⟩ := writes.exists_further
  rw [mirrored_iff outputs, course]
  simp only [KernelSet.standardExecute, known, Kernel.compute, outputs, contents,
    Option.map_eq_none_iff]
  split
  · rename_i fault stopped
    simp [stopped]
  · rename_i finished
    rw [Kernel.copyToOthers_eq_none_iff counted]
    simp [finished]

theorem error_of_fault (known : elementType.arithmetic = some arithmetic)
    (writes : call.WritesFirst first output) {fault : KernelFault}
    (stopped : (call.course arithmetic output).fault = some fault) :
    (KernelSet.standardExecute elementType call).error = some (call.error fault) := by
  obtain ⟨further, others, outputs, contents, _⟩ := writes.exists_further
  rw [course, outputs] at stopped
  simp only [KernelSet.standardExecute, known, Kernel.compute, outputs, contents, stopped,
    Option.map_some]

theorem outputs_of_finished (known : elementType.arithmetic = some arithmetic)
    (writes : call.WritesFirst first output)
    (finished : (KernelSet.standardExecute elementType call).error = none) :
    (KernelSet.standardExecute elementType call).outputs =
      call.outputs.map fun _ => (call.course arithmetic output).contents := by
  obtain ⟨computed, mirrored⟩ := (error_eq_none_iff known writes).mp finished
  obtain ⟨further, others, outputs, contents, counted⟩ := writes.exists_further
  rw [mirrored_iff outputs, ← Kernel.copyToOthers_eq_none_iff counted] at mirrored
  obtain ⟨copies, _⟩ := Kernel.copyToOthers_finished counted mirrored
  rw [course] at computed
  rw [outputs] at computed
  simp only [KernelSet.standardExecute, known, Kernel.compute, course, outputs, contents, computed]
  rw [copies, List.map_cons]

def ofArrays (elementType : ElementType) (kind : OperationKind) (parameters : Parameters)
    (inputs outputs : List (List (Element elementType))) : KernelCall elementType where
  position := 0
  operation := 1
  kind
  inputs := inputs.map array
  outputs := outputs.map array
  parameters
  contents := ⟨inputs, outputs⟩
where
  array (contents : List (Element elementType)) : Tensor :=
    ⟨0, elementType, ⟨[UInt64.ofNat contents.length]⟩, .host, .rowMajor⟩

end KernelCall

end TensorGraph
