import TensorGraph.Kernel.Standard
import TensorGraph.Proofs.Overwriting

/-! The standard kernels overwrite all outputs of an operation. -/

namespace TensorGraph

namespace Kernel

variable {α : Type}

theorem elementCount_of_matrixForm {tensor : Tensor} (valid : tensor.validate = .ok ())
    {form : MatrixForm} (isMatrix : tensor.matrixForm = .ok form) :
    tensor.elementCount = form.rows * form.columns := by
  rw [Tensor.matrixForm] at isMatrix
  split at isMatrix
  · rename_i rows columns shape
    cases isMatrix
    exact Tensor.elementCount_of_matrix valid shape
  · cases isMatrix

theorem firstOutputCounts {first : Tensor} (valid : first.validate = .ok ())
    (further : List Tensor) : FirstOutputCounts first.elementCount (first :: further) := by
  intro tensor form found formFound
  cases found
  exact (elementCount_of_matrixForm valid formFound).symm

theorem primary_overwrites {length : Nat} {outputs : List Tensor} (arithmetic : Arithmetic α)
    (scalar : Option α) (kind : OperationKind) (inputs : List Tensor) (operands : List (List α))
    (counts : FirstOutputCounts length outputs) :
    Overwrites length (primary arithmetic scalar kind inputs outputs operands) := by
  cases kind with
  | elementAdd | elementSub | elementMul | elementDiv => exact fold_overwrites operands
  | fill => exact fill_overwrites scalar
  | copy => exact copy_overwrites operands
  | exp | sin | cos | abs => exact mapOperand_overwrites _ operands
  | scalarAdd | scalarSub | scalarMul | scalarDiv => exact withScalar_overwrites scalar operands
  | arrayAxpy => exact axpy_overwrites arithmetic scalar operands
  | arraySum | arrayMean => exact reduce_overwrites _ operands
  | matrixAdd | matrixSub =>
      exact (matrixCombine_replaces arithmetic operands _ counts).overwrites
  | matrixTranspose => exact (matrixTranspose_replaces arithmetic operands counts).overwrites
  | matrixMul => exact (matrixMul_replaces arithmetic operands counts).overwrites
  | matrixArrayMul => exact (matrixArrayMul_replaces arithmetic operands).overwrites
  | matrixArrayAdd => exact (matrixArrayAdd_replaces arithmetic operands counts).overwrites
  | elementRandom | matrixInverse | group | zero | identity => exact Overwrites.stopped .unsupported

structure OverwritesAll (lengths : List Nat)
    (task : List (List α) → List (List α) × Option KernelFault) : Prop where
  keepsLengths : ∀ before, before.map List.length = lengths →
    (task before).1.map List.length = lengths
  sameFault : ∀ before other, before.map List.length = lengths →
    other.map List.length = lengths → (task before).2 = (task other).2
  sameContents : ∀ before other, before.map List.length = lengths →
    other.map List.length = lengths → (task before).2 = none → (task before).1 = (task other).1

theorem OverwritesAll.nil {task : List (List α) → List (List α) × Option KernelFault}
    (empty : (task []).1 = []) : OverwritesAll [] task where
  keepsLengths before beforeLengths := by
    rw [List.map_eq_nil_iff.mp beforeLengths, empty]
    rfl
  sameFault before other beforeLengths otherLengths := by
    rw [List.map_eq_nil_iff.mp beforeLengths, List.map_eq_nil_iff.mp otherLengths]
  sameContents before other beforeLengths otherLengths _ := by
    rw [List.map_eq_nil_iff.mp beforeLengths, List.map_eq_nil_iff.mp otherLengths]

theorem OverwritesAll.cons {length : Nat} {lengths : List Nat}
    {task : List (List α) → List (List α) × Option KernelFault}
    (keepsLengths : ∀ here before, here.length = length → before.map List.length = lengths →
      (task (here :: before)).1.map List.length = length :: lengths)
    (same : ∀ here there before other, here.length = length → there.length = length →
      before.map List.length = lengths → other.map List.length = lengths →
      (task (here :: before)).2 = (task (there :: other)).2 ∧
        ((task (here :: before)).2 = none →
          (task (here :: before)).1 = (task (there :: other)).1)) :
    OverwritesAll (length :: lengths) task := by
  constructor
  case keepsLengths =>
    intro before beforeLengths
    obtain ⟨here, before, rfl, hereLength, beforeLengths⟩ := List.map_eq_cons_iff.mp beforeLengths
    exact keepsLengths here before hereLength beforeLengths
  case sameFault =>
    intro before other beforeLengths otherLengths
    obtain ⟨here, before, rfl, hereLength, beforeLengths⟩ := List.map_eq_cons_iff.mp beforeLengths
    obtain ⟨there, other, rfl, thereLength, otherLengths⟩ := List.map_eq_cons_iff.mp otherLengths
    exact (same here there before other hereLength thereLength beforeLengths otherLengths).1
  case sameContents =>
    intro before other beforeLengths otherLengths
    obtain ⟨here, before, rfl, hereLength, beforeLengths⟩ := List.map_eq_cons_iff.mp beforeLengths
    obtain ⟨there, other, rfl, thereLength, otherLengths⟩ := List.map_eq_cons_iff.mp otherLengths
    exact (same here there before other hereLength thereLength beforeLengths otherLengths).2

theorem copyToOthers_overwrites {first : Tensor} {contents : List α}
    (fitting : contents.length = first.elementCount) (tensors : List Tensor) :
    OverwritesAll (tensors.map Tensor.elementCount) (copyToOthers first contents tensors) := by
  induction tensors with
  | nil => exact .nil rfl
  | cons tensor tensors ih =>
      by_cases alike : tensor.shape = first.shape ∧ tensor.layout = first.layout
      · have sameCount : contents.length = tensor.elementCount := by
          rw [fitting, Tensor.elementCount, Tensor.elementCount, alike.1]
        refine .cons ?_ ?_
        · intro _ before _ beforeLengths
          simp only [copyToOthers, alike, and_self, if_true, List.map_cons]
          rw [ih.keepsLengths before beforeLengths, sameCount]
        · intro _ _ before other _ _ beforeLengths otherLengths
          simp only [copyToOthers, alike, and_self, if_true]
          refine ⟨ih.sameFault before other beforeLengths otherLengths, fun finished => ?_⟩
          rw [ih.sameContents before other beforeLengths otherLengths finished]
      · refine .cons ?_ ?_
        · intro here before hereLength beforeLengths
          simp only [copyToOthers, alike, if_false, List.map_cons, hereLength, beforeLengths]
        · intro here there before other _ _ _ _
          simp only [copyToOthers, alike, if_false, true_and]
          intro finished
          cases finished

theorem compute_overwrites (arithmetic : Arithmetic α) (scalar : Option α) (kind : OperationKind)
    (inputs : List Tensor) {outputs : List Tensor} (operands : List (List α))
    (valid : ∀ tensor ∈ outputs, tensor.validate = .ok ()) :
    OverwritesAll (outputs.map Tensor.elementCount)
      fun before => compute arithmetic scalar kind inputs outputs ⟨operands, before⟩ := by
  cases outputs with
  | nil => exact .nil rfl
  | cons first further =>
      have counts := firstOutputCounts (valid first (by simp)) further
      have overwrites := primary_overwrites arithmetic scalar kind inputs operands counts
      refine .cons ?_ ?_
      · intro output before outputLength beforeLengths
        have fitting := overwrites.keepsLength output outputLength
        simp only [compute]
        split
        · simp only [List.map_cons, fitting, beforeLengths]
        · simp only [List.map_cons, fitting,
            (copyToOthers_overwrites fitting further).keepsLengths before beforeLengths]
      · intro output otherOutput before other outputLength otherOutputLength beforeLengths
          otherLengths
        have sameFault := overwrites.sameFault output otherOutput outputLength otherOutputLength
        have sameContents :=
          overwrites.sameContents output otherOutput outputLength otherOutputLength
        have copies := copyToOthers_overwrites (overwrites.keepsLength output outputLength) further
        simp only [compute, ← sameFault]
        split
        · exact ⟨rfl, fun finished => by cases finished⟩
        · rename_i finished
          -- The further outputs get what the first one holds, and that is the same by now.
          rw [← sameContents finished]
          refine ⟨copies.sameFault before other beforeLengths otherLengths, fun copied => ?_⟩
          rw [copies.sameContents before other beforeLengths otherLengths copied]

end Kernel

structure KernelCall.Fitting {elementType : ElementType} (call : KernelCall elementType) : Prop where
  valid : ∀ tensor ∈ call.outputs, tensor.validate = .ok ()
  lengths : call.contents.outputs.map List.length = call.outputs.map Tensor.elementCount

/-- Calls that ask for the same: they may differ in their names, and in what the outputs held
before. -/
structure KernelCall.SameTask {elementType : ElementType} (left right : KernelCall elementType) :
    Prop where
  kind : left.kind = right.kind
  inputs : left.inputs = right.inputs
  outputs : left.outputs = right.outputs
  parameters : left.parameters = right.parameters
  operands : left.contents.inputs = right.contents.inputs

namespace KernelSet

/-- Kernels whose course and results do not depend on what the outputs held before. -/
structure Overwrites (kernels : KernelSet) : Prop where
  keepsLengths : ∀ {elementType : ElementType} (call : KernelCall elementType), call.Fitting →
    (kernels.execute elementType call).outputs.map List.length =
      call.contents.outputs.map List.length
  sameCourse : ∀ {elementType : ElementType} (left right : KernelCall elementType), left.Fitting →
    right.Fitting → left.SameTask right → (kernels.execute elementType left).error = none →
    (kernels.execute elementType right).error = none ∧
      (kernels.execute elementType left).outputs = (kernels.execute elementType right).outputs

theorem standard_overwrites : standard.Overwrites := by
  constructor
  case keepsLengths =>
    intro elementType call fitting
    simp only [standard, standardExecute]
    cases elementType.arithmetic with
    | none => rfl
    | some arithmetic =>
        have overwrites := Kernel.compute_overwrites arithmetic
          (call.parameters.scalar? elementType) call.kind call.inputs call.contents.inputs
          fitting.valid
        exact (overwrites.keepsLengths call.contents.outputs fitting.lengths).trans
          fitting.lengths.symm
  case sameCourse =>
    rintro elementType left ⟨position, operation, kind, inputs, outputs, parameters, operands, before⟩
      fitting otherFitting ⟨sameKind, sameInputs, sameOutputs, sameParameters, sameOperands⟩
    simp only at sameKind sameInputs sameOutputs sameParameters sameOperands
    subst sameKind sameInputs sameOutputs sameParameters sameOperands
    simp only [standard, standardExecute]
    cases elementType.arithmetic with
    | none =>
        intro finished
        cases finished
    | some arithmetic =>
        have overwrites := Kernel.compute_overwrites arithmetic
          (left.parameters.scalar? elementType) left.kind left.inputs left.contents.inputs
          fitting.valid
        intro finished
        rw [Option.map_eq_none_iff] at finished
        have sameFault := overwrites.sameFault left.contents.outputs before fitting.lengths
          otherFitting.lengths
        refine ⟨?_, overwrites.sameContents left.contents.outputs before fitting.lengths
          otherFitting.lengths finished⟩
        rw [Option.map_eq_none_iff, ← sameFault]
        exact finished

end KernelSet

end TensorGraph
