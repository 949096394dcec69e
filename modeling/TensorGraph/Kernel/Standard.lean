import TensorGraph.Kernel.Matrix

/-!
The standard kernels. Integers wrap around and have no quotient by zero; floating-point numbers
follow IEEE 754. Every further output of an operation receives a copy of the first.
-/

namespace TensorGraph

namespace Kernel

variable {α : Type}

def faultless (function : α → α → α) (left right : α) : Except KernelFault α :=
  .ok (function left right)

def primary (arithmetic : Arithmetic α) (scalar : Option α) (kind : OperationKind)
    (inputs outputs : List Tensor) (operands : List (List α)) (output : List α) : Progress α :=
  match kind with
  | .elementAdd => fold (faultless arithmetic.add) operands output
  | .elementSub => fold (faultless arithmetic.sub) operands output
  | .elementMul => fold (faultless arithmetic.mul) operands output
  | .elementDiv => fold (divide arithmetic) operands output
  | .fill => fill scalar output
  | .copy => copy operands output
  | .exp => mapOperand (apply arithmetic .exp) operands output
  | .sin => mapOperand (apply arithmetic .sin) operands output
  | .cos => mapOperand (apply arithmetic .cos) operands output
  | .abs => mapOperand (apply arithmetic .abs) operands output
  | .scalarAdd => withScalar (faultless arithmetic.add) scalar operands output
  | .scalarSub => withScalar (faultless arithmetic.sub) scalar operands output
  | .scalarMul => withScalar (faultless arithmetic.mul) scalar operands output
  | .scalarDiv => withScalar (divide arithmetic) scalar operands output
  | .arrayAxpy => axpy arithmetic scalar operands output
  | .arraySum => reduce (fun elements => .ok (sum arithmetic elements)) operands output
  | .arrayMean => reduce (mean arithmetic) operands output
  | .matrixAdd =>
      .ofExcept output (matrixCombine arithmetic arithmetic.add inputs outputs operands output)
  | .matrixSub =>
      .ofExcept output (matrixCombine arithmetic arithmetic.sub inputs outputs operands output)
  | .matrixTranspose => .ofExcept output (matrixTranspose arithmetic inputs outputs operands output)
  | .matrixMul => .ofExcept output (matrixMul arithmetic inputs outputs operands output)
  | .matrixArrayMul => .ofExcept output (matrixArrayMul arithmetic inputs operands output)
  | .matrixArrayAdd => .ofExcept output (matrixArrayAdd arithmetic inputs outputs operands output)
  | .elementRandom | .matrixInverse | .group _ | .zero | .identity => .stopped output .unsupported

/-- Copies the first output into the further ones, up to the first that differs in shape or
layout. -/
def copyToOthers (first : Tensor) (contents : List α) :
    List Tensor → List (List α) → List (List α) × Option KernelFault
  | tensor :: tensors, other :: others =>
      if tensor.shape = first.shape ∧ tensor.layout = first.layout then
        let rest := copyToOthers first contents tensors others
        (contents :: rest.1, rest.2)
      else
        (other :: others,
          some (.operands (.outputMismatch tensor.id tensor.shape first.id first.shape)))
  | _, others => (others, none)

def compute (arithmetic : Arithmetic α) (scalar : Option α) (kind : OperationKind)
    (inputs outputs : List Tensor) (contents : Views α) :
    List (List α) × Option KernelFault :=
  match outputs, contents.outputs with
  | first :: furtherTensors, output :: further =>
      let computed := primary arithmetic scalar kind inputs outputs contents.inputs output
      match computed.fault with
      | some fault => (computed.contents :: further, some fault)
      | none =>
          let copied := copyToOthers first computed.contents furtherTensors further
          (computed.contents :: copied.1, copied.2)
  | _, unwritten => (unwritten, some (.computation .noOutput))

end Kernel

namespace KernelSet

def standardSupports (kind : OperationKind) (elementType : ElementType) : Bool :=
  elementType.hasPool &&
    match kind with
    | .exp | .sin | .cos | .abs => elementType.isFloat
    | .elementRandom | .matrixInverse | .group _ | .zero | .identity => false
    | _ => true

def standardExecute (elementType : ElementType) (call : KernelCall elementType) :
    KernelOutcome elementType :=
  match elementType.arithmetic with
  | none => ⟨call.contents.outputs, some (call.error .unsupported)⟩
  | some arithmetic =>
      let scalar := call.parameters.scalar? elementType
      let computed :=
        Kernel.compute arithmetic scalar call.kind call.inputs call.outputs call.contents
      ⟨computed.1, computed.2.map call.error⟩

def standard : KernelSet where
  name := "ReferenceKernels"
  supports := standardSupports
  execute := standardExecute

end KernelSet

end TensorGraph
