import TensorGraph.Guarded
import TensorGraph.Kernel.Standard

/-!
The standard kernels with every access guarded: to the descriptors and the operands of a call, to
single elements, and between contents that are copied.
-/

namespace TensorGraph

namespace Guarded

variable {α : Type}

def place? (tensor : Tensor) (position : Nat × Nat) : Option Nat :=
  match tensor.layout with
  | .rowMajor =>
      tensor.shape.dimensions[1]?.map fun columns => position.1 * columns.toNat + position.2
  | .colMajor =>
      tensor.shape.dimensions[0]?.map fun rows => position.2 * rows.toNat + position.1

def entryAt? (tensor : Tensor) (contents : List α) (position : Nat × Nat) : Option α := do
  let place ← place? tensor position
  contents[place]?

def matrixCombine (function : α → α → α) (inputs outputs : List Tensor)
    (operands : List (List α)) (output : List α) : Guarded KernelFault (List α) := do
  let target ← access outputs[0]?
  let form ← plain target.matrixForm
  let leftTensor ← access inputs[0]?
  let rightTensor ← access inputs[1]?
  let _ ← plain (Kernel.sameFormAs form target leftTensor)
  let _ ← plain (Kernel.sameFormAs form target rightTensor)
  let left ← plain (operandAt operands 0)
  let right ← plain (operandAt operands 1)
  access (writeEach? (place? target) (fun position => do
      let leftElement ← entryAt? leftTensor left position
      let rightElement ← entryAt? rightTensor right position
      return function leftElement rightElement) (positions form.rows form.columns) output)

def matrixTranspose (inputs outputs : List Tensor) (operands : List (List α))
    (output : List α) : Guarded KernelFault (List α) := do
  let source ← access inputs[0]?
  let sourceForm ← plain source.matrixForm
  let target ← access outputs[0]?
  let form ← plain target.matrixForm
  if form.rows = sourceForm.columns ∧ form.columns = sourceForm.rows then
    let operand ← plain (operandAt operands 0)
    access (writeEach? (fun position => place? target position.swap) (entryAt? source operand)
      (positions sourceForm.rows sourceForm.columns) output)
  else
    throw (.operands (.transposeMismatch source.shape target.shape))

def sumOfProducts? (arithmetic : Arithmetic α) (count : Nat) (left right : Nat → Option α) :
    Option α :=
  (List.range count).foldlM (fun total position => do
    let leftElement ← left position
    let rightElement ← right position
    return arithmetic.add total (arithmetic.mul leftElement rightElement)) arithmetic.zero

def matrixMul (arithmetic : Arithmetic α) (inputs outputs : List Tensor)
    (operands : List (List α)) (output : List α) : Guarded KernelFault (List α) := do
  let leftTensor ← access inputs[0]?
  let rightTensor ← access inputs[1]?
  let target ← access outputs[0]?
  let mismatch :=
    KernelFault.operands (.productMismatch leftTensor.shape rightTensor.shape target.shape)
  let leftForm ← plain leftTensor.matrixForm
  let rightForm ← plain rightTensor.matrixForm
  if leftForm.columns = rightForm.rows then
    let form ← plain target.matrixForm
    if form.rows = leftForm.rows ∧ form.columns = rightForm.columns then
      let left ← plain (operandAt operands 0)
      let right ← plain (operandAt operands 1)
      access (writeEach? (place? target) (fun position =>
          sumOfProducts? arithmetic leftForm.columns
            (fun inner => entryAt? leftTensor left (position.1, inner))
            (fun inner => entryAt? rightTensor right (inner, position.2)))
        (positions leftForm.rows rightForm.columns) output)
    else
      throw mismatch
  else
    throw mismatch

def matrixArrayMul (arithmetic : Arithmetic α) (inputs : List Tensor)
    (operands : List (List α)) (output : List α) : Guarded KernelFault (List α) := do
  let matrixTensor ← access inputs[0]?
  let form ← plain matrixTensor.matrixForm
  let matrix ← plain (operandAt operands 0)
  let array ← plain (operandOfLength operands 1 form.columns)
  if output.length = form.rows then
    access ((List.range output.length).mapM fun row =>
      sumOfProducts? arithmetic form.columns
        (fun column => entryAt? matrixTensor matrix (row, column)) (fun column => array[column]?))
  else
    throw (.operands (.arrayProductMismatch matrixTensor.shape form.columns output.length))

def matrixArrayAdd (arithmetic : Arithmetic α) (inputs outputs : List Tensor)
    (operands : List (List α)) (output : List α) : Guarded KernelFault (List α) := do
  let matrixTensor ← access inputs[0]?
  let target ← access outputs[0]?
  let matrixForm ← plain matrixTensor.matrixForm
  let form ← plain target.matrixForm
  if form.sameDimensions matrixForm then
    let matrix ← plain (operandAt operands 0)
    let array ← plain (operandOfLength operands 1 matrixForm.columns)
    access (writeEach? (place? target) (fun position => do
        let element ← entryAt? matrixTensor matrix position
        let addend ← array[position.2]?
        return arithmetic.add element addend)
      (positions matrixForm.rows matrixForm.columns) output)
  else
    throw (.operands (.sumMismatch matrixTensor.shape target.shape))

def progress (before : List α) (guarded : Guarded KernelFault (List α)) : Option (Progress α) :=
  (ExceptT.run guarded).map (Progress.ofExcept before)

def fold (function : α → α → Except KernelFault α) (operands : List (List α))
    (output : List α) : Option (Progress α) :=
  match operandOfLength operands 0 output.length with
  | .error fault => some (.stopped output fault)
  | .ok first =>
      (copyOver? output first).map (Kernel.combineAll function 1 (operands.drop 1))

def copy (operands : List (List α)) (output : List α) : Option (Progress α) :=
  progress output do
    let operand ← plain (operandOfLength operands 0 output.length)
    access (copyOver? output operand)

def reduce (reduction : List α → Except KernelFault α) (operands : List (List α))
    (output : List α) : Option (Progress α) :=
  progress output do
    if output.length = 1 then
      let operand ← plain (operandAt operands 0)
      let value ← plain (reduction operand)
      access (put? output 0 value)
    else
      throw (.operands (.reductionLength output.length))

/-- The kernels other than these walk along their operands and their output together. -/
def primary (arithmetic : Arithmetic α) (scalar : Option α) (kind : OperationKind)
    (inputs outputs : List Tensor) (operands : List (List α)) (output : List α) :
    Option (Progress α) :=
  match kind with
  | .elementAdd => fold (Kernel.faultless arithmetic.add) operands output
  | .elementSub => fold (Kernel.faultless arithmetic.sub) operands output
  | .elementMul => fold (Kernel.faultless arithmetic.mul) operands output
  | .elementDiv => fold (Kernel.divide arithmetic) operands output
  | .copy => copy operands output
  | .arraySum => reduce (fun elements => .ok (Kernel.sum arithmetic elements)) operands output
  | .arrayMean => reduce (Kernel.mean arithmetic) operands output
  | .matrixAdd => progress output (matrixCombine arithmetic.add inputs outputs operands output)
  | .matrixSub => progress output (matrixCombine arithmetic.sub inputs outputs operands output)
  | .matrixTranspose => progress output (matrixTranspose inputs outputs operands output)
  | .matrixMul => progress output (matrixMul arithmetic inputs outputs operands output)
  | .matrixArrayMul => progress output (matrixArrayMul arithmetic inputs operands output)
  | .matrixArrayAdd => progress output (matrixArrayAdd arithmetic inputs outputs operands output)
  | other => some (Kernel.primary arithmetic scalar other inputs outputs operands output)

def copyToOthers (descriptors : List Tensor) (first : Tensor) (contents : List α) :
    Nat → List (List α) → Option (List (List α) × Option KernelFault)
  | _, [] => some ([], none)
  | position, other :: others => do
      let tensor ← descriptors[position]?
      if tensor.shape = first.shape ∧ tensor.layout = first.layout then
        let copied ← copyOver? other contents
        let rest ← copyToOthers descriptors first contents (position + 1) others
        return (copied :: rest.1, rest.2)
      else
        return (other :: others,
          some (.operands (.outputMismatch tensor.id tensor.shape first.id first.shape)))

def compute (arithmetic : Arithmetic α) (scalar : Option α) (kind : OperationKind)
    (inputs outputs : List Tensor) (contents : Views α) :
    Option (List (List α) × Option KernelFault) :=
  match contents.outputs with
  | [] => some ([], some (.computation .noOutput))
  | output :: further => do
      let computed ← primary arithmetic scalar kind inputs outputs contents.inputs output
      match computed.fault with
      | some fault => return (computed.contents :: further, some fault)
      | none =>
          let first ← outputs[0]?
          let copied ← copyToOthers outputs first computed.contents 1 further
          return (computed.contents :: copied.1, copied.2)

def execute {elementType : ElementType} (call : KernelCall elementType) :
    Option (KernelOutcome elementType) :=
  match elementType.arithmetic with
  | none => some ⟨call.contents.outputs, some (call.error .unsupported)⟩
  | some arithmetic => do
      let computed ← compute arithmetic (call.parameters.scalar? elementType) call.kind
        call.inputs call.outputs call.contents
      return ⟨computed.1, computed.2.map call.error⟩

end Guarded

end TensorGraph
