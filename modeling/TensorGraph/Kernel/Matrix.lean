import TensorGraph.Kernel.Elementwise

/-!
Kernels on matrices. Operands are read and outputs written entry by entry through the layout of each
tensor, so that no result depends on how a matrix is stored.
-/

namespace TensorGraph

structure MatrixForm where
  rows : Nat
  columns : Nat
  layout : Layout
  deriving DecidableEq, Repr

namespace MatrixForm

variable {α : Type}

def entry (form : MatrixForm) (absent : α) (contents : List α) (row column : Nat) : α :=
  contents[form.layout.offset form.rows form.columns row column]?.getD absent

def fill (form : MatrixForm) (value : Nat → Nat → α) (contents : List α) : List α :=
  contents.mapIdx fun position element =>
    if position < form.rows * form.columns then
      let place := form.layout.coordinates form.rows form.columns position
      value place.1 place.2
    else
      element

def sameDimensions (form other : MatrixForm) : Bool :=
  form.rows = other.rows && form.columns = other.columns

end MatrixForm

def Tensor.matrixForm (tensor : Tensor) : Except KernelFault MatrixForm :=
  match tensor.shape.dimensions with
  | [rows, columns] => .ok ⟨rows.toNat, columns.toNat, tensor.layout⟩
  | _ => .error (.operands (.notMatrix tensor.id tensor.shape))

namespace Kernel

variable {α : Type}

def inputAt (tensors : List Tensor) (position : Nat) : Except KernelFault Tensor :=
  match tensors[position]? with
  | some tensor => .ok tensor
  | none => .error (.computation (.missingInput position))

def firstOutput (tensors : List Tensor) : Except KernelFault Tensor :=
  match tensors with
  | tensor :: _ => .ok tensor
  | [] => .error (.computation .noOutput)

def sameFormAs (form : MatrixForm) (output operand : Tensor) : Except KernelFault MatrixForm := do
  let operandForm ← operand.matrixForm
  if operandForm.sameDimensions form then
    return operandForm
  else
    throw (.operands (.differentShapes operand.shape output.shape))

def matrixCombine (arithmetic : Arithmetic α) (function : α → α → α) (inputs outputs : List Tensor)
    (operands : List (List α)) (output : List α) : Except KernelFault (List α) := do
  let outputTensor ← firstOutput outputs
  let form ← outputTensor.matrixForm
  let leftForm ← sameFormAs form outputTensor (← inputAt inputs 0)
  let rightForm ← sameFormAs form outputTensor (← inputAt inputs 1)
  let left ← operandAt operands 0
  let right ← operandAt operands 1
  return form.fill (fun row column =>
    function (leftForm.entry arithmetic.zero left row column)
      (rightForm.entry arithmetic.zero right row column)) output

def matrixTranspose (arithmetic : Arithmetic α) (inputs outputs : List Tensor)
    (operands : List (List α)) (output : List α) : Except KernelFault (List α) := do
  let inputTensor ← inputAt inputs 0
  let outputTensor ← firstOutput outputs
  let inputForm ← inputTensor.matrixForm
  let form ← outputTensor.matrixForm
  if form.rows = inputForm.columns ∧ form.columns = inputForm.rows then
    let operand ← operandAt operands 0
    return form.fill (fun row column => inputForm.entry arithmetic.zero operand column row) output
  else
    throw (.operands (.transposeMismatch inputTensor.shape outputTensor.shape))

def sumOfProducts (arithmetic : Arithmetic α) (count : Nat) (left right : Nat → α) : α :=
  (List.range count).foldl
    (fun total position =>
      arithmetic.add total (arithmetic.mul (left position) (right position)))
    arithmetic.zero

def matrixMul (arithmetic : Arithmetic α) (inputs outputs : List Tensor)
    (operands : List (List α)) (output : List α) : Except KernelFault (List α) := do
  let leftTensor ← inputAt inputs 0
  let rightTensor ← inputAt inputs 1
  let outputTensor ← firstOutput outputs
  let mismatch :=
    KernelFault.operands
      (.productMismatch leftTensor.shape rightTensor.shape outputTensor.shape)
  let leftForm ← leftTensor.matrixForm
  let rightForm ← rightTensor.matrixForm
  if leftForm.columns = rightForm.rows then
    let form ← outputTensor.matrixForm
    if form.rows = leftForm.rows ∧ form.columns = rightForm.columns then
      let left ← operandAt operands 0
      let right ← operandAt operands 1
      return form.fill (fun row column =>
        sumOfProducts arithmetic leftForm.columns
          (fun position => leftForm.entry arithmetic.zero left row position)
          (fun position => rightForm.entry arithmetic.zero right position column)) output
    else
      throw mismatch
  else
    throw mismatch

def matrixArrayMul (arithmetic : Arithmetic α) (inputs : List Tensor)
    (operands : List (List α)) (output : List α) : Except KernelFault (List α) := do
  let matrixTensor ← inputAt inputs 0
  let form ← matrixTensor.matrixForm
  let matrix ← operandAt operands 0
  let array ← operandOfLength operands 1 form.columns
  if output.length = form.rows then
    return (List.range form.rows).map fun row =>
      sumOfProducts arithmetic form.columns
        (fun column => form.entry arithmetic.zero matrix row column)
        (fun column => array[column]?.getD arithmetic.zero)
  else
    throw (.operands (.arrayProductMismatch matrixTensor.shape form.columns output.length))

def matrixArrayAdd (arithmetic : Arithmetic α) (inputs outputs : List Tensor)
    (operands : List (List α)) (output : List α) : Except KernelFault (List α) := do
  let matrixTensor ← inputAt inputs 0
  let outputTensor ← firstOutput outputs
  let matrixForm ← matrixTensor.matrixForm
  let form ← outputTensor.matrixForm
  if form.sameDimensions matrixForm then
    let matrix ← operandAt operands 0
    let array ← operandOfLength operands 1 matrixForm.columns
    return form.fill (fun row column =>
      arithmetic.add (matrixForm.entry arithmetic.zero matrix row column)
        (array[column]?.getD arithmetic.zero)) output
  else
    throw (.operands (.sumMismatch matrixTensor.shape outputTensor.shape))

end Kernel

end TensorGraph
