import TensorGraph.Kernel.Progress

/-! Kernels that compute each element from the elements at the same position, and reductions. -/

namespace TensorGraph.Kernel

variable {α : Type}

/-- Replaces each element by its combination with the one at the same position of an operand, up
to the first combination that is at fault. -/
def combine (function : α → α → Except KernelFault α) : List α → List α → Progress α
  | element :: elements, operand :: operands =>
      match function element operand with
      | .error fault => .stopped (element :: elements) fault
      | .ok value =>
          let rest := combine function elements operands
          ⟨value :: rest.contents, rest.fault⟩
  | elements, _ => .finished elements

def combineAll (function : α → α → Except KernelFault α) :
    Nat → List (List α) → List α → Progress α
  | _, [], output => .finished output
  | position, operand :: operands, output =>
      if operand.length = output.length then
        (combine function output operand).andThen
          (combineAll function (position + 1) operands)
      else
        .stopped output (.operands (.inputLength position operand.length output.length))

def fold (function : α → α → Except KernelFault α) (operands : List (List α))
    (output : List α) : Progress α :=
  match operandOfLength operands 0 output.length with
  | .error fault => .stopped output fault
  | .ok first => combineAll function 1 (operands.drop 1) first

def mapOperand (function : α → Except KernelFault α) (operands : List (List α))
    (output : List α) : Progress α :=
  match operandOfLength operands 0 output.length with
  | .error fault => .stopped output fault
  | .ok operand => combine (fun _ element => function element) output operand

def copy (operands : List (List α)) (output : List α) : Progress α :=
  .ofExcept output (operandOfLength operands 0 output.length)

def requireScalar (scalar : Option α) : Except KernelFault α :=
  match scalar with
  | some value => .ok value
  | none => .error (.computation .missingScalar)

def fill (scalar : Option α) (output : List α) : Progress α :=
  .ofExcept output do
    let value ← requireScalar scalar
    return output.map fun _ => value

def withScalar (function : α → α → Except KernelFault α) (scalar : Option α)
    (operands : List (List α)) (output : List α) : Progress α :=
  match requireScalar scalar with
  | .error fault => .stopped output fault
  | .ok value => mapOperand (fun element => function element value) operands output

def axpy (arithmetic : Arithmetic α) (scalar : Option α) (operands : List (List α))
    (output : List α) : Progress α :=
  .ofExcept output do
    let factor ← requireScalar scalar
    let left ← operandOfLength operands 0 output.length
    let right ← operandOfLength operands 1 output.length
    return List.zipWith
      (fun element addend => arithmetic.add (arithmetic.mul factor element) addend) left right

def sum (arithmetic : Arithmetic α) (elements : List α) : α :=
  elements.foldl arithmetic.add arithmetic.zero

def reduce (reduction : List α → Except KernelFault α) (operands : List (List α))
    (output : List α) : Progress α :=
  .ofExcept output do
    if output.length = 1 then
      let operand ← operandAt operands 0
      let value ← reduction operand
      return [value]
    else
      throw (.operands (.reductionLength output.length))

def mean (arithmetic : Arithmetic α) (elements : List α) : Except KernelFault α :=
  match arithmetic.divide? (sum arithmetic elements) (arithmetic.ofCount elements.length) with
  | some quotient => .ok quotient
  | none => .error (.computation .zeroMeanCount)

def divide (arithmetic : Arithmetic α) (left right : α) : Except KernelFault α :=
  match arithmetic.divide? left right with
  | some quotient => .ok quotient
  | none => .error (.computation .divisionByZero)

def apply (arithmetic : Arithmetic α) (function : UnaryFunction) (element : α) :
    Except KernelFault α :=
  match arithmetic.unary? function element with
  | some value => .ok value
  | none => .error .unsupported

end TensorGraph.Kernel
