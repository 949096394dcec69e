import TensorGraph.Error
import TensorGraph.Memory.Span
import TensorGraph.Tensor

/-! Causes of failure in laying out memory and running a graph, and their wording. -/

namespace TensorGraph

inductive OperandFault
  | inputLength (input length expected : Nat)
  | reductionLength (length : Nat)
  | differentShapes (operand output : Shape)
  | transposeMismatch (operand output : Shape)
  | productMismatch (left right output : Shape)
  | arrayProductMismatch (matrix : Shape) (columns length : Nat)
  | sumMismatch (matrix output : Shape)
  | notMatrix (tensor : TensorId) (shape : Shape)
  | outputMismatch (tensor : TensorId) (shape : Shape) (first : TensorId) (firstShape : Shape)
  deriving DecidableEq, Repr

def OperandFault.reason : OperandFault → String
  | .inputLength input length expected =>
      s!"input {input} has {length} elements, expected {expected}"
  | .reductionLength length => s!"reduction output has {length} elements"
  | .differentShapes operand output => s!"{operand.text} vs {output.text}"
  | .transposeMismatch operand output => s!"transpose of {operand.text} into {output.text}"
  | .productMismatch left right output => s!"{left.text} x {right.text} into {output.text}"
  | .arrayProductMismatch matrix columns length =>
      s!"{matrix.text} x [{columns}] into {length} elements"
  | .sumMismatch matrix output => s!"{matrix.text} into {output.text}"
  | .notMatrix tensor shape => s!"tensor {tensor} is not a matrix: {shape.text}"
  | .outputMismatch tensor shape first firstShape =>
      s!"output {tensor} {shape.text} does not mirror output {first} {firstShape.text}"

inductive ComputationFault
  | noOutput
  | missingInput (input : Nat)
  | missingScalar
  | divisionByZero
  | zeroMeanCount
  deriving DecidableEq, Repr

def ComputationFault.reason : ComputationFault → String
  | .noOutput => "operation has no output"
  | .missingInput input => s!"missing input {input}"
  | .missingScalar => "missing or mistyped scalar parameter"
  | .divisionByZero => "integer division by zero"
  | .zeroMeanCount => "mean count is zero in the element type"

inductive SplitFault
  | overlapping (first second : Span)
  | outsidePool (span : Span) (length : Nat)
  | outputIsOperand (output : Span)
  | inputIsOutput (input : Span)
  deriving DecidableEq, Repr

def SplitFault.reason : SplitFault → String
  | .overlapping first second => s!"overlapping tensor slots {first.text} and {second.text}"
  | .outsidePool span length => s!"slot {span.text} exceeds pool of {length} elements"
  | .outputIsOperand output => s!"output slot {output.text} is also an operand"
  | .inputIsOutput input => s!"input slot {input.text} is also an output"

inductive ExecutionError
  | graph (error : GraphError)
  | unsupportedElementType (tensor : TensorId) (elementType : ElementType)
  | unsupportedOperation (operation : OperationId) (kind : OperationKind)
      (elementType : ElementType)
  | poolOverflow (tensor : TensorId) (elementType : ElementType)
  | elementTypeMismatch (expected actual : ElementType)
  | tensorIndexOutOfBounds (index length : Nat)
  | dataLength (tensor expected length : Nat)
  | operandMismatch (operation : OperationId) (kind : OperationKind) (fault : OperandFault)
  | computationFailed (operation : OperationId) (kind : OperationKind) (fault : ComputationFault)
  | splitFailed (fault : SplitFault)
  /-- A set of kernels gave up for a reason of its own. -/
  | reported (reason : String)
  deriving DecidableEq, Repr

namespace ExecutionError

def message : ExecutionError → String
  | .graph error => error.message
  | .unsupportedElementType tensor elementType =>
      s!"Unsupported dtype {elementType.name} for tensor {tensor}: no memory pool"
  | .unsupportedOperation operation kind elementType =>
      s!"Unsupported operation: {kind.name} on {elementType.name} (op {operation})"
  | .poolOverflow tensor elementType =>
      let pool := elementType.name
      s!"Pool for {pool} cannot hold tensor {tensor}: arena exceeds the addressable size"
  | .elementTypeMismatch expected actual =>
      s!"Type error: expected {expected.name}, got {actual.name}"
  | .tensorIndexOutOfBounds index length =>
      s!"Tensor index {index} out of bounds for {length} tensors"
  | .dataLength tensor expected length =>
      s!"Shape mismatch: tensor {tensor} holds {expected} elements, got {length}"
  | .operandMismatch operation kind fault =>
      s!"Shape mismatch: {kind.name} (op {operation}): {fault.reason}"
  | .computationFailed operation kind fault =>
      s!"Execution failed: {kind.name} (op {operation}): {fault.reason}"
  | .splitFailed fault => s!"Execution failed: {fault.reason}"
  | .reported reason => s!"Execution failed: {reason}"

end ExecutionError

end TensorGraph
