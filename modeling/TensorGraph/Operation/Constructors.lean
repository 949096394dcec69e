import TensorGraph.Operation

/-!
Operations built from tensor descriptors. The element type is that of the output, and every
operand has to share it.
-/

namespace TensorGraph

structure Scalar where
  elementType : ElementType
  value : Element elementType

namespace Operation

def operandMismatch (expected : ElementType) (operands : List Tensor) : Option ElementType :=
  (operands.map Tensor.elementType).find? (· ≠ expected)

def onTensors (id : OperationId) (kind : OperationKind) (output : Tensor)
    (operands : List Tensor) (parameters : Parameters) : Except GraphError Operation := do
  checkWithin .inputs Limit.inputs operands.length
  match operandMismatch output.elementType operands with
  | some actual => throw (.elementTypeMismatch output.elementType actual)
  | none =>
      create id kind output.elementType (operands.map Tensor.id) [output.id] parameters

def plain (id : OperationId) (kind : OperationKind) (output : Tensor) (operands : List Tensor) :
    Except GraphError Operation :=
  onTensors id kind output operands .empty

def withScalar (id : OperationId) (kind : OperationKind) (output : Tensor)
    (operands : List Tensor) (scalar : Scalar) : Except GraphError Operation :=
  if scalar.elementType = output.elementType then
    onTensors id kind output operands (.ofScalar scalar.elementType scalar.value)
  else
    .error (.elementTypeMismatch output.elementType scalar.elementType)

def elementAdd (id : OperationId) (output : Tensor) (operands : List Tensor) :=
  plain id .elementAdd output operands

def elementSub (id : OperationId) (output : Tensor) (operands : List Tensor) :=
  plain id .elementSub output operands

def elementMul (id : OperationId) (output : Tensor) (operands : List Tensor) :=
  plain id .elementMul output operands

def elementDiv (id : OperationId) (output : Tensor) (operands : List Tensor) :=
  plain id .elementDiv output operands

def fill (id : OperationId) (output : Tensor) (value : Scalar) :=
  withScalar id .fill output [] value

def copy (id : OperationId) (output operand : Tensor) := plain id .copy output [operand]

def exp (id : OperationId) (output operand : Tensor) := plain id .exp output [operand]

def sin (id : OperationId) (output operand : Tensor) := plain id .sin output [operand]

def cos (id : OperationId) (output operand : Tensor) := plain id .cos output [operand]

def abs (id : OperationId) (output operand : Tensor) := plain id .abs output [operand]

def scalarAdd (id : OperationId) (output operand : Tensor) (value : Scalar) :=
  withScalar id .scalarAdd output [operand] value

def scalarSub (id : OperationId) (output operand : Tensor) (value : Scalar) :=
  withScalar id .scalarSub output [operand] value

def scalarMul (id : OperationId) (output operand : Tensor) (value : Scalar) :=
  withScalar id .scalarMul output [operand] value

def scalarDiv (id : OperationId) (output operand : Tensor) (value : Scalar) :=
  withScalar id .scalarDiv output [operand] value

def arrayAxpy (id : OperationId) (output : Tensor) (factor : Scalar) (first second : Tensor) :=
  withScalar id .arrayAxpy output [first, second] factor

def arraySum (id : OperationId) (output operand : Tensor) := plain id .arraySum output [operand]

def arrayMean (id : OperationId) (output operand : Tensor) := plain id .arrayMean output [operand]

def matrixAdd (id : OperationId) (output left right : Tensor) :=
  plain id .matrixAdd output [left, right]

def matrixSub (id : OperationId) (output left right : Tensor) :=
  plain id .matrixSub output [left, right]

def matrixTranspose (id : OperationId) (output operand : Tensor) :=
  plain id .matrixTranspose output [operand]

def matrixMul (id : OperationId) (output left right : Tensor) :=
  plain id .matrixMul output [left, right]

def matrixArrayMul (id : OperationId) (output matrix array : Tensor) :=
  plain id .matrixArrayMul output [matrix, array]

def matrixArrayAdd (id : OperationId) (output matrix array : Tensor) :=
  plain id .matrixArrayAdd output [matrix, array]

end Operation

end TensorGraph
