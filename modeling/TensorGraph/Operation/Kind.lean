import TensorGraph.Arithmetic
import TensorGraph.Limits

/-! Operation kinds: names, arities and parameter sizes. -/

namespace TensorGraph

inductive OperationKind
  | elementAdd
  | elementSub
  | elementMul
  | elementDiv
  | elementRandom
  | fill
  | copy
  | exp
  | sin
  | cos
  | abs
  | scalarAdd
  | scalarSub
  | scalarMul
  | scalarDiv
  | arrayAxpy
  | arraySum
  | arrayMean
  | matrixAdd
  | matrixSub
  | matrixTranspose
  | matrixMul
  | matrixInverse
  | matrixArrayMul
  | matrixArrayAdd
  /-- Marks the operations that follow it as one block; a pinned block keeps its position. -/
  | group (pinned : Bool)
  | zero
  | identity
  deriving DecidableEq, Repr

namespace OperationKind

def name : OperationKind → String
  | .elementAdd => "ELM_ADD"
  | .elementSub => "ELM_SUB"
  | .elementMul => "ELM_MUL"
  | .elementDiv => "ELM_DIV"
  | .elementRandom => "ELM_RANDOM"
  | .fill => "ELM_FILL"
  | .copy => "COPY"
  | .exp => "EXPONENTIAL"
  | .sin => "SIN"
  | .cos => "COS"
  | .abs => "ABS"
  | .scalarAdd => "SCL_ELM_ADD"
  | .scalarSub => "SCL_ELM_SUB"
  | .scalarMul => "SCL_ELM_MUL"
  | .scalarDiv => "SCL_ELM_DIV"
  | .arrayAxpy => "ARRAY_AXPY"
  | .arraySum => "ARRAY_SUM"
  | .arrayMean => "ARRAY_MEAN"
  | .matrixAdd => "MAT_ADD"
  | .matrixSub => "MAT_SUB"
  | .matrixTranspose => "MAT_TRAN"
  | .matrixMul => "MAT_MUL"
  | .matrixInverse => "MAT_INV"
  | .matrixArrayMul => "MAT_ARR_MUL"
  | .matrixArrayAdd => "MAT_ARR_ADD"
  | .group _ => "EXP_GROUP"
  | .zero => "D_ZERO"
  | .identity => "D_IDENTITY"

def isGroup : OperationKind → Bool
  | .group _ => true
  | _ => false

def parameterSize (kind : OperationKind) (elementType : ElementType) : Nat :=
  match kind with
  | .fill | .scalarAdd | .scalarSub | .scalarMul | .scalarDiv | .arrayAxpy =>
      elementType.byteSize
  | _ => 0

def minInputs : OperationKind → Nat
  | .elementAdd | .elementSub | .elementMul | .elementDiv => 2
  | .elementRandom | .fill => 0
  | .copy | .exp | .sin | .cos | .abs => 1
  | .scalarAdd | .scalarSub | .scalarMul | .scalarDiv => 1
  | .arraySum | .arrayMean | .matrixTranspose | .matrixInverse => 1
  | .arrayAxpy | .matrixAdd | .matrixSub | .matrixMul | .matrixArrayMul | .matrixArrayAdd => 2
  | .group _ => 2
  | .zero | .identity => 0

def maxInputs : OperationKind → Nat
  | .elementAdd | .elementSub | .elementMul | .elementDiv => Limit.inputs
  | .elementRandom | .fill => 0
  | .copy | .exp | .sin | .cos | .abs => 1
  | .scalarAdd | .scalarSub | .scalarMul | .scalarDiv => 1
  | .arraySum | .arrayMean | .matrixTranspose | .matrixInverse => 1
  | .arrayAxpy | .matrixAdd | .matrixSub | .matrixMul | .matrixArrayMul | .matrixArrayAdd => 2
  | .group _ => Limit.inputs
  | .zero | .identity => Limit.inputs

end OperationKind

end TensorGraph
