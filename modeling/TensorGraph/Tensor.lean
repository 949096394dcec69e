import TensorGraph.Error

/-! Shapes and tensor descriptors, with their exact size limits. -/

namespace TensorGraph

/-- Product of the numbers, taken from left to right while it stays within the limit. -/
def productWithin (limit : Nat) (numbers : List Nat) : Option Nat :=
  numbers.foldlM (fun product number =>
    if product * number ≤ limit then some (product * number) else none) 1

/-- The dimensions of a tensor. A shape read from text may be invalid until it is validated. -/
structure Shape where
  dimensions : List UInt64
  deriving DecidableEq, Repr

namespace Shape

def ofDimensions (dimensions : List UInt64) : Except GraphError Shape := do
  checkWithin .rank Limit.rank dimensions.length
  if dimensions.isEmpty || dimensions.contains 0 then
    throw .invalidShape
  match productWithin Limit.word (dimensions.map UInt64.toNat) with
  | some _ => return ⟨dimensions⟩
  | none => throw (.shapeOverflow dimensions)

def rank (shape : Shape) : Nat := shape.dimensions.length

/-- Number of elements; the largest machine word if the product leaves the range. -/
def elementCount (shape : Shape) : Nat :=
  (productWithin Limit.word (shape.dimensions.map UInt64.toNat)).getD Limit.word

def text (shape : Shape) : String :=
  "[" ++ String.intercalate "x" (shape.dimensions.map toString) ++ "]"

end Shape

structure Tensor where
  id : TensorId
  elementType : ElementType
  shape : Shape
  storage : StorageClass
  layout : Layout
  deriving DecidableEq, Repr

namespace Tensor

def rank (tensor : Tensor) : Nat := tensor.shape.rank

def elementCount (tensor : Tensor) : Nat := tensor.shape.elementCount

def byteCount (tensor : Tensor) : Nat :=
  saturatingMul tensor.elementCount tensor.elementType.byteSize

def validate (tensor : Tensor) : Except GraphError Unit := do
  let _ ← Shape.ofDimensions tensor.shape.dimensions
  if tensor.elementCount * tensor.elementType.byteSize ≤ Limit.addressableBytes then
    return ()
  else
    throw (.shapeOverflow tensor.shape.dimensions)

def ofDimensions (id : TensorId) (elementType : ElementType) (dimensions : List UInt64) :
    Except GraphError Tensor := do
  let shape ← Shape.ofDimensions dimensions
  let tensor : Tensor := ⟨id, elementType, shape, .host, .rowMajor⟩
  tensor.validate
  return tensor

def scalar (id : TensorId) (elementType : ElementType) : Tensor :=
  ⟨id, elementType, ⟨[1]⟩, .host, .rowMajor⟩

def array (id : TensorId) (elementType : ElementType) (length : UInt64) :
    Except GraphError Tensor :=
  ofDimensions id elementType [length]

def matrix (id : TensorId) (elementType : ElementType) (rows columns : UInt64) :
    Except GraphError Tensor :=
  ofDimensions id elementType [rows, columns]

def withStorage (tensor : Tensor) (storage : StorageClass) : Tensor := { tensor with storage }

def withLayout (tensor : Tensor) (layout : Layout) : Tensor := { tensor with layout }

end Tensor

end TensorGraph
