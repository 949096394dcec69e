import TensorGraph.Tensor

/-!
Sizes of tensors in machine words. A product that is too large is found out before it wraps around.
-/

namespace TensorGraph

namespace Word

def largest : UInt64 := 0xFFFFFFFFFFFFFFFF

def addressable : UInt64 := 0x7FFFFFFFFFFFFFFF

/-- The product of two words, if it is a word. A division tells whether it is, since the product
itself would wrap around. -/
def checkedMul (left right : UInt64) : Option UInt64 :=
  if right = 0 ∨ left ≤ largest / right then some (left * right) else none

def saturatingMul (left right : UInt64) : UInt64 := (checkedMul left right).getD largest

def product? (dimensions : List UInt64) : Option UInt64 := dimensions.foldlM checkedMul 1

def shapeOf (dimensions : List UInt64) : Except GraphError Shape := do
  checkWithin .rank Limit.rank dimensions.length
  if dimensions.isEmpty || dimensions.contains 0 then
    throw .invalidShape
  match product? dimensions with
  | some _ => return ⟨dimensions⟩
  | none => throw (.shapeOverflow dimensions)

def elementCount (shape : Shape) : UInt64 := (product? shape.dimensions).getD largest

def byteSize (elementType : ElementType) : UInt64 := UInt64.ofNat elementType.byteSize

def byteCount (tensor : Tensor) : UInt64 :=
  saturatingMul (elementCount tensor.shape) (byteSize tensor.elementType)

def validate (tensor : Tensor) : Except GraphError Unit := do
  let _ ← shapeOf tensor.shape.dimensions
  let bytes := checkedMul (elementCount tensor.shape) (byteSize tensor.elementType)
  if bytes.any (· ≤ addressable) then
    return ()
  else
    throw (.shapeOverflow tensor.shape.dimensions)

def tensorOf (id : TensorId) (elementType : ElementType) (dimensions : List UInt64) :
    Except GraphError Tensor := do
  let shape ← shapeOf dimensions
  let tensor : Tensor := ⟨id, elementType, shape, .host, .rowMajor⟩
  validate tensor
  return tensor

end Word

end TensorGraph
