import TensorGraph.Error

/-! The parameter buffer of an operation, which holds at most one little-endian scalar. -/

namespace TensorGraph

/-- The number whose digits to base 256 are the given bytes, least first. -/
def littleEndian : List UInt8 → Nat
  | [] => 0
  | byte :: rest => byte.toNat + 256 * littleEndian rest

/-- The given number of digits to base 256 of a number, least first. -/
def littleEndianBytes : Nat → Nat → List UInt8
  | 0, _ => []
  | count + 1, value => UInt8.ofNat value :: littleEndianBytes count (value / 256)

/-- Parameter bytes. Those beyond the length carry no meaning, but count when buffers are
compared; a length read from text may exceed the buffer until it is validated. -/
structure Parameters where
  bytes : Vector UInt8 Limit.parameterBytes
  length : UInt8
  deriving DecidableEq

namespace Parameters

/-- The given bytes, padded with zeros, under the given length. -/
def padded (bytes : List UInt8) (length : Nat) : Parameters :=
  ⟨Vector.ofFn fun position => bytes[position.val]?.getD 0, UInt8.ofNat length⟩

def empty : Parameters := padded [] 0

instance : Inhabited Parameters := ⟨empty⟩

def ofBytes (bytes : List UInt8) : Except GraphError Parameters := do
  checkWithin .parameterBytes Limit.parameterBytes bytes.length
  return padded bytes bytes.length

def ofScalar (elementType : ElementType) (value : Element elementType) : Parameters :=
  padded (littleEndianBytes elementType.byteSize value.toNat) elementType.byteSize

/-- The scalar in the buffer, if its length is that of one element of the given type. -/
def scalar? (parameters : Parameters) (elementType : ElementType) :
    Option (Element elementType) :=
  if parameters.length.toNat = elementType.byteSize then
    some (BitVec.ofNat _ (littleEndian (parameters.bytes.toList.take elementType.byteSize)))
  else
    none

def toBytes (parameters : Parameters) : List UInt8 :=
  parameters.bytes.toList.take parameters.length.toNat

def isEmpty (parameters : Parameters) : Bool := parameters.length = 0

end Parameters

end TensorGraph
