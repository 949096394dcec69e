import TensorGraph.ElementType

/-!
Elements and their arithmetic. An element is the bit pattern of its type; integers are read from
it as two's complement or plain binary, floating-point numbers as IEEE 754 binary formats.
-/

namespace TensorGraph

abbrev Element (elementType : ElementType) := BitVec elementType.bits

inductive UnaryFunction
  | exp
  | sin
  | cos
  | abs
  deriving DecidableEq, Repr

structure Arithmetic (α : Type) where
  zero : α
  add : α → α → α
  sub : α → α → α
  mul : α → α → α
  /-- Nothing where the quotient is undefined or does not fit the type. -/
  divide? : α → α → Option α
  ofCount : Nat → α
  /-- Nothing for types without functions of one variable. -/
  unary? : UnaryFunction → α → Option α

namespace Arithmetic

def unsigned (width : Nat) : Arithmetic (BitVec width) where
  zero := 0
  add left right := left + right
  sub left right := left - right
  mul left right := left * right
  divide? left right := if right = 0 then none else some (left / right)
  ofCount count := BitVec.ofNat width count
  unary? _ _ := none

/-- Two's complement integers. A quotient is truncated toward zero; the one quotient that leaves
the range, the least integer by minus one, counts as undefined. -/
def signed (width : Nat) : Arithmetic (BitVec width) where
  zero := 0
  add left right := left + right
  sub left right := left - right
  mul left right := left * right
  divide? left right :=
    if right = 0 ∨ (left = BitVec.intMin width ∧ right = -1) then none
    else some (left.sdiv right)
  ofCount count := BitVec.ofNat width count
  unary? _ _ := none

def toBinary32 (pattern : BitVec 32) : Float32 := Float32.ofBits (UInt32.ofBitVec pattern)

def ofBinary32 (value : Float32) : BitVec 32 := value.toBits.toBitVec

def toBinary64 (pattern : BitVec 64) : Float := Float.ofBits (UInt64.ofBitVec pattern)

def ofBinary64 (value : Float) : BitVec 64 := value.toBits.toBitVec

def binary32 : Arithmetic (BitVec 32) where
  zero := 0
  add left right := ofBinary32 (toBinary32 left + toBinary32 right)
  sub left right := ofBinary32 (toBinary32 left - toBinary32 right)
  mul left right := ofBinary32 (toBinary32 left * toBinary32 right)
  divide? left right := some (ofBinary32 (toBinary32 left / toBinary32 right))
  ofCount count := ofBinary32 (UInt64.ofNat count).toFloat32
  unary? function value :=
    let argument := toBinary32 value
    some (match function with
      | .exp => ofBinary32 argument.exp
      | .sin => ofBinary32 argument.sin
      | .cos => ofBinary32 argument.cos
      -- Only the sign goes, also that of something that is not a number.
      | .abs => value &&& 0x7FFFFFFF)

def binary64 : Arithmetic (BitVec 64) where
  zero := 0
  add left right := ofBinary64 (toBinary64 left + toBinary64 right)
  sub left right := ofBinary64 (toBinary64 left - toBinary64 right)
  mul left right := ofBinary64 (toBinary64 left * toBinary64 right)
  divide? left right := some (ofBinary64 (toBinary64 left / toBinary64 right))
  ofCount count := ofBinary64 (UInt64.ofNat count).toFloat
  unary? function value :=
    let argument := toBinary64 value
    some (match function with
      | .exp => ofBinary64 argument.exp
      | .sin => ofBinary64 argument.sin
      | .cos => ofBinary64 argument.cos
      -- Only the sign goes, also that of something that is not a number.
      | .abs => value &&& 0x7FFFFFFFFFFFFFFF)

end Arithmetic

namespace ElementType

def arithmetic : (elementType : ElementType) → Option (Arithmetic (Element elementType))
  | .u8 => some (.unsigned 8)
  | .u16 => some (.unsigned 16)
  | .u32 => some (.unsigned 32)
  | .u64 => some (.unsigned 64)
  | .i8 => some (.signed 8)
  | .i16 => some (.signed 16)
  | .i32 => some (.signed 32)
  | .i64 => some (.signed 64)
  | .f16 => none
  | .f32 => some .binary32
  | .f64 => some .binary64

theorem arithmetic_isSome (elementType : ElementType) :
    elementType.arithmetic.isSome = elementType.hasPool := by
  cases elementType <;> rfl

end ElementType

namespace Element

def toInt (elementType : ElementType) (element : Element elementType) : Int :=
  if elementType.isSigned then BitVec.toInt element else (BitVec.toNat element : Int)

def ofInt (elementType : ElementType) (value : Int) : Element elementType :=
  BitVec.ofInt elementType.bits value

end Element

end TensorGraph
