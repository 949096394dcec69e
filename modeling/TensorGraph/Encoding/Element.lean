import TensorGraph.Json.Reader
import TensorGraph.Json.Record
import TensorGraph.Json.Writer
import TensorGraph.Operation.Constructors

/-!
Elements and parameter bytes as documents. Integers are written as such; floating-point numbers as
the hexadecimal digits of their bit pattern, which loses nothing, and all NaNs alike.
-/

namespace TensorGraph

namespace Hexadecimal

def digits : Nat → Nat → List Char
  | 0, _ => []
  | count + 1, value => digits count (value / 16) ++ [Json.hexDigit value]

def value? (digits : List Char) : Option Nat :=
  digits.foldlM (fun value digit => (Json.hexValue? digit).map (16 * value + ·)) 0

def ofBytes (bytes : List UInt8) : String :=
  String.ofList (bytes.flatMap fun byte => digits 2 byte.toNat)

def bytesOfDigits? : List Char → Option (List UInt8)
  | [] => some []
  | high :: low :: rest => do
      let byte ← value? [high, low]
      let others ← bytesOfDigits? rest
      return UInt8.ofNat byte :: others
  | _ => none

def toBytes? (text : String) : Option (List UInt8) := bytesOfDigits? text.toList

end Hexadecimal

def ElementType.fractionBits : ElementType → Nat
  | .f16 => 10
  | .f32 => 23
  | .f64 => 52
  | _ => 0

namespace Element

/-- Whether a floating-point element is not a number: its magnitude exceeds that of infinity. -/
def isNaN (elementType : ElementType) (element : Element elementType) : Bool :=
  let signBit := Nat.pow 2 (elementType.bits - 1)
  signBit - Nat.pow 2 elementType.fractionBits < BitVec.toNat element % signBit

def toJson (elementType : ElementType) (element : Element elementType) : Json :=
  if elementType.isFloat then
    if isNaN elementType element then .ofString "nan"
    else
      .ofString (String.ofList
        (Hexadecimal.digits (2 * elementType.byteSize) (BitVec.toNat element)))
  else
    .ofInt (toInt elementType element)

def ofJson? (elementType : ElementType) (document : Json) : Option (Element elementType) :=
  if elementType.isFloat then do
    let text ← document.string?
    let pattern ← Hexadecimal.value? text.toList
    return BitVec.ofNat _ pattern
  else
    document.integer?.map (ofInt elementType)

end Element

end TensorGraph
