/-! JSON documents as they are written. -/

namespace TensorGraph

/-- A number as written: sign, digits before the point, digits after it and exponent. -/
structure Numeral where
  negative : Bool
  whole : Nat
  /-- Digits after the point; none if there is no point. -/
  fraction : List Char
  /-- Whether the exponent is negative, and its digits. -/
  exponent : Option (Bool × Nat)
  deriving DecidableEq, Repr

def Numeral.ofInt (value : Int) : Numeral := ⟨value < 0, value.natAbs, [], none⟩

/-- A document as written: members keep their order and may repeat. A string is missing when an
escape in it names half of a surrogate pair; such a string may be passed over but not used. -/
inductive Json
  | null
  | boolean (value : Bool)
  | number (numeral : Numeral)
  | string (text : Option String)
  | array (items : List Json)
  | object (members : List (Option String × Json))
  deriving Inhabited

namespace Json

def ofString (text : String) : Json := .string (some text)

def ofNat (value : Nat) : Json := .number (.ofInt value)

def ofInt (value : Int) : Json := .number (.ofInt value)

def ofOption {α : Type} (encode : α → Json) : Option α → Json
  | none => .null
  | some value => encode value

def ofList {α : Type} (encode : α → Json) (values : List α) : Json :=
  .array (values.map encode)

def record (members : List (String × Json)) : Json :=
  .object (members.map fun member => (some member.1, member.2))

def tagged (name : String) (value : Json) : Json := record [(name, value)]

end Json

end TensorGraph
