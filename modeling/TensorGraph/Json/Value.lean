import TensorGraph.Entries
import TensorGraph.Json.Binary64

/-!
Values that documents stand for, used where a document carries data of the caller's own. Members
of objects are in increasing order of their names, each name once.
-/

namespace TensorGraph

inductive JsonValue
  | null
  | boolean (value : Bool)
  | integer (value : Int)
  | real (value : Binary64)
  | string (text : String)
  | array (items : List JsonValue)
  | object (members : List (String × JsonValue))
  deriving Inhabited

abbrev JsonMembers := List (String × JsonValue)

namespace JsonValue

/-- The value of a numeral. Integers outside the range of 64 bits, and negative zero, are read as
double-precision numbers. -/
def ofNumeral? (numeral : Numeral) : Option JsonValue :=
  match numeral with
  | ⟨false, whole, [], none⟩ =>
      if whole ≤ Limit.word then some (.integer whole) else numeral.toBinary64?.map .real
  | ⟨true, whole, [], none⟩ =>
      if 0 < whole ∧ whole ≤ 0x8000000000000000 then some (.integer (-(whole : Int)))
      else numeral.toBinary64?.map .real
  | _ => numeral.toBinary64?.map .real

def sortMembers (members : List (String × JsonValue)) : JsonMembers :=
  Entries.ofList (fun left right => left < right) members

mutual

/-- The value of a document, unless it nests arrays and objects deeper than the limit. -/
def ofJson? (limit : Nat) : Json → Option JsonValue
  | .null => some .null
  | .boolean value => some (.boolean value)
  | .number numeral => ofNumeral? numeral
  | .string text => text.map .string
  | .array items =>
      match limit with
      | 0 => none
      | limit + 1 => (ofItems? limit items).map .array
  | .object members =>
      match limit with
      | 0 => none
      | limit + 1 => (ofMembers? limit members).map fun found => .object (sortMembers found)

def ofItems? (limit : Nat) : List Json → Option (List JsonValue)
  | [] => some []
  | item :: rest => do
      let value ← ofJson? limit item
      let values ← ofItems? limit rest
      return value :: values

def ofMembers? (limit : Nat) : List (Option String × Json) → Option (List (String × JsonValue))
  | [] => some []
  | (name, document) :: rest => do
      let name ← name
      let value ← ofJson? limit document
      let values ← ofMembers? limit rest
      return (name, value) :: values

end

mutual

def toJson : JsonValue → Json
  | .null => .null
  | .boolean value => .boolean value
  | .integer value => .ofInt value
  | .real value => .number value.toNumeral
  | .string text => .ofString text
  | .array items => .array (toItems items)
  | .object members => .object (toMembers members)

def toItems : List JsonValue → List Json
  | [] => []
  | item :: rest => item.toJson :: toItems rest

def toMembers : List (String × JsonValue) → List (Option String × Json)
  | [] => []
  | (name, value) :: rest => (some name, value.toJson) :: toMembers rest

end

end JsonValue

end TensorGraph
