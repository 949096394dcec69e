import TensorGraph.Json

/-!
Reading records, alternatives and their parts from documents. A record is an object, in which
members without meaning are passed over and known ones must not repeat, or an array of its fields
in their order. An alternative is its name, or an object whose only member has that name.
-/

namespace TensorGraph

namespace Json

def namedMembers? (names : List String) (members : List (Option String × Json)) :
    Option (List (Option Json)) :=
  if members.all (fun member => member.1.isSome) &&
      names.all (fun name => (members.countP fun member => member.1 = some name) ≤ 1) then
    some (names.map fun name => members.lookup (some name))
  else none

def fields? (names : List String) : Json → Option (List (Option Json))
  | .object members => namedMembers? names members
  | .array items =>
      if items.length ≤ names.length then
        some (items.map some ++ List.replicate (names.length - items.length) none)
      else none
  | _ => none

/-- Name of an alternative, and the value that it carries if it is given as an object. -/
def alternative? : Json → Option (String × Option Json)
  | .string (some name) => some (name, none)
  | .object [(some name, value)] => some (name, some value)
  | _ => none

def plainAlternative? (document : Json) : Option String :=
  match document.alternative? with
  | some (name, none) => some name
  | some (name, some .null) => some name
  | _ => none

/-- An integer written without point, exponent or sign of a negative zero. -/
def integer? : Json → Option Int
  | .number ⟨false, whole, [], none⟩ => some whole
  | .number ⟨true, whole, [], none⟩ => if whole = 0 then none else some (-(whole : Int))
  | _ => none

def natBelow? (bound : Nat) (document : Json) : Option Nat :=
  match document.integer? with
  | some (.ofNat value) => if value < bound then some value else none
  | _ => none

def uint8? (document : Json) : Option UInt8 := (document.natBelow? UInt8.size).map UInt8.ofNat

def uint32? (document : Json) : Option UInt32 := (document.natBelow? UInt32.size).map UInt32.ofNat

def uint64? (document : Json) : Option UInt64 := (document.natBelow? UInt64.size).map UInt64.ofNat

def boolean? : Json → Option Bool
  | .boolean value => some value
  | _ => none

def string? : Json → Option String
  | .string text => text
  | _ => none

def optional? {α : Type} (decode : Json → Option α) : Json → Option (Option α)
  | .null => some none
  | document => (decode document).map some

def list? {α : Type} (decode : Json → Option α) : Json → Option (List α)
  | .array items => items.mapM decode
  | _ => none

def required? {α : Type} (decode : Json → Option α) (field : Option Json) : Option α :=
  field.bind decode

/-- A field that may be left out, with the value it has then. -/
def defaulted? {α : Type} (decode : Json → Option α) (value : α) : Option Json → Option α
  | none => some value
  | some document => decode document

end Json

end TensorGraph
