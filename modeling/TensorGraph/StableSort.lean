/-! Sorting by pairs of numbers, taken lexicographically; items with equal keys keep their order. -/

namespace TensorGraph

namespace StableSort

def notAfter (left right : Nat × Nat) : Bool :=
  left.1 < right.1 || (left.1 = right.1 && left.2 ≤ right.2)

def insert {α : Type} (key : α → Nat × Nat) (item : α) : List α → List α
  | [] => [item]
  | first :: rest =>
      if notAfter (key item) (key first) then item :: first :: rest
      else first :: insert key item rest

def sort {α : Type} (key : α → Nat × Nat) (items : List α) : List α :=
  items.foldr (insert key) []

end StableSort

end TensorGraph
