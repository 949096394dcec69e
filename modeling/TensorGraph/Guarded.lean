import Mathlib.Data.List.Defs

/-!
Computations that check each of their accesses. An access out of range leaves no result at all.
-/

namespace TensorGraph

variable {α β ε : Type}

/-- A computation that reports errors, and that breaks off where an access is out of range. -/
abbrev Guarded (ε β : Type) := ExceptT ε Option β

namespace Guarded

def access (found : Option β) : Guarded ε β := ExceptT.mk (found.map .ok)

def plain (computed : Except ε β) : Guarded ε β := ExceptT.mk (some computed)

def put? (contents : List α) (place : Nat) (element : α) : Option (List α) :=
  if place < contents.length then some (contents.set place element) else none

def copyOver? (contents operand : List α) : Option (List α) :=
  if contents.length = operand.length then some operand else none

def cut? (items : List α) (position : Nat) : Option (List α × List α) :=
  if position ≤ items.length then some (items.take position, items.drop position) else none

def positions (rows columns : Nat) : List (Nat × Nat) :=
  (List.range rows).product (List.range columns)

def writeEach? (place? : Nat × Nat → Option Nat) (value? : Nat × Nat → Option α)
    (positions : List (Nat × Nat)) (output : List α) : Option (List α) :=
  positions.foldlM (fun contents position => do
    let element ← value? position
    let place ← place? position
    put? contents place element) output

end Guarded

end TensorGraph
