import Mathlib.Logic.Function.Basic
import TensorGraph.Memory.Store

/-!
Sizing the pools in machine words, before any of them is set aside.
-/

namespace TensorGraph

abbrev Pools := (elementType : ElementType) → List (Element elementType)

def Pools.empty : Pools := fun _ => []

/-- Steps of a machine that sets pools aside, and may fail. Nothing results where a number leaves
the range that it is kept in. -/
abbrev Sizing := ExceptT ExecutionError (StateT Pools Option)

namespace Sizing

def bounded (limit number : Nat) : Sizing Nat := fun pools =>
  if number ≤ limit then some (.ok number, pools) else none

/-- The sum of two machine words; a sum that is none counts as too large. -/
def checkedEnd (tensor : Tensor) (cursor : Nat) : Sizing Nat :=
  let stop := cursor + tensor.elementCount
  if stop ≤ Limit.word ∧ stop ≤ Limit.addressableBytes / tensor.elementType.byteSize then
    return stop
  else
    throw (.poolOverflow tensor.id tensor.elementType)

def place (placed : List (TensorSlot × Nat)) (cursors : ElementType → Nat) :
    List Tensor → Sizing (List (TensorSlot × Nat) × (ElementType → Nat))
  | [] => return (placed, cursors)
  | tensor :: rest =>
      let elementType := tensor.elementType
      let cursor := cursors elementType
      if elementType.hasPool then do
        let stop ← checkedEnd tensor cursor
        let byteOffset ← bounded Limit.word (cursor * elementType.byteSize)
        place (placed ++ [(⟨elementType, cursor, tensor.elementCount⟩, byteOffset)])
          (Function.update cursors elementType stop) rest
      else
        throw (.unsupportedElementType tensor.id elementType)

def allocate (ends : ElementType → Nat) : List ElementType → Sizing Unit
  | [] => return ()
  | elementType :: rest => do
      if 0 < ends elementType then
        let _ ← bounded Limit.addressableBytes (ends elementType * elementType.byteSize)
        modify fun pools =>
          Function.update pools elementType (List.replicate (ends elementType) 0)
      allocate ends rest

/-- Lays out memory for a graph. Results in the store and the offset of each tensor in bytes. -/
def layOut (graph : CompactGraph) : Sizing (Store × List Nat) := do
  let (placed, ends) ← place [] (fun _ => 0) graph.tensors
  allocate ends ElementType.all
  let pools ← get
  return (⟨pools, placed.map Prod.fst⟩, placed.map Prod.snd)

end Sizing

end TensorGraph
