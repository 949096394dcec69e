import TensorGraph.Graph.Build
import TensorGraph.Graph.Indices
import TensorGraph.Graph.ReadySearch
import TensorGraph.Graph.Rotation

/-!
Building a graph pass by pass. Groups are rotated into place, positions are entered operation by
operation, ranks come from a search, and the slots of groups are written over free ones.
-/

namespace TensorGraph

namespace Graph

def enterGroup? (header : Nat) (members : List OperationId) (pinned : Bool) (slots : List Slot) :
    Option (List Slot) := do
  let headed ← Guarded.put? slots header (.header members.length pinned)
  let (before, behind) ← Guarded.cut? headed (header + 1)
  let (replaced, rest) ← Guarded.cut? behind members.length
  return before ++ replaced.map (fun _ => .member header pinned) ++ rest

def fillSlots? : Nat → List Operation → List Slot → Option (List Slot)
  | _, [], slots => some slots
  | position, operation :: rest, slots =>
      match operation.members? with
      | none => fillSlots? (position + 1) rest slots
      | some members => do
          let next ← enterGroup? position members operation.isPinned slots
          fillSlots? (position + 1) rest next

def buildStepwise (tensors : List Tensor) (operations : List Operation) (capacity : Capacity) :
    Guarded GraphError Graph := do
  Guarded.plain (checkWithin .tensors capacity.tensors.toNat tensors.length)
  Guarded.plain (checkWithin .operations capacity.operations.toNat operations.length)
  Guarded.plain (checkTensors [] tensors)
  Guarded.plain (checkOperations [] operations)
  let arranged ← Rotation.rotateGroups operations
  let (nodes, entered) ← Indices.generate tensors arranged
  let ranks ← ReadySearch.rankAll nodes entered
  let slots ← Guarded.access
    (fillSlots? 0 (entered.map fun node => node.operation) (ranks.map Slot.free))
  return { capacity, tensors := nodes, operations := entered, slots }

end Graph

end TensorGraph
