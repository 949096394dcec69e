import TensorGraph.Graph.Connections
import TensorGraph.Graph.Grouping
import TensorGraph.Graph.Ranking

/-! Building a graph from descriptors. -/

namespace TensorGraph

namespace Graph

def checkTensors : List TensorId → List Tensor → Except GraphError Unit
  | _, [] => .ok ()
  | earlier, tensor :: rest => do
      tensor.validate
      if tensor.id ∈ earlier then
        throw (.conflictingTensor tensor.id)
      checkTensors (tensor.id :: earlier) rest

def checkOperations : List OperationId → List Operation → Except GraphError Unit
  | _, [] => .ok ()
  | earlier, operation :: rest => do
      operation.validate
      if operation.id ∈ earlier then
        throw (.conflictingOperation operation.id)
      checkOperations (operation.id :: earlier) rest

def sources (tensors : List TensorNode) (operations : List OperationNode) : Sources :=
  operations.map fun node => node.inputs.map fun input =>
    (tensors[input]?).bind TensorNode.producer

/-- Rank of every operation; markers have rank zero. Fails if operations feed each other in a
circle. -/
def ranks (tensors : List TensorNode) (operations : List OperationNode) :
    Except GraphError (List Nat) :=
  match (rankings (sources tensors operations)).mapM id with
  | some found => .ok (found.map Ranking.rank)
  | none => .error .cyclicGraph

/-- Slots of operations whose groups are arranged. The block that is open has its marker at
`header` and `pending` members to come. -/
def slotsFrom (position : Nat) (header pending : Nat) (pinned : Bool) :
    List (Operation × Nat) → List Slot
  | [] => []
  | (operation, rank) :: rest =>
      match operation.members?, pending with
      | some members, _ =>
          .header members.length operation.isPinned ::
            slotsFrom (position + 1) position members.length operation.isPinned rest
      | none, 0 => .free rank :: slotsFrom (position + 1) header 0 pinned rest
      | none, pending + 1 =>
          .member header pinned :: slotsFrom (position + 1) header pending pinned rest

def slotsOf (operations : List Operation) (ranks : List Nat) : List Slot :=
  slotsFrom 0 0 0 false (operations.zip ranks)

def build (tensors : List Tensor) (operations : List Operation) (capacity : Capacity) :
    Except GraphError Graph := do
  checkWithin .tensors capacity.tensors.toNat tensors.length
  checkWithin .operations capacity.operations.toNat operations.length
  checkTensors [] tensors
  checkOperations [] operations
  let arranged ← arrangeGroups operations
  Connections.check tensors arranged
  let tensorNodes := tensors.map (Connections.tensorNode arranged)
  let operationNodes := arranged.map (Connections.operationNode tensors)
  let ranks ← ranks tensorNodes operationNodes
  return {
    capacity
    tensors := tensorNodes
    operations := operationNodes
    slots := slotsOf arranged ranks }

end Graph

end TensorGraph
