import TensorGraph.Operation

/-! Graphs of tensors and operations that refer to each other by position. -/

namespace TensorGraph

/-- A tensor with the positions of the operation that writes it and of those that read it. -/
structure TensorNode where
  tensor : Tensor
  producer : Option Nat
  /-- In increasing order, each reader once. -/
  consumers : List Nat
  deriving DecidableEq

/-- An operation with the positions of the tensors it reads and writes. A group marker has
none. -/
structure OperationNode where
  operation : Operation
  inputs : List Nat
  outputs : List Nat
  deriving DecidableEq

/-- How an operation may move when the graph is put in order. -/
inductive Slot
  /-- Moves on its own, ordered by its rank. -/
  | free (rank : Nat)
  | header (members : Nat) (pinned : Bool)
  | member (header : Nat) (pinned : Bool)
  deriving DecidableEq, Repr

namespace Slot

def isPinned : Slot → Bool
  | .free _ => false
  | .header _ pinned | .member _ pinned => pinned

def rank? : Slot → Option Nat
  | .free rank => some rank
  | _ => none

end Slot

structure Graph where
  capacity : Capacity
  tensors : List TensorNode
  operations : List OperationNode
  slots : List Slot
  deriving DecidableEq

namespace Graph

def tensorList (graph : Graph) : List Tensor := graph.tensors.map TensorNode.tensor

def operationList (graph : Graph) : List Operation :=
  graph.operations.map OperationNode.operation

def producer? (graph : Graph) (tensor : Nat) : Option Nat := do
  let node ← graph.tensors[tensor]?
  node.producer

def tensorId (graph : Graph) (tensor : Nat) : TensorId :=
  (graph.tensors[tensor]?.map fun node => node.tensor.id).getD 0

def operationId (graph : Graph) (operation : Nat) : OperationId :=
  (graph.operations[operation]?.map fun node => node.operation.id).getD 0

def tensorIndex? (graph : Graph) (id : TensorId) : Option Nat :=
  graph.tensors.findIdx? fun node => node.tensor.id = id

def operationIndex? (graph : Graph) (id : OperationId) : Option Nat :=
  graph.operations.findIdx? fun node => node.operation.id = id

/-- First position and end of the members of the group whose marker stands at `header`. -/
def groupMembers? (graph : Graph) (header : Nat) : Option (Nat × Nat) :=
  match graph.slots[header]? with
  | some (.header members _) => some (header + 1, header + 1 + members)
  | _ => none

end Graph

end TensorGraph
