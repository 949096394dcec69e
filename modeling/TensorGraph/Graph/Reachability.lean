import TensorGraph.Graph.Build

/-!
What a set of wanted tensors depends on. An operation is needed when it writes a wanted tensor or
an input of a needed operation; all its inputs and outputs come along. A group marker is needed
when all members of its group are.
-/

namespace TensorGraph

structure Reachability where
  tensors : List Bool
  operations : List Bool
  deriving DecidableEq

structure PartSize where
  tensors : Nat
  operations : Nat
  deriving DecidableEq, Repr

def PartSize.capacity (size : PartSize) : Capacity := .exact size.tensors size.operations

def Reachability.size (reachability : Reachability) : PartSize where
  tensors := reachability.tensors.count true
  operations := reachability.operations.count true

namespace Graph

def firstOutside (graph : Graph) (tensors : List Nat) : Option Nat :=
  tensors.find? fun tensor => graph.tensors.length ≤ tensor

def isDemanded (graph : Graph) (wanted : List Nat) (marked : List Bool) (tensor : Nat) : Bool :=
  tensor ∈ wanted ||
    ((graph.tensors[tensor]?.map TensorNode.consumers).getD []).any fun consumer =>
      marked[consumer]?.getD false

def closeBackward (graph : Graph) (wanted : List Nat) : Nat → List Bool → List Bool
  | 0, marked => marked
  | rounds + 1, marked =>
      let next := graph.operations.map fun node => node.outputs.any (graph.isDemanded wanted marked)
      if next = marked then marked else closeBackward graph wanted rounds next

def neededOperations (graph : Graph) (wanted : List Nat) : List Bool :=
  graph.closeBackward wanted graph.operations.length (graph.operations.map fun _ => false)

def isTouched (graph : Graph) (wanted : List Nat) (marked : List Bool) (tensor : Nat) : Bool :=
  tensor ∈ wanted ||
    (graph.operations.zip marked).any fun entry =>
      entry.2 && (tensor ∈ entry.1.inputs || tensor ∈ entry.1.outputs)

def markOf (marked : List Bool) (position : Nat) : Slot → Bool
  | .header members _ => ((marked.drop (position + 1)).take members).all id
  | _ => marked[position]?.getD false

def markGroups (slots : List Slot) (marked : List Bool) : List Bool :=
  slots.zipIdx.map fun entry => markOf marked entry.2 entry.1

def reachability (graph : Graph) (wanted : List Nat) : Except GraphError Reachability :=
  match graph.firstOutside wanted with
  | some index => .error (.tensorIndexOutOfBounds index graph.tensors.length)
  | none =>
      let marked := graph.neededOperations wanted
      .ok {
        tensors := (List.range graph.tensors.length).map (graph.isTouched wanted marked)
        operations := markGroups graph.slots marked }

end Graph

end TensorGraph
