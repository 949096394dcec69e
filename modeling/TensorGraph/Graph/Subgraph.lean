import TensorGraph.Graph.Reachability

/-!
Cutting out the part of a graph that a set of wanted tensors depends on. What is kept stays in its
relative order.
-/

namespace TensorGraph

structure Boundary where
  inputs : List Nat
  outputs : List Nat
  deriving DecidableEq, Repr

def keepMarked {α : Type} (items : List α) (marks : List Bool) : List α :=
  ((items.zip marks).filter fun entry => entry.2).map fun entry => entry.1

namespace Graph

def locateTensors (graph : Graph) : List TensorId → Except GraphError (List Nat)
  | [] => .ok []
  | id :: rest =>
      match graph.tensorIndex? id with
      | none => .error (.unknownTensorId id)
      | some index => (graph.locateTensors rest).map (index :: ·)

def subgraphSizeAt (graph : Graph) (wanted : List Nat) : Except GraphError PartSize :=
  (graph.reachability wanted).map Reachability.size

def subgraphSize (graph : Graph) (wanted : List TensorId) : Except GraphError PartSize := do
  graph.subgraphSizeAt (← graph.locateTensors wanted)

def subgraphAt (graph : Graph) (wanted : List Nat) (capacity : Capacity) :
    Except GraphError Graph := do
  let reachability ← graph.reachability wanted
  build (keepMarked graph.tensorList reachability.tensors)
    (keepMarked graph.operationList reachability.operations) capacity

def subgraph (graph : Graph) (wanted : List TensorId) (capacity : Capacity) :
    Except GraphError Graph := do
  graph.subgraphAt (← graph.locateTensors wanted) capacity

/-- The part that the named tensors depend on, with the capacity that just fits it. -/
def subgraphExact (graph : Graph) (wanted : List TensorId) : Except GraphError Graph := do
  let positions ← graph.locateTensors wanted
  let size ← graph.subgraphSizeAt positions
  graph.subgraphAt positions size.capacity

def boundary (graph : Graph) : Boundary where
  inputs := (graph.tensors.zipIdx.filter fun entry => entry.1.producer.isNone).map fun entry =>
    entry.2
  outputs := (graph.tensors.zipIdx.filter fun entry => entry.1.consumers.isEmpty).map fun entry =>
    entry.2

def boundarySize (graph : Graph) : Nat × Nat :=
  (graph.tensors.countP fun node => node.producer.isNone,
    graph.tensors.countP fun node => node.consumers.isEmpty)

end Graph

end TensorGraph
