import TensorGraph.Graph.Build

/-! Whether every producer stands before its consumers. -/

namespace TensorGraph

/-- An operation that reads a tensor at or before the position of the tensor's producer. -/
structure OrderViolation where
  consumer : Nat
  tensor : Nat
  producer : Nat
  deriving DecidableEq, Repr

namespace Graph

def violation? (graph : Graph) (consumer tensor : Nat) : Option OrderViolation :=
  match graph.producer? tensor with
  | some producer => if consumer ≤ producer then some ⟨consumer, tensor, producer⟩ else none
  | none => none

def violationsAt (graph : Graph) (consumer : Nat) (node : OperationNode) : List OrderViolation :=
  node.inputs.filterMap (graph.violation? consumer)

def orderViolations (graph : Graph) : List OrderViolation :=
  graph.operations.zipIdx.flatMap fun entry => graph.violationsAt entry.2 entry.1

def checkReads (graph : Graph) (position : Nat) (consumer : OperationId) :
    List Nat → Except GraphError Unit
  | [] => .ok ()
  | tensor :: rest =>
      match graph.producer? tensor with
      | none => graph.checkReads position consumer rest
      | some producer =>
          if position ≤ producer then
            .error (.scheduleViolation (graph.operationId producer) consumer)
          else
            graph.checkReads position consumer rest

def checkOrderFrom (graph : Graph) (position : Nat) : List OperationNode → Except GraphError Unit
  | [] => .ok ()
  | node :: rest => do
      graph.checkReads position node.operation.id node.inputs
      graph.checkOrderFrom (position + 1) rest

/-- Fails at the first consumer that does not follow its producer, without looking any further. -/
def checkOrder (graph : Graph) : Except GraphError Unit := graph.checkOrderFrom 0 graph.operations

def isOrdered (graph : Graph) : Bool := graph.checkOrder.isOk

end Graph

end TensorGraph
