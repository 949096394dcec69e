import TensorGraph.Graph.Connections
import TensorGraph.Guarded

/-!
Positions entered operation by operation. Each operation notes the positions of the tensors it names,
and each of these tensors notes the operation.
-/

namespace TensorGraph

namespace Indices

/-- Position of the last tensor with the given name. -/
def place? (tensors : List Tensor) (name : TensorId) : Option Nat :=
  (Connections.positions (fun tensor : Tensor => tensor.id = name) tensors).getLast?

abbrev Noted := List TensorNode × List Nat

def noteInput (tensors : List Tensor) (operation : Operation) (index : Nat) (noted : Noted)
    (name : TensorId) : Guarded GraphError Noted :=
  match place? tensors name with
  | none => Guarded.plain (.error (.unresolvedTensor operation.id name))
  | some place => do
      let node ← Guarded.access noted.1[place]?
      if index ∈ node.consumers then Guarded.plain (.ok (noted.1, noted.2 ++ [place]))
      else do
        Guarded.plain (checkWithin .fanOut Limit.fanOut (node.consumers.length + 1))
        let reader := { node with consumers := node.consumers ++ [index] }
        Guarded.plain (.ok (noted.1.set place reader, noted.2 ++ [place]))

def noteOutput (tensors : List Tensor) (operations : List Operation) (operation : Operation)
    (index : Nat) (noted : Noted) (name : TensorId) : Guarded GraphError Noted :=
  match place? tensors name with
  | none => Guarded.plain (.error (.unresolvedTensor operation.id name))
  | some place => do
      let node ← Guarded.access noted.1[place]?
      match node.producer with
      | some first => do
          let earlier ← Guarded.access operations[first]?
          Guarded.plain (.error (.multipleProducers name earlier.id operation.id))
      | none =>
          let writer := { node with producer := some index }
          Guarded.plain (.ok (noted.1.set place writer, noted.2 ++ [place]))

def enter (tensors : List Tensor) (operations : List Operation)
    (entered : List TensorNode × List OperationNode) (operation : Operation) :
    Guarded GraphError (List TensorNode × List OperationNode) :=
  if operation.isGroup then
    Guarded.plain (.ok (entered.1, entered.2 ++ [⟨operation, [], []⟩]))
  else do
    let index := entered.2.length
    let (read, inputs) ←
      operation.inputs.foldlM (noteInput tensors operation index) (entered.1, [])
    let (written, outputs) ←
      operation.outputs.foldlM (noteOutput tensors operations operation index) (read, [])
    Guarded.plain (.ok (written, entered.2 ++ [⟨operation, inputs, outputs⟩]))

def generate (tensors : List Tensor) (operations : List Operation) :
    Guarded GraphError (List TensorNode × List OperationNode) :=
  operations.foldlM (enter tensors operations) (tensors.map fun tensor => ⟨tensor, none, []⟩, [])

end Indices

end TensorGraph
