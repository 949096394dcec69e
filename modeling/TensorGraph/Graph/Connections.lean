import TensorGraph.Graph

/-!
Connecting operations with the tensors they name. Each tensor is written by at most one operation
and read by at most `Limit.fanOut` operations; group markers take no part.
-/

namespace TensorGraph

namespace Operation

def reads (operation : Operation) (tensor : TensorId) : Bool :=
  !operation.isGroup && tensor ∈ operation.inputs

def writes (operation : Operation) (tensor : TensorId) : Bool :=
  !operation.isGroup && tensor ∈ operation.outputs

end Operation

namespace Connections

def positions {α : Type} (condition : α → Bool) (items : List α) : List Nat :=
  (items.zipIdx.filter fun entry => condition entry.1).map fun entry => entry.2

def readers (operations : List Operation) (tensor : TensorId) : List Nat :=
  positions (fun operation => operation.reads tensor) operations

def writers (operations : List Operation) (tensor : TensorId) : List Nat :=
  positions (fun operation => operation.writes tensor) operations

/-- Checks the inputs of an operation in turn; `listed` ends with the operation itself. -/
def checkInputs (tensors : List TensorId) (listed : List Operation) (operation : OperationId) :
    List TensorId → Except GraphError Unit
  | [] => .ok ()
  | input :: rest =>
      if input ∈ tensors then do
        checkWithin .fanOut Limit.fanOut (readers listed input).length
        checkInputs tensors listed operation rest
      else
        .error (.unresolvedTensor operation input)

def checkOutputs (tensors : List TensorId) (earlier : List Operation) (operation : OperationId) :
    List TensorId → Except GraphError Unit
  | [] => .ok ()
  | output :: rest =>
      if output ∈ tensors then
        match earlier.find? fun other => other.writes output with
        | some first => .error (.multipleProducers output first.id operation)
        | none => checkOutputs tensors earlier operation rest
      else
        .error (.unresolvedTensor operation output)

def checkFrom (tensors : List TensorId) :
    List Operation → List Operation → Except GraphError Unit
  | _, [] => .ok ()
  | earlier, operation :: rest => do
      let listed := earlier ++ [operation]
      if !operation.isGroup then
        checkInputs tensors listed operation.id operation.inputs
        checkOutputs tensors earlier operation.id operation.outputs
      checkFrom tensors listed rest

def check (tensors : List Tensor) (operations : List Operation) : Except GraphError Unit :=
  checkFrom (tensors.map fun tensor => tensor.id) [] operations

def tensorNode (operations : List Operation) (tensor : Tensor) : TensorNode where
  tensor
  producer := (writers operations tensor.id).head?
  consumers := readers operations tensor.id

/-- Positions of the named tensors; names without a tensor are passed over. -/
def locate (tensors : List Tensor) (names : List TensorId) : List Nat :=
  names.filterMap fun name => tensors.findIdx? fun tensor => tensor.id = name

def operationNode (tensors : List Tensor) (operation : Operation) : OperationNode where
  operation
  inputs := if operation.isGroup then [] else locate tensors operation.inputs
  outputs := if operation.isGroup then [] else locate tensors operation.outputs

end Connections

end TensorGraph
