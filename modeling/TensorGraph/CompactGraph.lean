import TensorGraph.Graph.Order

/-!
The compact form of an ordered graph: exactly its tensors and its operations without group
markers, beside the sizes that memory is laid out from.
-/

namespace TensorGraph

/-- How many tensors of one element type there are, and how many elements they hold together. -/
structure ElementUsage where
  elementType : ElementType
  tensors : Nat
  elements : Nat
  deriving DecidableEq, Repr

def ElementUsage.bytes (usage : ElementUsage) : Nat :=
  saturatingMul usage.elements usage.elementType.byteSize

structure Metadata where
  maxInputs : Nat
  maxOutputs : Nat
  maxFanOut : Nat
  operations : Nat
  tensors : Nat
  /-- One entry for each element type, in their order. -/
  usages : List ElementUsage
  deriving DecidableEq

namespace Metadata

def usage (metadata : Metadata) (elementType : ElementType) : ElementUsage :=
  metadata.usages[elementType.index]?.getD ⟨elementType, 0, 0⟩

def used (metadata : Metadata) : List ElementUsage :=
  metadata.usages.filter fun usage => 0 < usage.tensors

def totalBytes (metadata : Metadata) : Nat :=
  metadata.usages.foldl (fun total usage => saturatingAdd total usage.bytes) 0

end Metadata

def greatest (numbers : List Nat) : Nat := numbers.foldl max 0

def usageOf (tensors : List Tensor) (elementType : ElementType) : ElementUsage :=
  let sameType := tensors.filter fun tensor => tensor.elementType = elementType
  { elementType
    tensors := sameType.length
    elements := sameType.foldl (fun total tensor => saturatingAdd total tensor.elementCount) 0 }

structure CompactOperation where
  id : OperationId
  kind : OperationKind
  elementType : ElementType
  inputs : List Nat
  outputs : List Nat
  parameters : Parameters
  deriving DecidableEq

structure CompactGraph where
  metadata : Metadata
  tensors : List Tensor
  operations : List CompactOperation
  deriving DecidableEq

namespace Graph

def executable (graph : Graph) : List OperationNode :=
  graph.operations.filter fun node => !node.operation.isGroup

def metadata (graph : Graph) : Metadata where
  maxInputs := greatest (graph.executable.map fun node => node.inputs.length)
  maxOutputs := greatest (graph.executable.map fun node => node.outputs.length)
  maxFanOut := greatest (graph.tensors.map fun node => node.consumers.length)
  operations := graph.executable.length
  tensors := graph.tensors.length
  usages := ElementType.all.map (usageOf graph.tensorList)

/-- First element type among the given tensors that differs from the one expected. -/
def typeMismatch (graph : Graph) (expected : ElementType) (tensors : List Nat) :
    Option ElementType :=
  (tensors.filterMap fun tensor =>
    graph.tensors[tensor]?.map fun node => node.tensor.elementType).find? (· ≠ expected)

def compactOperation (graph : Graph) (node : OperationNode) :
    Except GraphError CompactOperation :=
  let operation := node.operation
  match operation.elementType with
  | none => .error (.invalidOperation operation.id operation.kind .missingElementType)
  | some elementType =>
      match graph.typeMismatch elementType (node.inputs ++ node.outputs) with
      | some actual => .error (.elementTypeMismatch elementType actual)
      | none =>
          .ok {
            id := operation.id
            kind := operation.kind
            elementType
            inputs := node.inputs
            outputs := node.outputs
            parameters := operation.parameters }

/-- The compact form. The operations have to be in order, and each has to share its element type
with every tensor that it reads or writes. -/
def compact (graph : Graph) : Except GraphError CompactGraph := do
  graph.checkOrder
  let operations ← graph.executable.mapM graph.compactOperation
  return { metadata := graph.metadata, tensors := graph.tensorList, operations }

end Graph

end TensorGraph
