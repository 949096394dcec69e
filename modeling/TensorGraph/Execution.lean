import TensorGraph.Kernel.Call
import TensorGraph.Memory.Store

/-!
Running a graph: its operations are handed to a set of kernels one after the other, each on the
contents that the ones before it left in memory.
-/

namespace TensorGraph

structure Dispatch where
  position : Nat
  operation : OperationId
  kind : OperationKind
  elementType : ElementType
  inputs : List TensorId
  outputs : List TensorId
  deriving DecidableEq, Repr

/-- State after running operations: the store as they left it, what was handed to the kernels, and
why the run stopped early, if it did. -/
structure Run where
  store : Store
  dispatched : List Dispatch
  error : Option ExecutionError

namespace CompactGraph

def descriptors (graph : CompactGraph) : List Nat → Except ExecutionError (List Tensor)
  | [] => .ok []
  | index :: rest =>
      match graph.tensors[index]? with
      | none => .error (.tensorIndexOutOfBounds index graph.tensors.length)
      | some tensor => do
          let others ← graph.descriptors rest
          return tensor :: others

def call (graph : CompactGraph) (store : Store) (position : Nat) (operation : CompactOperation) :
    Except ExecutionError (KernelCall operation.elementType) := do
  let inputs ← graph.descriptors operation.inputs
  let outputs ← graph.descriptors operation.outputs
  let contents ← store.operands operation
  return {
    position
    operation := operation.id
    kind := operation.kind
    inputs
    outputs
    parameters := operation.parameters
    contents }

def checkSupported (graph : CompactGraph) (kernels : KernelSet) : Except ExecutionError Unit :=
  match graph.operations.find? fun operation =>
      !kernels.supports operation.kind operation.elementType with
  | some operation =>
      .error (.unsupportedOperation operation.id operation.kind operation.elementType)
  | none => .ok ()

def runFrom (graph : CompactGraph) (kernels : KernelSet) :
    Nat → List CompactOperation → Store → Run
  | _, [], store => ⟨store, [], none⟩
  | position, operation :: rest, store =>
      match graph.call store position operation with
      | .error error => ⟨store, [], some error⟩
      | .ok call =>
          let outcome := kernels.execute operation.elementType call
          let written := store.withOutputs operation outcome.outputs
          let dispatch : Dispatch := {
            position
            operation := operation.id
            kind := operation.kind
            elementType := operation.elementType
            inputs := call.inputs.map Tensor.id
            outputs := call.outputs.map Tensor.id }
          match outcome.error with
          | some error => ⟨written, [dispatch], some error⟩
          | none =>
              let run := graph.runFrom kernels (position + 1) rest written
              { run with dispatched := dispatch :: run.dispatched }

def run (graph : CompactGraph) (kernels : KernelSet) (store : Store) : Run :=
  match graph.checkSupported kernels with
  | .error error => ⟨store, [], some error⟩
  | .ok _ => graph.runFrom kernels 0 graph.operations store

end CompactGraph

structure Executor where
  graph : CompactGraph
  store : Store
  kernels : KernelSet

namespace Executor

def create (graph : CompactGraph) (kernels : KernelSet) : Except ExecutionError Executor := do
  let store ← Store.ofGraph graph
  return ⟨graph, store, kernels⟩

def validate (executor : Executor) : Except ExecutionError Unit :=
  executor.graph.checkSupported executor.kernels

def run (executor : Executor) : Run :=
  executor.graph.run executor.kernels executor.store

def after (executor : Executor) (run : Run) : Executor := { executor with store := run.store }

def tensorIndex (executor : Executor) (id : TensorId) : Except ExecutionError Nat :=
  match executor.graph.tensors.findIdx? fun tensor => tensor.id = id with
  | some index => .ok index
  | none => .error (.graph (.unknownTensorId id))

def readAt (executor : Executor) (elementType : ElementType) (index : Nat) :
    Except ExecutionError (List (Element elementType)) :=
  executor.store.read elementType index

def writeAt (executor : Executor) (elementType : ElementType) (index : Nat)
    (data : List (Element elementType)) : Except ExecutionError Executor := do
  let store ← executor.store.write elementType index data
  return { executor with store }

def read (executor : Executor) (elementType : ElementType) (id : TensorId) :
    Except ExecutionError (List (Element elementType)) := do
  let index ← executor.tensorIndex id
  executor.readAt elementType index

def write (executor : Executor) (elementType : ElementType) (id : TensorId)
    (data : List (Element elementType)) : Except ExecutionError Executor := do
  let index ← executor.tensorIndex id
  executor.writeAt elementType index data

end Executor

end TensorGraph
