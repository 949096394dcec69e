import TensorGraph.Execution
import TensorGraph.Kernel.Guarded
import TensorGraph.Memory.Cutting

/-!
Runs with every access guarded, from the cuts that separate the operands within a pool to the
kernels.
-/

namespace TensorGraph

namespace Guarded

def operands (store : Store) (operation : CompactOperation) :
    Guarded ExecutionError (Views (Element operation.elementType)) := do
  let inputs ← plain (store.spans operation.inputs)
  let outputs ← plain (store.spans operation.outputs)
  if operation.elementType.hasPool then
    let split ← access (splitPool? (store.pools operation.elementType) inputs outputs)
    match split with
    | .ok views => return views
    | .error fault => throw (.splitFailed fault)
  else
    throw (.unsupportedOperation operation.id operation.kind operation.elementType)

def call (graph : CompactGraph) (store : Store) (position : Nat) (operation : CompactOperation) :
    Guarded ExecutionError (KernelCall operation.elementType) := do
  let inputs ← plain (graph.descriptors operation.inputs)
  let outputs ← plain (graph.descriptors operation.outputs)
  let contents ← operands store operation
  return {
    position
    operation := operation.id
    kind := operation.kind
    inputs
    outputs
    parameters := operation.parameters
    contents }

def runFrom (graph : CompactGraph) : Nat → List CompactOperation → Store → Option Run
  | _, [], store => some ⟨store, [], none⟩
  | position, operation :: rest, store => do
      let made ← ExceptT.run (call graph store position operation)
      match made with
      | .error error => return ⟨store, [], some error⟩
      | .ok handed =>
          let outcome ← execute handed
          let written := store.withOutputs operation outcome.outputs
          let dispatch : Dispatch := {
            position
            operation := operation.id
            kind := operation.kind
            elementType := operation.elementType
            inputs := handed.inputs.map Tensor.id
            outputs := handed.outputs.map Tensor.id }
          match outcome.error with
          | some error => return ⟨written, [dispatch], some error⟩
          | none =>
              let run ← runFrom graph (position + 1) rest written
              return { run with dispatched := dispatch :: run.dispatched }

def run (graph : CompactGraph) (store : Store) : Option Run :=
  match graph.checkSupported .standard with
  | .error error => some ⟨store, [], some error⟩
  | .ok _ => runFrom graph 0 graph.operations store

end Guarded

end TensorGraph
