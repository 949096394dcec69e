import TensorGraph.Resolution

/-! The flat input form: a list of tensors beside a list of operations. -/

namespace TensorGraph

/-- Symbols in the order in which they were added, never more than the capacity allows. -/
structure SymbolTable where
  capacity : Capacity
  tensors : List Tensor
  operations : List Operation
  deriving DecidableEq

namespace SymbolTable

def empty (capacity : Capacity) : SymbolTable := ⟨capacity, [], []⟩

def pushTensor (symbols : SymbolTable) (tensor : Tensor) :
    Except GraphError (Nat × SymbolTable) := do
  checkWithin .tensors symbols.capacity.tensors.toNat (symbols.tensors.length + 1)
  return (symbols.tensors.length, { symbols with tensors := symbols.tensors ++ [tensor] })

def pushOperation (symbols : SymbolTable) (operation : Operation) :
    Except GraphError (Nat × SymbolTable) := do
  checkWithin .operations symbols.capacity.operations.toNat (symbols.operations.length + 1)
  return (symbols.operations.length,
    { symbols with operations := symbols.operations ++ [operation] })

def resolveWithin (symbols : SymbolTable) (capacity : Capacity) : Except GraphError Resolution :=
  Resolution.ofLists capacity symbols.tensors symbols.operations

def resolve (symbols : SymbolTable) : Except GraphError Resolution :=
  symbols.resolveWithin symbols.capacity

def toGraph (symbols : SymbolTable) : Except GraphError Graph := do
  let resolution ← symbols.resolve
  resolution.toGraph symbols.capacity

end SymbolTable

end TensorGraph
