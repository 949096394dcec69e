import TensorGraph.CompactGraph
import TensorGraph.Memory.Split

/-!
Memory for the tensors of a graph: one pool for each element type, just large enough. The tensors of
a type follow one another in its pool in the order in which the graph lists them.
-/

namespace TensorGraph

/-- Where a tensor lies in the pool of its element type, counted in elements. -/
structure TensorSlot where
  elementType : ElementType
  offset : Nat
  length : Nat
  deriving DecidableEq, Repr

namespace TensorSlot

def span (slot : TensorSlot) : Span := ⟨slot.offset, slot.offset + slot.length⟩

def byteOffset (slot : TensorSlot) : Nat := slot.offset * slot.elementType.byteSize

end TensorSlot

def elementsTaken (slots : List TensorSlot) (elementType : ElementType) : Nat :=
  total ((slots.filter fun slot => slot.elementType = elementType).map TensorSlot.length)

/-- Places tensors behind the slots given out before. -/
def placeFrom : List TensorSlot → List Tensor → Except ExecutionError (List TensorSlot)
  | slots, [] => .ok slots
  | slots, tensor :: rest =>
      let elementType := tensor.elementType
      if elementType.hasPool then
        let offset := elementsTaken slots elementType
        if offset + tensor.elementCount ≤ Limit.addressableBytes / elementType.byteSize then
          placeFrom (slots ++ [⟨elementType, offset, tensor.elementCount⟩]) rest
        else
          .error (.poolOverflow tensor.id elementType)
      else
        .error (.unsupportedElementType tensor.id elementType)

structure Store where
  pools : (elementType : ElementType) → List (Element elementType)
  slots : List TensorSlot

namespace Store

def ofGraph (graph : CompactGraph) : Except ExecutionError Store := do
  let slots ← placeFrom [] graph.tensors
  return ⟨fun elementType => List.replicate (elementsTaken slots elementType) 0, slots⟩

def poolLength (store : Store) (elementType : ElementType) : Nat :=
  (store.pools elementType).length

def totalBytes (store : Store) : Nat :=
  total (ElementType.all.map fun elementType =>
    store.poolLength elementType * elementType.byteSize)

def slot (store : Store) (index : Nat) : Except ExecutionError TensorSlot :=
  match store.slots[index]? with
  | some slot => .ok slot
  | none => .error (.tensorIndexOutOfBounds index store.slots.length)

def typedSpan (store : Store) (elementType : ElementType) (index : Nat) :
    Except ExecutionError Span := do
  let slot ← store.slot index
  if slot.elementType = elementType then
    return slot.span
  else
    throw (.elementTypeMismatch slot.elementType elementType)

def withPool (store : Store) (elementType : ElementType) (pool : List (Element elementType)) :
    Store :=
  { store with
    pools := fun other =>
      if same : elementType = other then same ▸ pool else store.pools other }

def read (store : Store) (elementType : ElementType) (index : Nat) :
    Except ExecutionError (List (Element elementType)) := do
  let span ← store.typedSpan elementType index
  return span.view (store.pools elementType)

def write (store : Store) (elementType : ElementType) (index : Nat)
    (data : List (Element elementType)) : Except ExecutionError Store := do
  let span ← store.typedSpan elementType index
  if span.length = data.length then
    return store.withPool elementType (span.patch data (store.pools elementType))
  else
    throw (.dataLength index span.length data.length)

def spans (store : Store) : List Nat → Except ExecutionError (List Span)
  | [] => .ok []
  | index :: rest => do
      let slot ← store.slot index
      let others ← store.spans rest
      return slot.span :: others

def operands (store : Store) (operation : CompactOperation) :
    Except ExecutionError (Views (Element operation.elementType)) := do
  let inputs ← store.spans operation.inputs
  let outputs ← store.spans operation.outputs
  if operation.elementType.hasPool then
    match splitPool (store.pools operation.elementType) inputs outputs with
    | .ok views => return views
    | .error fault => throw (.splitFailed fault)
  else
    throw (.unsupportedOperation operation.id operation.kind operation.elementType)

def withOutputs (store : Store) (operation : CompactOperation)
    (contents : List (List (Element operation.elementType))) : Store :=
  let outputs := operation.outputs.filterMap fun index =>
    (store.slots[index]?).map TensorSlot.span
  store.withPool operation.elementType
    (joinPool (store.pools operation.elementType) outputs contents)

end Store

end TensorGraph
