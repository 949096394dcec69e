import TensorGraph.Entries
import TensorGraph.Graph.Build

/-!
Deduplication of symbols. Tensors are merged by id. An operation that computes the same as an
earlier one is dropped, and its id is redirected to the one that stays.
-/

namespace TensorGraph

/-- A number computed from a signature, by which most operations can be told apart quickly. Equal
fingerprints decide nothing. -/
abbrev Fingerprint := Signature → UInt64

namespace Fingerprint

def mix (fingerprint number : UInt64) : UInt64 := (fingerprint ^^^ number) * 0x100000001B3

def standard : Fingerprint := fun signature =>
  let pinned : UInt64 := if signature.kind = .group true then 1 else 0
  let counts := [signature.kind.ctorIdx, signature.inputs.length, signature.outputs.length]
  (pinned :: counts.map UInt64.ofNat ++ signature.inputs.map UInt32.toUInt64 ++
    signature.outputs.map UInt32.toUInt64).foldl mix 0xCBF29CE484222325

end Fingerprint

abbrev Redirects := List (UInt32 × OperationId)

namespace Redirects

def insert (redirects : Redirects) (key : UInt32) (survivor : OperationId) : Redirects :=
  Entries.insert (fun left right => left < right) key survivor redirects

def get? (redirects : Redirects) (key : UInt32) : Option OperationId := redirects.lookup key

end Redirects

/-- Deduplicated symbols, ready to be built into a graph. -/
structure Resolution where
  tensors : List Tensor
  operations : List Operation
  /-- For every operation given, the id of the one that stays in its place. -/
  redirects : Redirects
  /-- Number of operations dropped as duplicates. -/
  merged : Nat
  deriving DecidableEq

namespace Resolution

def redirect? (resolution : Resolution) (key : UInt32) : Option OperationId :=
  resolution.redirects.get? key

def toGraph (resolution : Resolution) (capacity : Capacity) : Except GraphError Graph :=
  Graph.build resolution.tensors resolution.operations capacity

end Resolution

structure KeptOperation where
  fingerprint : UInt64
  operation : Operation
  deriving DecidableEq

structure Deduplication where
  tensors : List Tensor
  kept : List KeptOperation
  /-- For every operation id seen, the id of the operation that stays. -/
  owners : Redirects
  merged : Nat
  deriving DecidableEq

namespace Deduplication

def empty : Deduplication := ⟨[], [], [], 0⟩

def operations (state : Deduplication) : List Operation :=
  state.kept.map KeptOperation.operation

def addTensor (capacity : Capacity) (state : Deduplication) (tensor : Tensor) :
    Except GraphError Deduplication :=
  match state.tensors.find? fun known => known.id = tensor.id with
  | some known =>
      if known = tensor then .ok state else .error (.conflictingTensor tensor.id)
  | none => do
      checkWithin .tensors capacity.tensors.toNat (state.tensors.length + 1)
      return { state with tensors := state.tensors ++ [tensor] }

def survivor? (fingerprint : Fingerprint) (state : Deduplication) (operation : Operation) :
    Option OperationId :=
  (state.kept.find? fun kept =>
    kept.fingerprint = fingerprint operation.signature &&
      kept.operation.sameComputation operation).map fun kept => kept.operation.id

/-- Adds an operation; the result names the operation that stays in its place. -/
def addOperation (fingerprint : Fingerprint) (capacity : Capacity) (state : Deduplication)
    (operation : Operation) : Except GraphError (OperationId × Deduplication) :=
  let owner := state.owners.get? operation.id
  match state.survivor? fingerprint operation with
  | some survivor =>
      if owner.any (· ≠ survivor) then .error (.conflictingOperation operation.id)
      else .ok (survivor, {
        state with
        owners := state.owners.insert operation.id survivor
        merged := state.merged + 1 })
  | none =>
      if owner.isSome then .error (.conflictingOperation operation.id)
      else do
        checkWithin .operations capacity.operations.toNat (state.kept.length + 1)
        return (operation.id, {
          state with
          owners := state.owners.insert operation.id operation.id
          kept := state.kept ++ [⟨fingerprint operation.signature, operation⟩] })

def absorb (fingerprint : Fingerprint) (capacity : Capacity) (state : Deduplication)
    (operation : Operation) : Except GraphError Deduplication :=
  (state.addOperation fingerprint capacity operation).map fun added => added.2

end Deduplication

namespace Resolution

/-- Deduplicates tensors and operations. Members of groups are named by the operations that
stay. -/
def ofListsWith (fingerprint : Fingerprint) (capacity : Capacity) (tensors : List Tensor)
    (operations : List Operation) : Except GraphError Resolution := do
  let withTensors ← tensors.foldlM (Deduplication.addTensor capacity) .empty
  let state ← operations.foldlM (Deduplication.absorb fingerprint capacity) withTensors
  let rename (member : OperationId) : OperationId := (state.owners.get? member).getD member
  return {
    tensors := state.tensors
    operations := state.operations.map (Operation.mapMembers rename)
    redirects := state.owners
    merged := state.merged }

def ofLists (capacity : Capacity) (tensors : List Tensor) (operations : List Operation) :
    Except GraphError Resolution :=
  ofListsWith .standard capacity tensors operations

end Resolution

end TensorGraph
