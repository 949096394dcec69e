import TensorGraph.Graph.DepthFirst

/-!
Blocks read off the slots of a graph, and their keys. The slots alone tell where each block starts and
how many operations it has; each operation is then given the block it belongs to, and each block what
it reads from others.
-/

namespace TensorGraph

structure Extent where
  start : Nat
  count : Nat
  pinned : Bool
  isGroup : Bool
  deriving DecidableEq

/-- Blocks of some slots of which the first `taken` belong to the block before. -/
def extentsFrom (start : Nat) : Nat → List Slot → List Extent
  | _, [] => []
  | taken + 1, _ :: rest => extentsFrom (start + 1) taken rest
  | 0, .header members pinned :: rest =>
      ⟨start, members + 1, pinned, true⟩ :: extentsFrom (start + 1) members rest
  | 0, _ :: rest => ⟨start, 1, false, false⟩ :: extentsFrom (start + 1) 0 rest

namespace Extent

def slice? {α : Type} (extent : Extent) (items : List α) : Option (List α) :=
  if extent.start + extent.count ≤ items.length then
    some ((items.drop extent.start).take extent.count)
  else none

def enter? (owners : List Nat) (extent : Extent) (block : Nat) : Option (List Nat) :=
  if extent.start + extent.count ≤ owners.length then
    some (owners.take extent.start ++ List.replicate extent.count block ++
      owners.drop (extent.start + extent.count))
  else none

end Extent

def ownersOf? (operations : Nat) (extents : List Extent) : Option (List Nat) :=
  extents.zipIdx.foldlM (fun owners entry => Extent.enter? owners entry.1 entry.2)
    (List.replicate operations 0)

namespace Graph

def extents (graph : Graph) : List Extent := extentsFrom 0 0 graph.slots

/-- The block an input comes from; nothing at all if the block at `position` provides it itself. -/
def sourceOf? (graph : Graph) (owners : List Nat) (position tensor : Nat) :
    Option (Option (Option Nat)) := do
  let node ← graph.tensors[tensor]?
  match node.producer with
  | none => return some none
  | some producer =>
      let owner ← owners[producer]?
      return if owner = position then none else some (some owner)

def externalOf? (graph : Graph) (owners : List Nat) (position : Nat) (extent : Extent) :
    Option (List (Option Nat)) := do
  let nodes ← extent.slice? graph.operations
  let entries ← (nodes.flatMap OperationNode.inputs).mapM (graph.sourceOf? owners position)
  return entries.filterMap id

/-- What each block reads from others, as far as all places looked up exist. -/
def externals? (graph : Graph) : Option Sources := do
  let owners ← ownersOf? graph.operations.length graph.extents
  graph.extents.zipIdx.mapM fun entry => graph.externalOf? owners entry.2 entry.1

def blockKeys (graph : Graph) : Except GraphError (List (Nat × Nat)) :=
  graph.blockRankings.map fun found => found.map Ranking.key

/-- The first group on a path of blocks that comes back to itself. -/
def blame? (graph : Graph) (path : List Nat) : Option GraphError := do
  let extents ← path.mapM fun position => graph.extents[position]?
  match extents.find? Extent.isGroup with
  | none => return .cyclicGraph
  | some extent =>
      let node ← graph.operations[extent.start]?
      return .invalidGroup node.operation.id .notContiguous

def searchBlockKeys (graph : Graph) : Guarded GraphError (List (Nat × Nat)) := do
  let sources ← Guarded.access graph.externals?
  match ExceptT.run (DepthFirst.search sources) with
  | none => Guarded.access none
  | some (.error path) => do
      let failure ← Guarded.access (graph.blame? path)
      Guarded.plain (.error failure)
  | some (.ok known) =>
      Guarded.plain (.ok (known.map fun ranking => (ranking.getD ⟨0, 0⟩).key))

end Graph

end TensorGraph
