import TensorGraph.Graph.Order

/-!
Blocks: the units that an ordering moves. A block is a free operation, or a group marker with its
members. A block depends on another when it reads what the other writes; what a block reads from
itself does not count.
-/

namespace TensorGraph

structure Block where
  start : Nat
  nodes : List OperationNode
  deriving DecidableEq

namespace Block

def marker? (block : Block) : Option Operation := do
  let node ← block.nodes.head?
  if node.operation.isGroup then some node.operation else none

def isPinned (block : Block) : Bool := block.marker?.any Operation.isPinned

end Block

/-- Splits operations whose groups are arranged into blocks; the first `taken` of them are members
that the block before holds already. -/
def blocksFrom (start : Nat) : Nat → List OperationNode → List Block
  | _, [] => []
  | taken + 1, _ :: rest => blocksFrom (start + 1) taken rest
  | 0, node :: rest =>
      let members := (node.operation.members?.getD []).length
      ⟨start, node :: rest.take members⟩ :: blocksFrom (start + 1) members rest

namespace Graph

def blocks (graph : Graph) : List Block := blocksFrom 0 0 graph.operations

def blockOwners (blocks : List Block) : List Nat :=
  blocks.zipIdx.flatMap fun entry => entry.1.nodes.map fun _ => entry.2

def blockSourcesAt (graph : Graph) (owners : List Nat) (position : Nat) (block : Block) :
    List (Option Nat) :=
  (block.nodes.flatMap OperationNode.inputs).filterMap fun tensor =>
    match graph.producer? tensor with
    | none => some none
    | some producer =>
        let owner := owners[producer]?.getD 0
        if owner = position then none else some (some owner)

def blockSources (graph : Graph) : Sources :=
  let owners := blockOwners graph.blocks
  graph.blocks.zipIdx.map fun entry => graph.blockSourcesAt owners entry.2 entry.1

end Graph

namespace Rankings

def unrankedSource? (known : Rankings) (sources : List (Option Nat)) : Option Nat :=
  (sources.filterMap id).find? fun node => (known.get? node).isNone

/-- Follows the first unranked source of each node until a node comes back. -/
def unrankedPath (sources : Sources) (known : Rankings) :
    Nat → List Nat → Nat → List Nat
  | 0, path, _ => path
  | steps + 1, path, node =>
      if node ∈ path then path
      else match known.unrankedSource? (sources[node]?.getD []) with
        | none => path ++ [node]
        | some next => unrankedPath sources known steps (path ++ [node]) next

end Rankings

namespace Graph

/-- Why the blocks cannot be put in order: the first group on the way from the first block that
has no ranking into a circle of blocks. -/
def blockedBy (graph : Graph) (known : Rankings) : GraphError :=
  let blocks := graph.blocks
  let path := match known.findIdx? Option.isNone with
    | some first => Rankings.unrankedPath graph.blockSources known (blocks.length + 1) [] first
    | none => []
  match path.findSome? fun position => (blocks[position]?).bind Block.marker? with
  | some marker => .invalidGroup marker.id .notContiguous
  | none => .cyclicGraph

def blockRankings (graph : Graph) : Except GraphError (List Ranking) :=
  let known := rankings graph.blockSources
  match known.mapM id with
  | some found => .ok found
  | none => .error (graph.blockedBy known)

end Graph

end TensorGraph
