import TensorGraph.Graph.Blocks
import TensorGraph.StableSort

/-!
Putting a graph into execution order. Blocks are sorted by rank within each run between pinned
blocks, which keep their positions; blocks of equal rank keep their order.
-/

namespace TensorGraph

namespace Schedule

/-- Sorts each run between pinned items, given the items of the run that is open. -/
def sortRuns {α : Type} (pinned : α → Bool) (key : α → Nat × Nat) : List α → List α → List α
  | run, [] => StableSort.sort key run
  | run, item :: rest =>
      if pinned item then StableSort.sort key run ++ item :: sortRuns pinned key [] rest
      else sortRuns pinned key (run ++ [item]) rest

def arrange (blocks : List Block) (rankings : List Ranking) : List Block :=
  (sortRuns (fun entry => entry.1.isPinned) (fun entry => entry.2.key) []
    (blocks.zip rankings)).map fun entry => entry.1

end Schedule

namespace Graph

/-- The graph with its operations in execution order. Fails when a group cannot stay together, or
when a pinned group stands on the wrong side of an operation. -/
def sorted (graph : Graph) : Except GraphError Graph := do
  let rankings ← graph.blockRankings
  let blocks := Schedule.arrange graph.blocks rankings
  let operations := blocks.flatMap fun block => block.nodes.map OperationNode.operation
  let result ← build graph.tensorList operations graph.capacity
  result.checkOrder
  return result

end Graph

end TensorGraph
