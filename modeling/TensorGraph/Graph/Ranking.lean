import TensorGraph.Limits

/-!
Ranks of the nodes of a dependency relation. A node lists its sources: one entry for each thing it
reads, holding the node that provides it, if any node does. Its rank is the number of its sources
plus the ranks of the nodes among them, so a node ranks above everything it depends on unless the
rank has reached the largest machine word; then the depth still does.
-/

namespace TensorGraph

abbrev Sources := List (List (Option Nat))

structure Ranking where
  rank : Nat
  /-- Length of the longest chain of nodes leading here. -/
  depth : Nat
  deriving DecidableEq, Repr

namespace Ranking

/-- The ranking that sorts nodes: the depth matters only where the rank is saturated. -/
def key (ranking : Ranking) : Nat × Nat :=
  (ranking.rank, if ranking.rank = Limit.word then ranking.depth else 0)

def ofSources (sources : List (Option Ranking)) : Ranking where
  rank := (sources.filterMap id).foldl (fun total source => saturatingAdd total source.rank)
    (min sources.length Limit.word)
  depth := (sources.filterMap id).foldl (fun deepest source => max deepest (source.depth + 1)) 0

end Ranking

abbrev Rankings := List (Option Ranking)

namespace Rankings

def get? (known : Rankings) (node : Nat) : Option Ranking := (known[node]?).join

/-- Looks up one source: nothing if its node has no ranking yet. -/
def source? (known : Rankings) : Option Nat → Option (Option Ranking)
  | none => some none
  | some node => (known.get? node).map some

def ofNode? (known : Rankings) (sources : List (Option Nat)) : Option Ranking :=
  (sources.mapM known.source?).map Ranking.ofSources

def settle (sources : Sources) : Nat → Rankings → Rankings
  | 0, known => known
  | rounds + 1, known =>
      let next := sources.map known.ofNode?
      if next = known then known else settle sources rounds next

end Rankings

/-- Rankings of all nodes; nodes that depend on a cycle have none. -/
def rankings (sources : Sources) : Rankings :=
  Rankings.settle sources sources.length (sources.map fun _ => none)

end TensorGraph
