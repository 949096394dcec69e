import TensorGraph.Graph.Blocks
import TensorGraph.Guarded

/-!
Ranking nodes depth first. A path is kept from a root to the node that is ranked next; a node is
ranked once all its sources are, and a source that is on the path already closes a circle.
-/

namespace TensorGraph

structure DepthFirst where
  known : Rankings
  /-- Flags of the nodes that were visited and are not ranked yet. -/
  onPath : List Bool
  /-- The way back to the root, from the node that is visited next. -/
  path : List Nat

namespace DepthFirst

def entriesAt (sources : Sources) (node : Nat) : List (Option Nat) := sources[node]?.getD []

def rankingFrom (known : Rankings) (entries : List (Option Nat)) : Ranking :=
  Ranking.ofSources (entries.map fun entry => entry.map fun node => (known.get? node).getD ⟨0, 0⟩)

/-- One turn, at the node in front of the path. Fails with the path when it comes back to itself. -/
def visit (sources : Sources) (search : DepthFirst) (node : Nat) (below : List Nat) :
    Except (List Nat) DepthFirst :=
  if (search.known.get? node).isSome then
    .ok { search with path := below }
  else
    let onPath := search.onPath.set node true
    match search.known.unrankedSource? (entriesAt sources node) with
    | some next =>
        if onPath[next]?.getD false then .error (node :: below).reverse
        else .ok ⟨search.known, onPath, next :: node :: below⟩
    | none =>
        let ranking := rankingFrom search.known (entriesAt sources node)
        .ok ⟨search.known.set node (some ranking), onPath.set node false, below⟩

def explore (sources : Sources) (turns : Nat) (search : DepthFirst) :
    Guarded (List Nat) DepthFirst :=
  match search.path, turns with
  | [], _ => Guarded.plain (.ok search)
  | _ :: _, 0 => Guarded.access none
  | node :: below, turns + 1 => do
      let next ← Guarded.plain (search.visit sources node below)
      explore sources turns next

def exploreAll (sources : Sources) (turns : Nat) : List Nat → DepthFirst →
    Guarded (List Nat) DepthFirst
  | [], search => Guarded.plain (.ok search)
  | root :: rest, search => do
      let explored ← explore sources turns { search with path := [root] }
      exploreAll sources turns rest explored

def start (sources : Sources) : DepthFirst where
  known := sources.map fun _ => none
  onPath := sources.map fun _ => false
  path := []

def turnLimit (sources : Sources) : Nat := 3 * sources.length + 1

def search (sources : Sources) : Guarded (List Nat) Rankings := do
  let found ← exploreAll sources (turnLimit sources) (List.range sources.length) (start sources)
  return found.known

end DepthFirst

end TensorGraph
