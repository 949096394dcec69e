import TensorGraph.Graph.Build

/-!
Drawing a graph in the DOT language. Tensors are boxes named by id and position. Operations are
circles named by id, position and either their rank or, with a suffix that tells whether their
group is pinned, the position of their marker. Markers are not drawn.
-/

namespace TensorGraph

structure DotOptions where
  name : String := "G"
  direction : String := "LR"

namespace Graph

def tensorLabel (graph : Graph) (tensor : Nat) : String := s!"T{graph.tensorId tensor}_{tensor}"

def operationLabel? (graph : Graph) (operation : Nat) : Option String :=
  let id := graph.operationId operation
  match graph.slots[operation]? with
  | some (.free rank) => some s!"OP{id}_{operation}_{rank}"
  | some (.member header true) => some s!"OP{id}_{operation}_{header}_t"
  | some (.member header false) => some s!"OP{id}_{operation}_{header}_f"
  | _ => none

def tensorLine (label : String) : String :=
  "  " ++ label ++ " [shape=box,color=aliceblue,style=\"filled,rounded\"];\n"

def operationLine (label : String) : String :=
  "  " ++ label ++ " [shape=circle,color=lavender,style=\"filled,rounded\"];\n"

/-- One line per source of edges, also where no edge starts. -/
def edgeLine (source : String) (targets : List String) : String :=
  "  " ++ source ++ " -> \x7b " ++ String.join (targets.map (· ++ " ")) ++ "\x7d;\n"

def dotHeader (options : DotOptions) : String :=
  "digraph " ++ options.name ++ " \x7b\n  rankdir=\"" ++ options.direction ++ "\"\n"

def tensorLines (graph : Graph) : List String :=
  (List.range graph.tensors.length).map fun tensor => tensorLine (graph.tensorLabel tensor)

def operationLines (graph : Graph) : List String :=
  (List.range graph.operations.length).filterMap fun operation =>
    (graph.operationLabel? operation).map operationLine

def readLines (graph : Graph) : List String :=
  graph.tensors.zipIdx.map fun entry =>
    edgeLine (graph.tensorLabel entry.2) (entry.1.consumers.filterMap graph.operationLabel?)

def writeLines (graph : Graph) : List String :=
  graph.operations.zipIdx.filterMap fun entry =>
    (graph.operationLabel? entry.2).map fun label =>
      edgeLine label (entry.1.outputs.map graph.tensorLabel)

def dot (graph : Graph) (options : DotOptions) : String :=
  dotHeader options ++ String.join graph.tensorLines ++ String.join graph.operationLines ++
    String.join graph.readLines ++ String.join graph.writeLines ++ "\x7d\n"

end Graph

end TensorGraph
