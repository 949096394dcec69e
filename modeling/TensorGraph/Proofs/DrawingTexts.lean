import Mathlib.Data.List.Basic
import TensorGraph.Proofs.DrawingNames

/-!
Texts of drawings. A text is put together line by line from words with blanks between them, and is
taken apart into these words again. The text of a graph reads as the drawing of this graph, so that
graphs have the same text exactly when they have the same drawing.
-/

namespace TensorGraph

/-- What the text of a drawing says: the names of boxes and circles in order, and the sources of
edges with their targets. -/
structure Drawing where
  boxes : List String
  circles : List String
  edges : List (String × List String)
  deriving DecidableEq, Repr

namespace Drawing

def wordLines (text : String) : List (List String) :=
  (text.toList.splitOn '\n').map fun line => (line.splitOn ' ').map String.ofList

def boxShape : String := "[shape=box,color=aliceblue,style=\"filled,rounded\"];"

def circleShape : String := "[shape=circle,color=lavender,style=\"filled,rounded\"];"

def nodeWords (shape name : String) : List String := ["", "", name, shape]

def edgeWords (source : String) (targets : List String) : List String :=
  "" :: "" :: source :: "->" :: "\x7b" :: (targets ++ ["\x7d;"])

def node? (shape : String) : List String → Option String
  | [first, second, name, given] =>
      if first = "" ∧ second = "" ∧ given = shape then some name else none
  | _ => none

def edges? : List String → Option (String × List String)
  | first :: second :: source :: arrow :: opening :: targets =>
      if first = "" ∧ second = "" ∧ arrow = "->" ∧ opening = "\x7b" ∧
          targets.getLast? = some "\x7d;" then
        some (source, targets.dropLast)
      else none
  | _ => none

def header : List (List String) := [["digraph", "G", "\x7b"], ["", "", "rankdir=\"LR\""]]

def words (drawing : Drawing) : List (List String) :=
  header ++ drawing.boxes.map (nodeWords boxShape) ++
    drawing.circles.map (nodeWords circleShape) ++
    drawing.edges.map (fun edge => edgeWords edge.1 edge.2) ++ [["\x7d"]]

def isUnderstood (line : List String) : Bool :=
  line ∈ header ++ [["\x7d"], [""]] || (node? boxShape line).isSome ||
    (node? circleShape line).isSome || (edges? line).isSome

/-- Reads a drawing. Lines of any other form are not accepted. -/
def ofWords? (lines : List (List String)) : Option Drawing :=
  if lines.all isUnderstood then
    some {
      boxes := lines.filterMap (node? boxShape)
      circles := lines.filterMap (node? circleShape)
      edges := lines.filterMap edges? }
  else none

def read? (text : String) : Option Drawing := ofWords? (wordLines text)

def Leads (drawing : Drawing) (source target : String) : Prop :=
  ∃ targets, (source, targets) ∈ drawing.edges ∧ target ∈ targets

section Lines

def line (words : List String) : List Char := [' '].intercalate (words.map String.toList) ++ ['\n']

theorem flatMap_line (lines : List (List String)) :
    lines.flatMap line = ['\n'].intercalate
      (lines.map (fun words => [' '].intercalate (words.map String.toList)) ++ [[]]) := by
  rw [intercalate_snoc, List.append_nil, List.flatMap_map]
  rfl

def IsWord (word : String) : Prop := ' ' ∉ word.toList ∧ '\n' ∉ word.toList

instance (word : String) : Decidable (IsWord word) :=
  inferInstanceAs (Decidable (' ' ∉ word.toList ∧ '\n' ∉ word.toList))

theorem isWord_boxShape : IsWord boxShape := by decide +kernel

theorem isWord_circleShape : IsWord circleShape := by decide +kernel

theorem isWord_of_mem_nodeWords {shape name word : String} (shapeIsWord : IsWord shape)
    (nameIsWord : IsWord name) (listed : word ∈ nodeWords shape name) : IsWord word := by
  simp only [nodeWords, List.mem_cons, List.not_mem_nil, or_false] at listed
  rcases listed with rfl | rfl | rfl | rfl
  · decide
  · decide
  · exact nameIsWord
  · exact shapeIsWord

theorem isWord_of_mem_edgeWords {source word : String} {targets : List String}
    (sourceIsWord : IsWord source) (targetsAreWords : ∀ target ∈ targets, IsWord target)
    (listed : word ∈ edgeWords source targets) : IsWord word := by
  simp only [edgeWords, List.mem_cons, List.mem_append, List.not_mem_nil, or_false] at listed
  rcases listed with rfl | rfl | rfl | rfl | rfl | isTarget | rfl
  · decide
  · decide
  · exact sourceIsWord
  · decide
  · decide
  · exact targetsAreWords word isTarget
  · decide

/-- Lines that are put together from words are taken apart into these. -/
theorem wordLines_eq {text : String} {lines : List (List String)}
    (made : text.toList = lines.flatMap line) (filled : ∀ words ∈ lines, words ≠ [])
    (areWords : ∀ words ∈ lines, ∀ word ∈ words, IsWord word) :
    wordLines text = lines ++ [[""]] := by
  have split : text.toList.splitOn '\n' =
      lines.map (fun words => [' '].intercalate (words.map String.toList)) ++ [[]] := by
    rw [made, flatMap_line]
    apply List.splitOn_intercalate
    · intro given listed
      rcases List.mem_append.mp listed with inLines | isLast
      · obtain ⟨words, present, rfl⟩ := List.mem_map.mp inLines
        refine not_mem_intercalate (by decide) fun part isPart => ?_
        obtain ⟨word, inside, rfl⟩ := List.mem_map.mp isPart
        exact (areWords words present word inside).2
      · rw [List.mem_singleton.mp isLast]
        exact List.not_mem_nil
    · simp
  rw [wordLines, split, List.map_append, List.map_map]
  congr 1
  conv_rhs => rw [← List.map_id lines]
  refine List.map_congr_left fun words listed => ?_
  have back : ([' '].intercalate (words.map String.toList)).splitOn ' ' =
      words.map String.toList := by
    apply List.splitOn_intercalate
    · intro given isPart
      obtain ⟨word, inside, rfl⟩ := List.mem_map.mp isPart
      exact (areWords words listed word inside).1
    · simpa using filled words listed
  rw [Function.comp_apply, back, List.map_map]
  simp [Function.comp_def]

end Lines

section Reading

theorem node?_nodeWords (shape other name : String) :
    node? shape (nodeWords other name) = if other = shape then some name else none := by
  simp [node?, nodeWords]

theorem node?_edgeWords (shape source : String) (targets : List String) :
    node? shape (edgeWords source targets) = none := by
  rw [edgeWords, node?]
  simp

theorem edges?_nodeWords (shape name : String) : edges? (nodeWords shape name) = none := rfl

theorem edges?_edgeWords (source : String) (targets : List String) :
    edges? (edgeWords source targets) = some (source, targets) := by
  simp [edges?, edgeWords]

theorem all_isUnderstood (drawing : Drawing) :
    (drawing.words ++ [[""]]).all isUnderstood = true := by
  simp [words, isUnderstood, header, node?_nodeWords, edges?_edgeWords]

theorem ofWords?_words (drawing : Drawing) : ofWords? (drawing.words ++ [[""]]) = some drawing := by
  have circleNotBox : circleShape ≠ boxShape := by decide
  have noNode : ∀ shape, header.filterMap (node? shape) = [] := fun _ => rfl
  have noEdges : header.filterMap edges? = [] := rfl
  have noNodeAlone : ∀ shape word, List.filterMap (node? shape) [[word]] = [] := fun _ _ => rfl
  have noEdgesAlone : ∀ word, List.filterMap edges? [[word]] = [] := fun _ => rfl
  rw [ofWords?, if_pos drawing.all_isUnderstood, words]
  simp only [List.filterMap_append, List.filterMap_map, Function.comp_def, node?_nodeWords,
    node?_edgeWords, edges?_nodeWords, edges?_edgeWords, circleNotBox, circleNotBox.symm, if_true,
    if_false, noNode, noEdges]
  simp [noNodeAlone, noEdgesAlone]

end Reading

end Drawing

namespace Graph

open Drawing (line nodeWords edgeWords boxShape circleShape)

variable {graph other : Graph}

def drawing (graph : Graph) : Drawing where
  boxes := (List.range graph.tensors.length).map graph.tensorLabel
  circles := (List.range graph.operations.length).filterMap graph.operationLabel?
  edges := (graph.tensors.zipIdx.map fun entry =>
      (graph.tensorLabel entry.2, entry.1.consumers.filterMap graph.operationLabel?)) ++
    graph.operations.zipIdx.filterMap fun entry => (graph.operationLabel? entry.2).map fun label =>
      (label, entry.1.outputs.map graph.tensorLabel)

theorem toList_nodeLine {shape ending : String} (label : String)
    (ends : ending.toList = ' ' :: (shape.toList ++ ['\n'])) :
    ("  " ++ label ++ ending).toList = line (nodeWords shape label) := by
  have indent : "  ".toList = [' ', ' '] := rfl
  simp [line, nodeWords, ends, indent, List.intercalate]

theorem toList_tensorLine (label : String) :
    (tensorLine label).toList = line (nodeWords boxShape label) :=
  toList_nodeLine label rfl

theorem toList_operationLine (label : String) :
    (operationLine label).toList = line (nodeWords circleShape label) :=
  toList_nodeLine label rfl

theorem toList_edgeLine (source : String) (targets : List String) :
    (edgeLine source targets).toList = line (edgeWords source targets) := by
  have indent : "  ".toList = [' ', ' '] := rfl
  have arrow : " -> \x7b ".toList = [' ', '-', '>', ' ', '\x7b', ' '] := rfl
  have ending : "\x7d;\n".toList = ['\x7d', ';', '\n'] := rfl
  have blank : " ".toList = [' '] := rfl
  have words : (edgeWords source targets).map String.toList =
      ([[], [], source.toList, ['-', '>'], ['\x7b']] ++ targets.map String.toList) ++
        [['\x7d', ';']] := by
    rw [edgeWords]
    simp
  rw [line, words, intercalate_snoc, edgeLine]
  simp [indent, arrow, ending, blank, List.flatMap_map]

theorem tensorLines_eq (graph : Graph) :
    graph.tensorLines = graph.drawing.boxes.map tensorLine := by
  rw [tensorLines, drawing, List.map_map]
  rfl

theorem operationLines_eq (graph : Graph) :
    graph.operationLines = graph.drawing.circles.map operationLine := by
  rw [operationLines, drawing, List.map_filterMap]

theorem edgeLines_eq (graph : Graph) : graph.readLines ++ graph.writeLines =
    graph.drawing.edges.map fun edge => edgeLine edge.1 edge.2 := by
  rw [drawing, List.map_append, List.map_map, List.map_filterMap, readLines, writeLines]
  simp only [Option.map_map, Function.comp_def]

theorem toList_dot (graph : Graph) :
    (graph.dot {}).toList = graph.drawing.words.flatMap line := by
  have header : (dotHeader {}).toList = Drawing.header.flatMap line := rfl
  have footer : "\x7d\n".toList = line ["\x7d"] := rfl
  have joined : ∀ (make : String → String) (words : String → List String) (names : List String),
      (∀ name, (make name).toList = line (words name)) →
      (String.join (names.map make)).toList = (names.map words).flatMap line := by
    intro make words names same
    rw [String.toList_join, List.flatMap_map, List.flatMap_map]
    exact List.flatMap_congr fun name _ => same name
  have edges : (String.join graph.readLines).toList ++ (String.join graph.writeLines).toList =
      (graph.drawing.edges.map fun edge => edgeWords edge.1 edge.2).flatMap line := by
    rw [String.toList_join, String.toList_join, ← List.flatMap_append, edgeLines_eq,
      List.flatMap_map, List.flatMap_map]
    exact List.flatMap_congr fun edge _ => toList_edgeLine edge.1 edge.2
  rw [dot, Drawing.words]
  simp only [String.toList_append, header, footer, tensorLines_eq, operationLines_eq,
    joined _ _ _ toList_tensorLine, joined _ _ _ toList_operationLine, List.flatMap_append,
    List.flatMap_cons, List.flatMap_nil, ← edges, List.append_assoc, List.append_nil]

theorem isWord_tensorLabel (graph : Graph) (tensor : Nat) :
    Drawing.IsWord (graph.tensorLabel tensor) :=
  ⟨not_mem_tensorLabel (by decide) (by decide) tensor,
    not_mem_tensorLabel (by decide) (by decide) tensor⟩

theorem isWord_operationLabel {operation : Nat} {name : String}
    (named : graph.operationLabel? operation = some name) : Drawing.IsWord name :=
  ⟨not_mem_operationLabel (by decide) (by decide) named,
    not_mem_operationLabel (by decide) (by decide) named⟩

theorem isWord_of_mem_words {words : List String} (listed : words ∈ graph.drawing.words) :
    words ≠ [] ∧ ∀ word ∈ words, Drawing.IsWord word := by
  simp only [Drawing.words, Drawing.header, drawing, List.mem_append, List.mem_map, List.mem_cons, List.not_mem_nil,
    or_false] at listed
  rcases listed with (((((rfl | rfl) | inBoxes) | inCircles) | inEdges) | rfl)
  · decide
  · decide
  · obtain ⟨_, ⟨tensor, _, rfl⟩, rfl⟩ := inBoxes
    exact ⟨List.cons_ne_nil _ _, fun word =>
      Drawing.isWord_of_mem_nodeWords Drawing.isWord_boxShape (graph.isWord_tensorLabel tensor)⟩
  · obtain ⟨name, isCircle, rfl⟩ := inCircles
    obtain ⟨operation, _, named⟩ := List.mem_filterMap.mp isCircle
    exact ⟨List.cons_ne_nil _ _, fun word =>
      Drawing.isWord_of_mem_nodeWords Drawing.isWord_circleShape (isWord_operationLabel named)⟩
  · obtain ⟨_, inReads | inWrites, rfl⟩ := inEdges
    · obtain ⟨⟨node, tensor⟩, _, rfl⟩ := inReads
      refine ⟨List.cons_ne_nil _ _, fun word =>
        Drawing.isWord_of_mem_edgeWords (graph.isWord_tensorLabel tensor) ?_⟩
      intro target isTarget
      obtain ⟨operation, _, named⟩ := List.mem_filterMap.mp isTarget
      exact isWord_operationLabel named
    · obtain ⟨⟨node, operation⟩, _, made⟩ := List.mem_filterMap.mp inWrites
      obtain ⟨label, named, rfl⟩ := Option.map_eq_some_iff.mp made
      refine ⟨List.cons_ne_nil _ _, fun word =>
        Drawing.isWord_of_mem_edgeWords (isWord_operationLabel named) ?_⟩
      intro target isTarget
      obtain ⟨tensor, _, rfl⟩ := List.mem_map.mp isTarget
      exact graph.isWord_tensorLabel tensor
  · decide

theorem read?_dot (graph : Graph) : Drawing.read? (graph.dot {}) = some graph.drawing := by
  have lines := Drawing.wordLines_eq graph.toList_dot
    (fun words listed => (isWord_of_mem_words listed).1)
    (fun words listed => (isWord_of_mem_words listed).2)
  rw [Drawing.read?, lines, Drawing.ofWords?_words]

theorem dot_eq_iff : graph.dot {} = other.dot {} ↔ graph.drawing = other.drawing := by
  constructor
  · intro same
    exact Option.some.inj (by rw [← read?_dot, same, read?_dot])
  · intro same
    rw [← String.toList_inj, toList_dot, toList_dot, same]

end Graph

end TensorGraph
