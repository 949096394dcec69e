import Mathlib.Data.List.Nodup
import TensorGraph.Graph.Indices
import TensorGraph.Proofs.Connections
import TensorGraph.Proofs.Guarded
import TensorGraph.Proofs.Operations

/-!
Positions entered operation by operation. Each operation notes the positions of the tensors it names,
and each of these tensors notes the operation. What results is linked in both directions, whatever is
given, and it is what connecting all operations at once results in.
-/

namespace TensorGraph

def ReadsAt (operations : List OperationNode) (position tensor : Nat) : Prop :=
  ∃ node, operations[position]? = some node ∧ tensor ∈ node.inputs

def WritesAt (operations : List OperationNode) (position tensor : Nat) : Prop :=
  ∃ node, operations[position]? = some node ∧ tensor ∈ node.outputs

structure Linked (tensors : List TensorNode) (operations : List OperationNode) : Prop where
  inputsInside : ∀ node ∈ operations, ∀ tensor ∈ node.inputs, tensor < tensors.length
  outputsInside : ∀ node ∈ operations, ∀ tensor ∈ node.outputs, tensor < tensors.length
  producer : ∀ (tensor : Nat) (node : TensorNode), tensors[tensor]? = some node →
    ∀ position, node.producer = some position ↔ WritesAt operations position tensor
  consumers : ∀ (tensor : Nat) (node : TensorNode), tensors[tensor]? = some node →
    ∀ position, position ∈ node.consumers ↔ ReadsAt operations position tensor
  readOnce : ∀ node ∈ tensors, node.consumers.Nodup
  writtenOnce : ∀ node ∈ operations, node.outputs.Nodup
  markers : ∀ node ∈ operations, node.operation.isGroup = true →
    node.inputs = [] ∧ node.outputs = []

section Linking

variable {tensors : List TensorNode} {operations : List OperationNode} {operation : Operation}
  {inputs outputs : List Nat}

theorem exists_getElem?_snoc {α : Type} {items : List α} {last : α} {condition : α → Prop}
    {position : Nat} :
    (∃ item, (items ++ [last])[position]? = some item ∧ condition item) ↔
      (∃ item, items[position]? = some item ∧ condition item) ∨
        (position = items.length ∧ condition last) := by
  constructor
  · rintro ⟨item, found, holds⟩
    rcases eq_of_getElem?_snoc found with before | ⟨atEnd, rfl⟩
    · exact Or.inl ⟨item, before, holds⟩
    · exact Or.inr ⟨atEnd, holds⟩
  · rintro (⟨item, found, holds⟩ | ⟨rfl, holds⟩)
    · exact ⟨item, List.getElem?_append_left (List.getElem?_eq_some_iff.mp found).1 ▸ found, holds⟩
    · exact ⟨last, List.getElem?_concat_length, holds⟩

theorem readsAt_snoc {last : OperationNode} {position tensor : Nat} :
    ReadsAt (operations ++ [last]) position tensor ↔
      ReadsAt operations position tensor ∨
        (position = operations.length ∧ tensor ∈ last.inputs) :=
  exists_getElem?_snoc

theorem writesAt_snoc {last : OperationNode} {position tensor : Nat} :
    WritesAt (operations ++ [last]) position tensor ↔
      WritesAt operations position tensor ∨
        (position = operations.length ∧ tensor ∈ last.outputs) :=
  exists_getElem?_snoc

theorem eq_of_getElem?_set {α : Type} {items : List α} {place position : Nat} {fresh item : α}
    (found : (items.set place fresh)[position]? = some item) :
    (position = place ∧ item = fresh) ∨ (position ≠ place ∧ items[position]? = some item) := by
  by_cases same : position = place
  · subst same
    rw [List.getElem?_set_self'] at found
    obtain ⟨_, _, rfl⟩ := Option.map_eq_some_iff.mp found
    exact Or.inl ⟨rfl, rfl⟩
  · rw [List.getElem?_set_ne (Ne.symm same)] at found
    exact Or.inr ⟨same, found⟩

theorem forall_mem_snoc {α : Type} {items : List α} {last : α} {condition : α → Prop} :
    (∀ item ∈ items ++ [last], condition item) ↔
      (∀ item ∈ items, condition item) ∧ condition last := by
  rw [List.forall_mem_append, List.forall_mem_singleton]

theorem forall_mem_exchanged {α : Type} {items : List α} {last fresh : α} {condition : α → Prop}
    (all : ∀ item ∈ items ++ [last], condition item) (kept : condition last → condition fresh) :
    ∀ item ∈ items ++ [fresh], condition item :=
  forall_mem_snoc.mpr ((forall_mem_snoc.mp all).imp_right kept)

namespace Linked

theorem start (tensors : List Tensor) :
    Linked (tensors.map fun tensor => ⟨tensor, none, []⟩) [] where
  inputsInside := by simp
  outputsInside := by simp
  producer := fun tensor node found position => by
    obtain ⟨_, _, rfl⟩ := List.getElem?_map .. ▸ found |> Option.map_eq_some_iff.mp
    simp [WritesAt]
  consumers := fun tensor node found position => by
    obtain ⟨_, _, rfl⟩ := List.getElem?_map .. ▸ found |> Option.map_eq_some_iff.mp
    simp [ReadsAt]
  readOnce := by simp
  writtenOnce := by simp
  markers := by simp

theorem snoc (linked : Linked tensors operations) (operation : Operation) :
    Linked tensors (operations ++ [⟨operation, [], []⟩]) where
  inputsInside := forall_mem_snoc.mpr ⟨linked.inputsInside, by simp⟩
  outputsInside := forall_mem_snoc.mpr ⟨linked.outputsInside, by simp⟩
  producer := fun tensor node found position => by
    simp [writesAt_snoc, linked.producer tensor node found position]
  consumers := fun tensor node found position => by
    simp [readsAt_snoc, linked.consumers tensor node found position]
  readOnce := linked.readOnce
  writtenOnce := forall_mem_snoc.mpr ⟨linked.writtenOnce, List.nodup_nil⟩
  markers := forall_mem_snoc.mpr ⟨linked.markers, fun _ => ⟨rfl, rfl⟩⟩

variable {place : Nat} {node : TensorNode}

theorem read (linked : Linked tensors (operations ++ [⟨operation, inputs, outputs⟩]))
    (plain : operation.isGroup = false) (found : tensors[place]? = some node)
    (fresh : operations.length ∉ node.consumers) :
    Linked (tensors.set place { node with consumers := node.consumers ++ [operations.length] })
      (operations ++ [⟨operation, inputs ++ [place], outputs⟩]) where
  inputsInside := by
    have bound := (List.getElem?_eq_some_iff.mp found).1
    rw [List.length_set]
    exact forall_mem_exchanged linked.inputsInside fun last => forall_mem_snoc.mpr ⟨last, bound⟩
  outputsInside := by
    rw [List.length_set]
    exact forall_mem_exchanged linked.outputsInside id
  producer := fun tensor other listed position => by
    rw [writesAt_snoc]
    rcases eq_of_getElem?_set listed with ⟨rfl, rfl⟩ | ⟨_, listedBefore⟩
    · exact (linked.producer tensor node found position).trans writesAt_snoc
    · exact (linked.producer tensor other listedBefore position).trans writesAt_snoc
  consumers := fun tensor other listed position => by
    rw [readsAt_snoc]
    rcases eq_of_getElem?_set listed with ⟨rfl, rfl⟩ | ⟨different, listedBefore⟩
    · have before := linked.consumers tensor node found position
      rw [readsAt_snoc] at before
      simp only [List.mem_append, List.mem_singleton, before]
      tauto
    · have before := linked.consumers tensor other listedBefore position
      rw [readsAt_snoc] at before
      simpa [different] using before
  readOnce := fun other member => by
    rcases List.mem_or_eq_of_mem_set member with before | rfl
    · exact linked.readOnce other before
    · have once := linked.readOnce node (List.mem_of_getElem? found)
      simpa using List.Nodup.concat fresh once
  writtenOnce := forall_mem_exchanged linked.writtenOnce id
  markers := forall_mem_exchanged linked.markers fun _ isGroup => absurd isGroup (by simp [plain])

theorem readAgain (linked : Linked tensors (operations ++ [⟨operation, inputs, outputs⟩]))
    (plain : operation.isGroup = false) (found : tensors[place]? = some node)
    (known : operations.length ∈ node.consumers) :
    Linked tensors (operations ++ [⟨operation, inputs ++ [place], outputs⟩]) where
  inputsInside := by
    have bound := (List.getElem?_eq_some_iff.mp found).1
    exact forall_mem_exchanged linked.inputsInside fun last => forall_mem_snoc.mpr ⟨last, bound⟩
  outputsInside := forall_mem_exchanged linked.outputsInside id
  producer := fun tensor other listed position => by
    rw [writesAt_snoc]
    exact (linked.producer tensor other listed position).trans writesAt_snoc
  consumers := fun tensor other listed position => by
    have before := linked.consumers tensor other listed position
    rw [readsAt_snoc] at before ⊢
    rw [before, List.mem_append, List.mem_singleton]
    refine or_congr_right (and_congr_right fun atEnd => ⟨Or.inl, ?_⟩)
    rintro (member | rfl)
    · exact member
    · -- The tensor lists the operation already, so this is not the first time it is noted.
      have isReader := (linked.consumers tensor node found operations.length).mp known
      rcases readsAt_snoc.mp isReader with ⟨reader, outside, _⟩ | ⟨_, member⟩
      · rw [List.getElem?_eq_none (Nat.le_refl _)] at outside
        cases outside
      · exact member
  readOnce := linked.readOnce
  writtenOnce := forall_mem_exchanged linked.writtenOnce id
  markers := forall_mem_exchanged linked.markers fun _ isGroup => absurd isGroup (by simp [plain])

theorem write (linked : Linked tensors (operations ++ [⟨operation, inputs, outputs⟩]))
    (plain : operation.isGroup = false) (found : tensors[place]? = some node)
    (free : node.producer = none) :
    Linked (tensors.set place { node with producer := some operations.length })
      (operations ++ [⟨operation, inputs, outputs ++ [place]⟩]) where
  inputsInside := by
    rw [List.length_set]
    exact forall_mem_exchanged linked.inputsInside id
  outputsInside := by
    have bound := (List.getElem?_eq_some_iff.mp found).1
    rw [List.length_set]
    exact forall_mem_exchanged linked.outputsInside fun last => forall_mem_snoc.mpr ⟨last, bound⟩
  producer := fun tensor other listed position => by
    rw [writesAt_snoc]
    rcases eq_of_getElem?_set listed with ⟨rfl, rfl⟩ | ⟨different, listedBefore⟩
    · have before := linked.producer tensor node found position
      rw [free, writesAt_snoc] at before
      have unwritten : ¬(WritesAt operations position tensor ∨
          (position = operations.length ∧ tensor ∈ outputs)) := fun writes => by
        cases before.mpr writes
      rw [Option.some.injEq, List.mem_append, List.mem_singleton]
      tauto
    · have before := linked.producer tensor other listedBefore position
      rw [writesAt_snoc] at before
      simpa [different] using before
  consumers := fun tensor other listed position => by
    rw [readsAt_snoc]
    rcases eq_of_getElem?_set listed with ⟨rfl, rfl⟩ | ⟨_, listedBefore⟩
    · exact (linked.consumers tensor node found position).trans readsAt_snoc
    · exact (linked.consumers tensor other listedBefore position).trans readsAt_snoc
  readOnce := fun other member => by
    rcases List.mem_or_eq_of_mem_set member with before | rfl
    · exact linked.readOnce other before
    · exact linked.readOnce node (List.mem_of_getElem? found)
  writtenOnce := forall_mem_exchanged linked.writtenOnce fun once => by
    have fresh : place ∉ outputs := fun listed => by
      have writes := (linked.producer place node found operations.length).mpr
        (writesAt_snoc.mpr (Or.inr ⟨rfl, listed⟩))
      rw [free] at writes
      cases writes
    simpa using List.Nodup.concat fresh once
  markers := forall_mem_exchanged linked.markers fun _ isGroup => absurd isGroup (by simp [plain])

end Linked

end Linking

namespace Indices

open Guarded (Agrees)

variable {tensors : List Tensor} {operations : List Operation} {operation : Operation}
  {nodes others : List TensorNode} {earlier : List OperationNode} {inputs outputs noted : List Nat}

theorem linked_of_noteInput {name : TensorId}
    (notes : Agrees (noteInput tensors operation earlier.length (nodes, inputs) name)
      (.ok (others, noted)))
    (plain : operation.isGroup = false)
    (linked : Linked nodes (earlier ++ [⟨operation, inputs, outputs⟩])) :
    Linked others (earlier ++ [⟨operation, noted, outputs⟩]) := by
  rw [noteInput] at notes
  split at notes
  · cases Agrees.plain_iff.mp notes
  · obtain ⟨node, found, next⟩ := Agrees.bind_ok_iff.mp notes
    rw [Agrees.access_iff] at found
    split at next
    · rename_i known
      cases Agrees.plain_iff.mp next
      exact linked.readAgain plain found known
    · rename_i fresh
      obtain ⟨_, _, rest⟩ := Agrees.bind_ok_iff.mp next
      cases Agrees.plain_iff.mp rest
      exact linked.read plain found fresh

theorem linked_of_noteOutput {name : TensorId}
    (notes : Agrees (noteOutput tensors operations operation earlier.length (nodes, outputs) name)
      (.ok (others, noted)))
    (plain : operation.isGroup = false)
    (linked : Linked nodes (earlier ++ [⟨operation, inputs, outputs⟩])) :
    Linked others (earlier ++ [⟨operation, inputs, noted⟩]) := by
  rw [noteOutput] at notes
  split at notes
  · cases Agrees.plain_iff.mp notes
  · obtain ⟨node, found, next⟩ := Agrees.bind_ok_iff.mp notes
    rw [Agrees.access_iff] at found
    split at next
    · obtain ⟨_, _, fails⟩ := Agrees.bind_ok_iff.mp next
      cases Agrees.plain_iff.mp fails
    · rename_i free
      cases Agrees.plain_iff.mp next
      exact linked.write plain found free

theorem linked_of_enter {entered next : List TensorNode × List OperationNode}
    (enters : Agrees (enter tensors operations entered operation) (.ok next))
    (linked : Linked entered.1 entered.2) : Linked next.1 next.2 := by
  rw [enter] at enters
  split at enters
  · cases Agrees.plain_iff.mp enters
    exact linked.snoc operation
  · rename_i notGroup
    have plain : operation.isGroup = false := by simpa using notGroup
    obtain ⟨⟨read, inputs⟩, reading, rest⟩ := Agrees.bind_ok_iff.mp enters
    obtain ⟨⟨written, outputs⟩, writing, last⟩ := Agrees.bind_ok_iff.mp rest
    cases Agrees.plain_iff.mp last
    have afterReading : Linked read (entered.2 ++ [⟨operation, inputs, []⟩]) :=
      Agrees.foldlM_invariant (fun noted => Linked noted.1 (entered.2 ++ [⟨operation, noted.2, []⟩]))
        (fun _ _ _ notes => linked_of_noteInput notes plain) reading (linked.snoc operation)
    exact Agrees.foldlM_invariant
      (fun noted => Linked noted.1 (entered.2 ++ [⟨operation, inputs, noted.2⟩]))
      (fun _ _ _ notes => linked_of_noteOutput notes plain) writing afterReading

theorem linked_of_generate {entered : List TensorNode × List OperationNode}
    (generated : Agrees (generate tensors operations) (.ok entered)) :
    Linked entered.1 entered.2 :=
  Agrees.foldlM_invariant (fun entered => Linked entered.1 entered.2) (fun _ _ _ => linked_of_enter)
    generated (Linked.start tensors)

section Agreement

open Connections

theorem place?_eq (unique : (tensors.map Tensor.id).Nodup) (name : TensorId) :
    place? tensors name = tensors.findIdx? fun tensor => tensor.id = name := by
  cases found : place? tensors name with
  | none =>
      rw [place?, List.getLast?_eq_none_iff] at found
      refine Eq.symm (List.findIdx?_eq_none_iff.mpr fun tensor member => ?_)
      obtain ⟨position, listed⟩ := List.mem_iff_getElem?.mp member
      by_contra same
      have present : position ∈ positions (fun tensor : Tensor => tensor.id = name) tensors :=
        mem_positions.mpr ⟨tensor, listed, by simpa using same⟩
      rw [found] at present
      cases present
  | some place =>
      obtain ⟨tensor, listed, same⟩ := mem_positions.mp (List.mem_of_getLast? found)
      obtain ⟨bound, here⟩ := List.getElem?_eq_some_iff.mp listed
      refine Eq.symm (List.findIdx?_eq_some_iff_getElem.mpr ⟨bound, by rwa [here], ?_⟩)
      intro other before otherSame
      have sameId : tensors[other].id = tensor.id := by
        rw [of_decide_eq_true otherSame, of_decide_eq_true same]
      have samePlace := position_eq_of_id_eq unique
        (List.getElem?_eq_getElem (Nat.lt_trans before bound)) listed sameId
      omega

/-- A tensor when an operation behind `earlier` has noted some of its inputs and outputs. -/
def partway (earlier : List Operation) (read written : List TensorId) (tensor : Tensor) :
    TensorNode where
  tensor
  producer := (writers earlier tensor.id).head?.or
    (if tensor.id ∈ written then some earlier.length else none)
  consumers := readers earlier tensor.id ++ if tensor.id ∈ read then [earlier.length] else []

theorem partway_nil (earlier : List Operation) : partway earlier [] [] = tensorNode earlier := by
  funext tensor
  simp [partway, tensorNode]

theorem partway_all (earlier : List Operation) (plain : operation.isGroup = false) :
    partway earlier operation.inputs operation.outputs = tensorNode (earlier ++ [operation]) := by
  funext tensor
  simp only [partway, tensorNode, readers, writers, positions_snoc, Operation.reads,
    Operation.writes, plain, Bool.not_false, Bool.true_and, decide_eq_true_eq, List.head?_append]
  congr 2
  split <;> rfl

theorem tensorNode_marker (earlier : List Operation) (isGroup : operation.isGroup = true) :
    tensorNode (earlier ++ [operation]) = tensorNode earlier := by
  funext tensor
  simp [tensorNode, readers, writers, positions_snoc, Operation.reads, Operation.writes, isGroup]

theorem set_map {α : Type} (unique : (tensors.map Tensor.id).Nodup) {place : Nat}
    {tensor : Tensor} (found : tensors[place]? = some tensor) {before after : Tensor → α}
    (kept : ∀ other : Tensor, other.id ≠ tensor.id → before other = after other) :
    (tensors.map before).set place (after tensor) = tensors.map after := by
  refine List.ext_getElem? fun position => ?_
  rw [List.getElem?_set, List.getElem?_map, List.getElem?_map]
  by_cases same : place = position
  · subst same
    obtain ⟨bound, here⟩ := List.getElem?_eq_some_iff.mp found
    simp [bound, here]
  · rw [if_neg same]
    cases listed : tensors[position]? with
    | none => rfl
    | some other =>
        have different : other.id ≠ tensor.id := fun sameId =>
          same (position_eq_of_id_eq unique found listed sameId.symm)
        rw [Option.map_some, Option.map_some, kept other different]

theorem findIdx?_eq_none_iff_not_mem {name : TensorId} :
    tensors.findIdx? (fun tensor => tensor.id = name) = none ↔ name ∉ tensors.map Tensor.id := by
  simp [List.findIdx?_eq_none_iff]

theorem exists_of_findIdx? {name : TensorId} {place : Nat}
    (found : tensors.findIdx? (fun tensor => tensor.id = name) = some place) :
    ∃ tensor, tensors[place]? = some tensor ∧ tensor.id = name := by
  obtain ⟨bound, same, _⟩ := List.findIdx?_eq_some_iff_getElem.mp found
  exact ⟨tensors[place], List.getElem?_eq_getElem bound, by simpa using same⟩

theorem locate_snoc (names : List TensorId) {name : TensorId} {place : Nat}
    (found : tensors.findIdx? (fun tensor => tensor.id = name) = some place) :
    locate tensors (names ++ [name]) = locate tensors names ++ [place] := by
  rw [locate, locate, List.filterMap_append]
  simp [found]

theorem mem_consumers_partway {earlier : List Operation} {read written : List TensorId}
    {tensor : Tensor} :
    earlier.length ∈ (partway earlier read written tensor).consumers ↔ tensor.id ∈ read := by
  have outside : earlier.length ∉ readers earlier tensor.id := fun member => by
    obtain ⟨_, listed, _⟩ := mem_positions.mp member
    rw [List.getElem?_eq_none (Nat.le_refl _)] at listed
    cases listed
  rw [partway, List.mem_append]
  simp only [outside, false_or]
  split <;> simp [*]

theorem noteInput_agrees (unique : (tensors.map Tensor.id).Nodup) {earlier : List Operation}
    {read : List TensorId} {place : Nat} {tensor : Tensor}
    (found : tensors.findIdx? (fun other => other.id = tensor.id) = some place)
    (here : tensors[place]? = some tensor) (reads : operation.reads tensor.id = true)
    (room : tensor.id ∈ read →
      (readers (earlier ++ [operation]) tensor.id).length ≤ Limit.fanOut) :
    Agrees (noteInput tensors operation earlier.length
        (tensors.map (partway earlier read []), locate tensors read) tensor.id)
      (checkWithin .fanOut Limit.fanOut (readers (earlier ++ [operation]) tensor.id).length >>=
        fun _ => .ok (tensors.map (partway earlier (read ++ [tensor.id]) []),
          locate tensors (read ++ [tensor.id]))) := by
  have nodeFound : (tensors.map (partway earlier read []))[place]? =
      some (partway earlier read [] tensor) := by rw [List.getElem?_map, here]; rfl
  have others : ∀ other : Tensor, other.id ≠ tensor.id →
      partway earlier read [] other = partway earlier (read ++ [tensor.id]) [] other := by
    intro other different
    simp [partway, different]
  rw [noteInput, place?_eq unique, found, locate_snoc read found]
  refine .access_bind nodeFound ?_
  by_cases known : tensor.id ∈ read
  · have same : partway earlier (read ++ [tensor.id]) [] = partway earlier read [] := by
      funext other
      by_cases isSame : other.id = tensor.id
      · simp [partway, isSame, known]
      · exact (others other isSame).symm
    rw [if_pos (mem_consumers_partway.mpr known), same, checkWithin_ok_iff.mpr (room known)]
    exact .of_plain _
  · have noted : { partway earlier read [] tensor with
        consumers := (partway earlier read [] tensor).consumers ++ [earlier.length] } =
          partway earlier (read ++ [tensor.id]) [] tensor := by
      simp [partway, known]
    have count : (partway earlier read [] tensor).consumers.length + 1 =
        (readers (earlier ++ [operation]) tensor.id).length := by
      simp [partway, known, length_readers_snoc, reads]
    rw [if_neg (mt mem_consumers_partway.mp known), count]
    refine .bind (.of_plain _) fun _ _ => ?_
    dsimp only
    rw [noted, set_map unique here others]
    exact .of_plain _

theorem foldlM_noteInput_agrees (unique : (tensors.map Tensor.id).Nodup)
    (plain : operation.isGroup = false) {earlier : List Operation} {read names : List TensorId}
    (listed : ∀ name ∈ names, name ∈ operation.inputs)
    (room : ∀ name ∈ read, (readers (earlier ++ [operation]) name).length ≤ Limit.fanOut) :
    Agrees (names.foldlM (noteInput tensors operation earlier.length)
        (tensors.map (partway earlier read []), locate tensors read))
      (checkInputs (tensors.map Tensor.id) (earlier ++ [operation]) operation.id names >>= fun _ =>
        .ok (tensors.map (partway earlier (read ++ names) []), locate tensors (read ++ names))) := by
  induction names generalizing read with
  | nil =>
      rw [List.append_nil]
      exact .of_plain _
  | cons name rest ih =>
      obtain ⟨isInput, restListed⟩ := List.forall_mem_cons.mp listed
      rw [List.foldlM_cons, checkInputs]
      cases found : tensors.findIdx? (fun tensor => tensor.id = name) with
      | none =>
          rw [if_neg (findIdx?_eq_none_iff_not_mem.mp found), noteInput, place?_eq unique, found]
          exact .of_plain _
      | some place =>
          obtain ⟨tensor, here, rfl⟩ := exists_of_findIdx? found
          rw [if_pos (List.mem_map_of_mem (List.mem_of_getElem? here))]
          have notes := noteInput_agrees unique found here (reads_iff.mpr ⟨plain, isInput⟩)
            (room tensor.id)
          rw [bind_assoc]
          refine notes.after_check fun checked => ?_
          have further := ih restListed
            (forall_mem_snoc.mpr ⟨room, checkWithin_ok_iff.mp checked⟩)
          rwa [List.append_assoc] at further

theorem noteOutput_agrees (unique : (tensors.map Tensor.id).Nodup)
    {earlier later : List Operation} {written : List TensorId} {place : Nat} {tensor : Tensor}
    (found : tensors.findIdx? (fun other => other.id = tensor.id) = some place)
    (here : tensors[place]? = some tensor) (fresh : tensor.id ∉ written) :
    Agrees (noteOutput tensors (earlier ++ operation :: later) operation earlier.length
        (tensors.map (partway earlier operation.inputs written), locate tensors written) tensor.id)
      (match earlier.find? fun other => other.writes tensor.id with
        | some first => .error (.multipleProducers tensor.id first.id operation.id)
        | none => .ok (tensors.map (partway earlier operation.inputs (written ++ [tensor.id])),
            locate tensors (written ++ [tensor.id]))) := by
  have nodeFound : (tensors.map (partway earlier operation.inputs written))[place]? =
      some (partway earlier operation.inputs written tensor) := by
    rw [List.getElem?_map, here]
    rfl
  have producer : (partway earlier operation.inputs written tensor).producer =
      (writers earlier tensor.id).head? := by
    simp [partway, fresh]
  have others : ∀ other : Tensor, other.id ≠ tensor.id →
      partway earlier operation.inputs written other =
        partway earlier operation.inputs (written ++ [tensor.id]) other := by
    intro other different
    simp [partway, different]
  have search : (earlier.find? fun other => other.writes tensor.id) =
      (writers earlier tensor.id).head?.bind fun position => earlier[position]? :=
    find?_eq_head?_positions _ _
  rw [noteOutput, place?_eq unique, found, locate_snoc written found, search]
  refine .access_bind nodeFound ?_
  rw [producer]
  cases first : (writers earlier tensor.id).head? with
  | some position =>
      obtain ⟨writer, listed, _⟩ := mem_positions.mp (List.mem_of_head? first)
      rw [Option.bind_some, listed]
      refine .access_bind (?_ : _ = some writer) (.of_plain _)
      rwa [List.getElem?_append_left (List.getElem?_eq_some_iff.mp listed).1]
  | none =>
      have noted : { partway earlier operation.inputs written tensor with
          producer := some earlier.length } =
            partway earlier operation.inputs (written ++ [tensor.id]) tensor := by
        simp [partway, first]
      dsimp only
      rw [noted, set_map unique here others]
      exact .of_plain _

theorem foldlM_noteOutput_agrees (unique : (tensors.map Tensor.id).Nodup)
    {earlier later : List Operation} {written names : List TensorId}
    (once : (written ++ names).Nodup) :
    Agrees (names.foldlM
        (noteOutput tensors (earlier ++ operation :: later) operation earlier.length)
        (tensors.map (partway earlier operation.inputs written), locate tensors written))
      (checkOutputs (tensors.map Tensor.id) earlier operation.id names >>= fun _ =>
        .ok (tensors.map (partway earlier operation.inputs (written ++ names)),
          locate tensors (written ++ names))) := by
  induction names generalizing written with
  | nil =>
      rw [List.append_nil]
      exact .of_plain _
  | cons name rest ih =>
      rw [List.foldlM_cons, checkOutputs]
      cases found : tensors.findIdx? (fun tensor => tensor.id = name) with
      | none =>
          rw [if_neg (findIdx?_eq_none_iff_not_mem.mp found), noteOutput, place?_eq unique, found]
          exact .of_plain _
      | some place =>
          obtain ⟨tensor, here, rfl⟩ := exists_of_findIdx? found
          rw [if_pos (List.mem_map_of_mem (List.mem_of_getElem? here))]
          have fresh : tensor.id ∉ written := fun member =>
            (List.nodup_append.mp once).2.2 _ member _ (by simp) rfl
          have notes := @noteOutput_agrees _ operation unique earlier later _ _ _ found here fresh
          cases first : earlier.find? fun other => other.writes tensor.id with
          | some other =>
              rw [first] at notes
              exact notes.of_failed _
          | none =>
              rw [first] at notes
              have further := @ih (written ++ [tensor.id]) (by rwa [List.append_assoc])
              rw [List.append_assoc] at further
              exact notes.after further

def checkOperation (tensors : List TensorId) (earlier : List Operation) (operation : Operation) :
    Except GraphError Unit :=
  if operation.isGroup then .ok ()
  else checkInputs tensors (earlier ++ [operation]) operation.id operation.inputs >>= fun _ =>
    checkOutputs tensors earlier operation.id operation.outputs

theorem checkFrom_cons (names : List TensorId) (earlier rest : List Operation) :
    checkFrom names earlier (operation :: rest) =
      checkOperation names earlier operation >>= fun _ =>
        checkFrom names (earlier ++ [operation]) rest := by
  rw [checkFrom, checkOperation]
  cases operation.isGroup with
  | true => rfl
  | false =>
      simp only [Bool.not_false, if_true, Bool.false_eq_true, if_false, bind_assoc]

theorem enter_agrees (unique : (tensors.map Tensor.id).Nodup) {earlier later : List Operation}
    (once : operation.isGroup = false → operation.outputs.Nodup) :
    Agrees (enter tensors (earlier ++ operation :: later)
        (tensors.map (tensorNode earlier), earlier.map (operationNode tensors)) operation)
      (checkOperation (tensors.map Tensor.id) earlier operation >>= fun _ =>
        .ok (tensors.map (tensorNode (earlier ++ [operation])),
          (earlier ++ [operation]).map (operationNode tensors))) := by
  rw [enter, checkOperation]
  cases isGroup : operation.isGroup with
  | true =>
      rw [if_pos rfl, if_pos rfl, tensorNode_marker earlier isGroup, List.map_append]
      simp only [List.map_cons, List.map_nil, operationNode, isGroup, if_true]
      exact .of_plain _
  | false =>
      have node : operationNode tensors operation =
          ⟨operation, locate tensors operation.inputs, locate tensors operation.outputs⟩ := by
        simp [operationNode, isGroup]
      have reading := @foldlM_noteInput_agrees _ _ unique isGroup earlier [] operation.inputs
        (fun _ member => member) (by simp)
      have writing := @foldlM_noteOutput_agrees _ operation unique earlier later []
        operation.outputs (once isGroup)
      rw [List.nil_append, partway_nil] at reading
      rw [List.nil_append, partway_all earlier isGroup] at writing
      simp only [Bool.false_eq_true, if_false, List.length_map]
      rw [bind_assoc]
      refine reading.after_check fun _ => writing.after_check fun _ => ?_
      rw [List.map_append, List.map_singleton, node]
      exact .of_plain _

theorem foldlM_enter_agrees (unique : (tensors.map Tensor.id).Nodup)
    {earlier rest : List Operation}
    (once : ∀ operation ∈ rest, operation.isGroup = false → operation.outputs.Nodup) :
    Agrees (rest.foldlM (enter tensors (earlier ++ rest))
        (tensors.map (tensorNode earlier), earlier.map (operationNode tensors)))
      (checkFrom (tensors.map Tensor.id) earlier rest >>= fun _ =>
        .ok (tensors.map (tensorNode (earlier ++ rest)),
          (earlier ++ rest).map (operationNode tensors))) := by
  induction rest generalizing earlier with
  | nil =>
      rw [List.append_nil]
      exact .of_plain _
  | cons operation rest ih =>
      obtain ⟨firstOnce, restOnce⟩ := List.forall_mem_cons.mp once
      have entered := @enter_agrees _ _ unique earlier rest firstOnce
      rw [List.foldlM_cons, checkFrom_cons]
      rw [bind_assoc]
      refine entered.after_check fun _ => ?_
      have further := @ih (earlier ++ [operation]) restOnce
      rwa [List.append_assoc] at further

/-- Entering operation by operation comes to connecting all of them at once. -/
theorem generate_agrees (unique : (tensors.map Tensor.id).Nodup)
    (once : ∀ operation ∈ operations, operation.isGroup = false → operation.outputs.Nodup) :
    Agrees (generate tensors operations)
      (check tensors operations >>= fun _ =>
        .ok (tensors.map (tensorNode operations), operations.map (operationNode tensors))) := by
  have start : tensors.map (tensorNode []) = tensors.map fun tensor => ⟨tensor, none, []⟩ := rfl
  have entered := @foldlM_enter_agrees _ unique [] operations once
  rwa [List.nil_append, start] at entered

end Agreement

end Indices

end TensorGraph
