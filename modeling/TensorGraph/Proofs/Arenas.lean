import TensorGraph.ExpressionArena
import TensorGraph.Proofs.Operations

/-!
Arenas that were filled through their own functions. Every node was admitted against the nodes in
front of it: operands are no groups, outputs are tensors, and members are operations.
-/

namespace TensorGraph

namespace ExpressionArena

variable {arena next : ExpressionArena} {index : NodeIndex} {node : ExpressionNode}

def HoldsTensor (arena : ExpressionArena) (index : NodeIndex) (tensor : Tensor) : Prop :=
  arena.nodes[index.toNat]? = some (.tensor tensor)

theorem getElem?_of_take {position place : Nat}
    (found : (arena.nodes.take position)[place]? = some node) :
    arena.nodes[place]? = some node := by
  rw [List.getElem?_take] at found
  split at found
  · exact found
  · cases found

theorem HoldsTensor.of_take {position : Nat} {tensor : Tensor}
    (holds : HoldsTensor ⟨arena.nodes.take position⟩ index tensor) :
    arena.HoldsTensor index tensor := getElem?_of_take holds

inductive Admits (arena : ExpressionArena) : ExpressionNode → Prop
  | tensor (tensor : Tensor) : Admits arena (.tensor tensor)
  | operation {kind : OperationKind} {inputs outputs : List NodeIndex} {parameters : Parameters}
      {first : Tensor} {rest : List Tensor} (inputsFit : inputs.length ≤ Limit.inputs)
      (outputsFit : outputs.length ≤ Limit.outputs)
      (operands : ∀ input ∈ inputs, ∃ node, arena.nodes[input.toNat]? = some node ∧
        ∀ members pinned, node ≠ .group members pinned)
      (written : List.Forall₂ arena.HoldsTensor outputs (first :: rest)) :
      Admits arena (.operation kind first.elementType inputs outputs parameters)
  | group {members : List NodeIndex} {pinned : Bool} (fit : members.length ≤ Limit.inputs)
      (operations : ∀ member ∈ members, ∃ kind elementType inputs outputs parameters,
        arena.nodes[member.toNat]? =
          some (.operation kind elementType inputs outputs parameters)) :
      Admits arena (.group members pinned)

theorem get_ok_iff : arena.get index = .ok node ↔ arena.nodes[index.toNat]? = some node := by
  rw [get]
  cases arena.nodes[index.toNat]? with
  | none => simp
  | some other => simp

theorem checkInputs_ok_iff {kind : OperationKind} {inputs : List NodeIndex} :
    arena.checkInputs kind inputs = .ok () ↔
      ∀ input ∈ inputs, ∃ node, arena.nodes[input.toNat]? = some node ∧
        ∀ members pinned, node ≠ .group members pinned := by
  induction inputs with
  | nil => simp [checkInputs]
  | cons input rest ih =>
      rw [checkInputs, bind_eq_ok_iff, List.forall_mem_cons, ← ih]
      constructor
      · rintro ⟨node, found, others⟩
        cases node with
        | group members pinned => cases others
        | tensor tensor => exact ⟨⟨_, get_ok_iff.mp found, by simp⟩, others⟩
        | operation kind elementType inputs outputs parameters =>
            exact ⟨⟨_, get_ok_iff.mp found, by simp⟩, others⟩
      · rintro ⟨⟨node, found, plain⟩, others⟩
        refine ⟨node, get_ok_iff.mpr found, ?_⟩
        cases node with
        | group members pinned => exact absurd rfl (plain members pinned)
        | tensor tensor => exact others
        | operation kind elementType inputs outputs parameters => exact others

theorem outputTypes_ok_iff {kind : OperationKind} {outputs : List NodeIndex}
    {types : List ElementType} :
    arena.outputTypes kind outputs = .ok types ↔
      ∃ tensors, List.Forall₂ arena.HoldsTensor outputs tensors ∧
        types = tensors.map Tensor.elementType := by
  induction outputs generalizing types with
  | nil => simp [outputTypes, eq_comm]
  | cons output rest ih =>
      rw [outputTypes, bind_eq_ok_iff]
      constructor
      · rintro ⟨node, found, others⟩
        cases node with
        | group members pinned => cases others
        | operation kind elementType inputs outputs parameters => cases others
        | tensor tensor =>
            obtain ⟨restTypes, restFound, same⟩ := bind_eq_ok_iff.mp others
            obtain ⟨tensors, related, rfl⟩ := ih.mp restFound
            cases same
            exact ⟨tensor :: tensors, .cons (get_ok_iff.mp found) related, rfl⟩
      · rintro ⟨_, related, rfl⟩
        cases related with
        | @cons _ tensor _ tensors found others =>
            refine ⟨.tensor tensor, get_ok_iff.mpr found, bind_eq_ok_iff.mpr ?_⟩
            exact ⟨_, ih.mpr ⟨tensors, others, rfl⟩, rfl⟩

theorem checkMembers_ok_iff {members : List NodeIndex} :
    arena.checkMembers members = .ok () ↔
      ∀ member ∈ members, ∃ kind elementType inputs outputs parameters,
        arena.nodes[member.toNat]? =
          some (.operation kind elementType inputs outputs parameters) := by
  induction members with
  | nil => simp [checkMembers]
  | cons member rest ih =>
      rw [checkMembers, bind_eq_ok_iff, List.forall_mem_cons, ← ih]
      constructor
      · rintro ⟨node, found, others⟩
        cases node with
        | group members pinned => cases others
        | tensor tensor => cases others
        | operation kind elementType inputs outputs parameters =>
            exact ⟨⟨kind, elementType, inputs, outputs, parameters, get_ok_iff.mp found⟩, others⟩
      · rintro ⟨⟨kind, elementType, inputs, outputs, parameters, found⟩, others⟩
        exact ⟨_, get_ok_iff.mpr found, others⟩

theorem addOperation_ok_iff {kind : OperationKind} {inputs outputs : List NodeIndex}
    {parameters : Parameters} :
    arena.addOperation kind inputs outputs parameters = .ok (index, next) ↔
      ∃ elementType, Admits arena (.operation kind elementType inputs outputs parameters) ∧
        (index, next) = arena.push (.operation kind elementType inputs outputs parameters) := by
  simp only [addOperation, seq_eq_ok_iff, checkWithin_ok_iff, checkInputs_ok_iff]
  simp only [bind_eq_ok_iff, outputTypes_ok_iff]
  constructor
  · rintro ⟨inputsFit, outputsFit, operands, _, ⟨tensors, written, rfl⟩, added⟩
    cases tensors with
    | nil => cases added
    | cons first rest =>
        cases added
        exact ⟨first.elementType, .operation inputsFit outputsFit operands written, rfl⟩
  · rintro ⟨elementType, admitted, same⟩
    cases admitted with
    | @operation _ _ _ _ first rest inputsFit outputsFit operands written =>
        refine ⟨inputsFit, outputsFit, operands, _, ⟨first :: rest, written, rfl⟩, ?_⟩
        rw [same]
        rfl

theorem addGroup_ok_iff {members : List NodeIndex} {pinned : Bool} :
    arena.addGroup members pinned = .ok (index, next) ↔
      Admits arena (.group members pinned) ∧
        (index, next) = arena.push (.group members pinned) := by
  simp only [addGroup, seq_eq_ok_iff, checkWithin_ok_iff, checkMembers_ok_iff]
  constructor
  · rintro ⟨fit, operations, added⟩
    cases added
    exact ⟨.group fit operations, rfl⟩
  · rintro ⟨admitted, same⟩
    cases admitted with
    | group fit operations =>
        refine ⟨fit, operations, ?_⟩
        rw [same]
        rfl

/-- Arenas that come from the empty one by adding nodes. -/
inductive Made : ExpressionArena → Prop
  | empty : Made .empty
  | addTensor {arena : ExpressionArena} (made : Made arena) (tensor : Tensor) :
      Made (arena.addTensor tensor).2
  | addOperation {arena next : ExpressionArena} {index : NodeIndex} {kind : OperationKind}
      {inputs outputs : List NodeIndex} {parameters : Parameters} (made : Made arena)
      (added : arena.addOperation kind inputs outputs parameters = .ok (index, next)) : Made next
  | addGroup {arena next : ExpressionArena} {index : NodeIndex} {members : List NodeIndex}
      {pinned : Bool} (made : Made arena)
      (added : arena.addGroup members pinned = .ok (index, next)) : Made next

theorem admits_of_push {last : ExpressionNode}
    (earlier : ∀ {position : Nat} {node : ExpressionNode}, arena.nodes[position]? = some node →
      Admits ⟨arena.nodes.take position⟩ node)
    (admitted : Admits arena last) {position : Nat} {node : ExpressionNode}
    (found : (arena.push last).2.nodes[position]? = some node) :
    Admits ⟨(arena.push last).2.nodes.take position⟩ node := by
  rw [push] at found ⊢
  dsimp only at found ⊢
  rcases eq_of_getElem?_snoc found with before | ⟨rfl, rfl⟩
  · have inside := (List.getElem?_eq_some_iff.mp before).1
    rw [List.take_append_of_le_length (Nat.le_of_lt inside)]
    exact earlier before
  · rw [List.take_left]
    exact admitted

theorem Made.admits (made : arena.Made) {position : Nat}
    (found : arena.nodes[position]? = some node) :
    Admits ⟨arena.nodes.take position⟩ node := by
  induction made generalizing position node with
  | empty => exact absurd found (by simp [ExpressionArena.empty])
  | addTensor made tensor ih => exact admits_of_push ih (.tensor tensor) found
  | addOperation made added ih =>
      obtain ⟨elementType, admitted, same⟩ := addOperation_ok_iff.mp added
      cases same
      exact admits_of_push ih admitted found
  | addGroup made added ih =>
      obtain ⟨admitted, same⟩ := addGroup_ok_iff.mp added
      cases same
      exact admits_of_push ih admitted found

end ExpressionArena

end TensorGraph
