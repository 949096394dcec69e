import TensorGraph.Graph.Order
import TensorGraph.Proofs.Results
import TensorGraph.Proofs.WellFormed

/-! A graph passes the order check exactly when every producer stands before its consumers. -/

namespace TensorGraph

namespace Graph

def Ordered (graph : Graph) : Prop :=
  ∀ position node, graph.operations[position]? = some node → ∀ tensor ∈ node.inputs,
    ∀ producer, graph.producer? tensor = some producer → producer < position

theorem ordered_iff_feeds {graph : Graph} :
    graph.Ordered ↔ ∀ producer consumer, graph.Feeds producer consumer → producer < consumer := by
  constructor
  · rintro ordered producer consumer ⟨node, found, tensor, isInput, produced⟩
    exact ordered consumer node found tensor isInput producer produced
  · intro forward position node found tensor isInput producer produced
    exact forward producer position ⟨node, found, tensor, isInput, produced⟩

theorem violation?_eq_some_iff {graph : Graph} {consumer tensor : Nat}
    {violation : OrderViolation} :
    graph.violation? consumer tensor = some violation ↔ violation.consumer = consumer ∧
      violation.tensor = tensor ∧ graph.producer? tensor = some violation.producer ∧
        consumer ≤ violation.producer := by
  obtain ⟨_, _, place⟩ := violation
  cases produced : graph.producer? tensor with
  | none => simp [violation?, produced]
  | some producer =>
      simp only [violation?, produced, Option.ite_none_right_eq_some, Option.some.injEq,
        OrderViolation.mk.injEq]
      constructor
      · rintro ⟨late, rfl, rfl, rfl⟩
        exact ⟨rfl, rfl, rfl, late⟩
      · rintro ⟨rfl, rfl, rfl, late⟩
        exact ⟨late, rfl, rfl, rfl⟩

theorem violationsAt_eq_nil_iff {graph : Graph} {position : Nat} {node : OperationNode} :
    graph.violationsAt position node = [] ↔ ∀ tensor ∈ node.inputs,
      ∀ producer, graph.producer? tensor = some producer → producer < position := by
  rw [violationsAt, List.filterMap_eq_nil_iff]
  refine forall₂_congr fun tensor _ => ?_
  rw [violation?]
  cases graph.producer? tensor with
  | none => simp
  | some producer => simp

theorem orderViolations_eq_nil_iff {graph : Graph} :
    graph.orderViolations = [] ↔ graph.Ordered := by
  rw [orderViolations, List.flatMap_eq_nil_iff]
  constructor
  · intro silent position node found
    have listed : (node, position) ∈ graph.operations.zipIdx :=
      List.mem_zipIdx_iff_getElem?.mpr found
    exact violationsAt_eq_nil_iff.mp (silent _ listed)
  · rintro ordered ⟨node, position⟩ listed
    exact violationsAt_eq_nil_iff.mpr
      (ordered position node (List.mem_zipIdx_iff_getElem?.mp listed))

def failAtFirst (graph : Graph) : List OrderViolation → Except GraphError Unit
  | [] => .ok ()
  | first :: _ =>
      .error (.scheduleViolation (graph.operationId first.producer)
        (graph.operationId first.consumer))

theorem failAtFirst_append (graph : Graph) (front behind : List OrderViolation) :
    graph.failAtFirst (front ++ behind) =
      graph.failAtFirst front >>= fun _ => graph.failAtFirst behind := by
  cases front with
  | nil => rfl
  | cons first rest => rfl

theorem checkReads_eq {graph : Graph} {position : Nat} {consumer : OperationId}
    (isConsumer : graph.operationId position = consumer) (inputs : List Nat) :
    graph.checkReads position consumer inputs =
      graph.failAtFirst (inputs.filterMap (graph.violation? position)) := by
  induction inputs with
  | nil => rfl
  | cons tensor rest ih =>
      rw [checkReads, List.filterMap_cons, violation?]
      cases graph.producer? tensor with
      | none => exact ih
      | some producer =>
          by_cases late : position ≤ producer
          · simp only [late, if_true, failAtFirst, isConsumer]
          · simp only [late, if_false, ih]

theorem checkOrderFrom_eq {graph : Graph} {position : Nat} {rest : List OperationNode}
    (standing : graph.operations.drop position = rest) :
    graph.checkOrderFrom position rest = graph.failAtFirst
      ((rest.zipIdx position).flatMap fun entry => graph.violationsAt entry.2 entry.1) := by
  induction rest generalizing position with
  | nil => rfl
  | cons node rest ih =>
      have found : graph.operations[position]? = some node := by
        rw [← Nat.add_zero position, ← List.getElem?_drop, standing]
        rfl
      have isConsumer : graph.operationId position = node.operation.id := by
        rw [operationId, found]
        rfl
      have behind : graph.operations.drop (position + 1) = rest := by
        rw [List.drop_add_one_eq_tail_drop, standing, List.tail_cons]
      rw [checkOrderFrom, checkReads_eq isConsumer, ih behind, List.zipIdx_cons,
        List.flatMap_cons, failAtFirst_append]
      rfl

/-- The check that stops early and the search for all violations meet the same one first. -/
theorem checkOrder_eq (graph : Graph) :
    graph.checkOrder = graph.failAtFirst graph.orderViolations :=
  checkOrderFrom_eq List.drop_zero

theorem checkOrder_ok_iff {graph : Graph} : graph.checkOrder = .ok () ↔ graph.Ordered := by
  rw [← orderViolations_eq_nil_iff, checkOrder_eq]
  cases graph.orderViolations with
  | nil => simp [failAtFirst]
  | cons first rest => simp [failAtFirst]

theorem isOrdered_iff {graph : Graph} : graph.isOrdered = true ↔ graph.Ordered := by
  rw [← checkOrder_ok_iff, isOrdered]
  cases graph.checkOrder with
  | error failure => simp [Except.isOk, Except.toBool]
  | ok _ => simp [Except.isOk, Except.toBool]

end Graph

end TensorGraph
