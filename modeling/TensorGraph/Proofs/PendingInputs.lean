import TensorGraph.Graph.ReadySearch
import TensorGraph.Proofs.IndexGeneration

/-!
Inputs that operations wait for. Each operation counts the inputs whose producers are not ranked yet;
settling a tensor in all its consumers never takes a counter below zero, and what gets to zero is
ready, once.
-/

namespace TensorGraph

def producerAt? (tensors : List TensorNode) (tensor : Nat) : Option Nat :=
  (tensors[tensor]?).bind TensorNode.producer

theorem Linked.producerAt?_iff {tensors : List TensorNode} {operations : List OperationNode}
    (linked : Linked tensors operations) {tensor : Nat} (bound : tensor < tensors.length)
    {position : Nat} :
    producerAt? tensors tensor = some position ↔ WritesAt operations position tensor := by
  have found := List.getElem?_eq_getElem bound
  rw [producerAt?, found, Option.bind_some]
  exact linked.producer tensor _ found position

theorem Linked.isGroup_eq_false {tensors : List TensorNode} {operations : List OperationNode}
    (linked : Linked tensors operations) {node : OperationNode} (member : node ∈ operations)
    {tensor : Nat} (accesses : tensor ∈ node.inputs ∨ tensor ∈ node.outputs) :
    node.operation.isGroup = false := by
  by_contra isGroup
  obtain ⟨noInputs, noOutputs⟩ := linked.markers node member (by simpa using isGroup)
  simp [noInputs, noOutputs] at accesses

namespace Waiting

/-- The counters agree with the inputs that are awaited, and the operations that are done or ready are
those that wait for nothing. -/
structure Balanced (operations : List OperationNode) (awaited : Nat → Nat → Bool) (done : List Nat)
    (waiting : Waiting) : Prop where
  count : waiting.pending.length = operations.length
  pending : ∀ (consumer : Nat) (node : OperationNode), operations[consumer]? = some node →
    waiting.pending[consumer]? =
      some (node.inputs.countP fun tensor => awaited tensor consumer)
  ready : ∀ consumer, consumer ∈ done ++ waiting.ready ↔
    ∃ node, operations[consumer]? = some node ∧ node.operation.isGroup = false ∧
      waiting.pending[consumer]? = some 0
  once : (done ++ waiting.ready).Nodup

section Settling

variable {tensors : List TensorNode} {operations : List OperationNode}
  {awaited : Nat → Nat → Bool} {done : List Nat} {waiting : Waiting}

theorem Balanced.congr (balanced : Balanced operations awaited done waiting)
    {other : Nat → Nat → Bool}
    (same : ∀ consumer tensor, ReadsAt operations consumer tensor →
      awaited tensor consumer = other tensor consumer) :
    Balanced operations other done waiting where
  count := balanced.count
  pending := fun consumer node found => by
    rw [balanced.pending consumer node found]
    congr 1
    exact List.countP_congr fun tensor member => by
      rw [same consumer tensor ⟨node, found, member⟩]
  ready := balanced.ready
  once := balanced.once

theorem Balanced.take (balanced : Balanced operations awaited done waiting) {position : Nat}
    {rest : List Nat} (here : waiting.ready = position :: rest) :
    position ∉ done ∧ Balanced operations awaited (position :: done) ⟨waiting.pending, rest⟩ := by
  have once := balanced.once
  rw [here] at once
  have moved := List.perm_middle.nodup_iff.mp once
  refine ⟨fun isDone => (List.nodup_cons.mp moved).1 (List.mem_append_left _ isDone), ?_⟩
  exact
    { count := balanced.count
      pending := balanced.pending
      ready := fun consumer => by
        rw [← balanced.ready, here]
        exact List.perm_middle.symm.mem_iff
      once := moved }

theorem countP_eq_add_count {items : List Nat} {item : Nat} {before : Nat → Bool}
    (holds : before item = true) :
    items.countP before = items.countP (fun other => before other && other != item) +
      items.count item := by
  induction items with
  | nil => rfl
  | cons first rest ih =>
      by_cases same : first = item
      · subst same
        simp [holds, ih]
        omega
      · simp [List.countP_cons, same, ih]
        omega

theorem Balanced.put (balanced : Balanced operations awaited done waiting) {consumer before : Nat}
    {node : OperationNode} (found : operations[consumer]? = some node)
    (plain : node.operation.isGroup = false)
    (counted : waiting.pending[consumer]? = some before) (positive : 0 < before)
    {after : Nat → Nat → Bool}
    (others : ∀ reader, reader ≠ consumer → ∀ tensor, awaited tensor reader = after tensor reader)
    {left : Nat} (counts : (node.inputs.countP fun tensor => after tensor consumer) = left) :
    Balanced operations after done ⟨waiting.pending.set consumer left,
      if left = 0 then consumer :: waiting.ready else waiting.ready⟩ := by
  have bound : consumer < waiting.pending.length := (List.getElem?_eq_some_iff.mp counted).1
  have waits : consumer ∉ done ++ waiting.ready := by
    rw [balanced.ready]
    rintro ⟨_, _, _, settled⟩
    rw [counted, Option.some.injEq] at settled
    omega
  have entry : ∀ reader, (waiting.pending.set consumer left)[reader]? =
      if consumer = reader then some left else waiting.pending[reader]? := by
    intro reader
    rw [List.getElem?_set]
    simp [bound]
  have appears : ∀ reader, reader ∈ done ++ (if left = 0 then consumer :: waiting.ready
      else waiting.ready) ↔ reader ∈ done ++ waiting.ready ∨ (left = 0 ∧ reader = consumer) := by
    intro reader
    split
    · simp [*]
      tauto
    · simp [*]
  constructor
  case count => rw [List.length_set, balanced.count]
  case pending =>
    intro reader other otherFound
    rw [entry]
    split
    · rename_i same
      subst same
      rw [found] at otherFound
      cases otherFound
      rw [counts]
    · rename_i different
      rw [balanced.pending reader other otherFound]
      simp only [others reader (Ne.symm different)]
  case ready =>
    intro reader
    rw [appears, balanced.ready, entry]
    by_cases same : consumer = reader
    · subst same
      simp [found, plain, counted]
      omega
    · simp [same, Ne.symm same]
  case once =>
    split
    · exact (List.perm_middle).nodup_iff.mpr (List.nodup_cons.mpr ⟨waits, balanced.once⟩)
    · exact balanced.once

/-- Settling an input that is awaited takes it off the counter of its consumer, which has counted
it. -/
theorem Balanced.settle (balanced : Balanced operations awaited done waiting)
    (linked : Linked tensors operations) {tensor consumer : Nat}
    (reads : ReadsAt operations consumer tensor) (isAwaited : awaited tensor consumer = true) :
    ∃ next, settle? operations tensor waiting consumer = some next ∧
      Balanced operations
        (fun other reader => awaited other reader && !(other == tensor && reader == consumer))
        done next := by
  obtain ⟨node, found, isInput⟩ := reads
  have counted := balanced.pending consumer node found
  have split := @countP_eq_add_count node.inputs tensor (fun other => awaited other consumer)
    isAwaited
  have uses := List.count_pos_iff.mpr isInput
  have plain := linked.isGroup_eq_false (List.mem_of_getElem? found) (Or.inl isInput)
  -- What is left to await in this consumer.
  generalize remaining : (node.inputs.countP fun other =>
    awaited other consumer && other != tensor) = left at split
  refine ⟨⟨waiting.pending.set consumer left,
    if left = 0 then consumer :: waiting.ready else waiting.ready⟩, ?_, ?_⟩
  · rw [settle?, found, counted, split]
    simp
  refine balanced.put found plain counted (by omega) (fun reader different other => ?_) ?_
  · have elsewhere : (reader == consumer) = false := by simpa using different
    simp [elsewhere]
  · simp [← remaining, bne]

theorem Balanced.settleAll (balanced : Balanced operations awaited done waiting)
    (linked : Linked tensors operations) {tensor : Nat} {consumers : List Nat}
    (once : consumers.Nodup)
    (reads : ∀ consumer ∈ consumers, ReadsAt operations consumer tensor)
    (isAwaited : ∀ consumer ∈ consumers, awaited tensor consumer = true) :
    ∃ next, consumers.foldlM (settle? operations tensor) waiting = some next ∧
      Balanced operations
        (fun other reader => awaited other reader && !(other == tensor && consumers.contains reader))
        done next := by
  induction consumers generalizing waiting awaited with
  | nil => exact ⟨waiting, rfl, balanced.congr fun _ _ _ => by simp⟩
  | cons consumer rest ih =>
      obtain ⟨notLater, restOnce⟩ := List.nodup_cons.mp once
      obtain ⟨firstReads, restRead⟩ := List.forall_mem_cons.mp reads
      obtain ⟨firstAwaited, restAwaited⟩ := List.forall_mem_cons.mp isAwaited
      obtain ⟨between, settled, isBalanced⟩ := balanced.settle linked firstReads firstAwaited
      obtain ⟨next, further, nextBalanced⟩ := ih isBalanced restOnce restRead
        fun reader member => by
          have different : reader ≠ consumer := fun same => notLater (same ▸ member)
          simp [restAwaited reader member, different]
      refine ⟨next, ?_, nextBalanced.congr fun reader other _ => ?_⟩
      · rw [List.foldlM_cons, settled]
        exact further
      · rw [Bool.eq_iff_iff]
        simp
        tauto

/-- After a tensor is settled in all its consumers nothing awaits it. -/
theorem Balanced.release (balanced : Balanced operations awaited done waiting)
    (linked : Linked tensors operations) {tensor : Nat} (bound : tensor < tensors.length)
    (isAwaited : ∀ consumer, ReadsAt operations consumer tensor →
      awaited tensor consumer = true) :
    ∃ next, release? tensors operations waiting tensor = some next ∧
      Balanced operations (fun other reader => awaited other reader && other != tensor)
        done next := by
  have found := List.getElem?_eq_getElem bound
  have isConsumer := linked.consumers tensor _ found
  obtain ⟨next, settled, isBalanced⟩ := balanced.settleAll linked
    (linked.readOnce _ (List.getElem_mem bound)) (fun consumer => (isConsumer consumer).mp)
    fun consumer member => isAwaited consumer ((isConsumer consumer).mp member)
  refine ⟨next, ?_, isBalanced.congr fun consumer other reads => ?_⟩
  · rw [release?, found]
    exact settled
  · by_cases same : other = tensor
    · subst same
      simp [(isConsumer consumer).mpr reads]
    · have apart : (other == tensor) = false := by simpa using same
      simp [apart, bne]

theorem Balanced.releaseAll (balanced : Balanced operations awaited done waiting)
    (linked : Linked tensors operations) {outputs : List Nat} (once : outputs.Nodup)
    (bounds : ∀ tensor ∈ outputs, tensor < tensors.length)
    (isAwaited : ∀ tensor ∈ outputs, ∀ consumer, ReadsAt operations consumer tensor →
      awaited tensor consumer = true) :
    ∃ next, outputs.foldlM (release? tensors operations) waiting = some next ∧
      Balanced operations (fun other reader => awaited other reader && !outputs.contains other)
        done next := by
  induction outputs generalizing waiting awaited with
  | nil => exact ⟨waiting, rfl, balanced.congr fun _ _ _ => by simp⟩
  | cons tensor rest ih =>
      obtain ⟨notLater, restOnce⟩ := List.nodup_cons.mp once
      obtain ⟨bound, restBounds⟩ := List.forall_mem_cons.mp bounds
      obtain ⟨firstAwaited, restAwaited⟩ := List.forall_mem_cons.mp isAwaited
      obtain ⟨between, released, isBalanced⟩ := balanced.release linked bound firstAwaited
      obtain ⟨next, further, nextBalanced⟩ := ih isBalanced restOnce restBounds
        fun other member consumer reads => by
          have different : other ≠ tensor := fun same => notLater (same ▸ member)
          simp [restAwaited other member consumer reads, different]
      refine ⟨next, ?_, nextBalanced.congr fun reader other _ => ?_⟩
      · rw [List.foldlM_cons, released]
        exact further
      · rw [Bool.eq_iff_iff]
        simp
        tauto

end Settling

end Waiting

end TensorGraph
