import TensorGraph.Proofs.ArenaListing
import TensorGraph.Proofs.Failures
import TensorGraph.Proofs.Hoisting

/-!
Plans from arenas. Nodes refer only to nodes in front of them, so whatever a node needs was passed
before it: its operands have tensors, and its members have operations that stay. Once the markers
are moved in front of their members, nothing is left that the plan could miss.
-/

namespace TensorGraph

open Operation (ids)

/-- Failures for which an arena would refer to what it does not hold, or use an id twice. -/
inductive GraphError.Dangling : GraphError → Prop
  | node (index length : Nat) : Dangling (.nodeIndexOutOfBounds index length)
  | operand (index : Nat) : Dangling (.expectedOperation index)
  | clash (id : OperationId) : Dangling (.conflictingOperation id)

/-- Failures of building for which a plan would be incomplete, inconsistent or too large. -/
inductive GraphError.Incomplete : GraphError → Prop
  | member (group member : OperationId) : Incomplete (.groupMemberNotFound group member)
  | operand (operation : OperationId) (tensor : TensorId) :
      Incomplete (.unresolvedTensor operation tensor)
  | tensorClash (tensor : TensorId) : Incomplete (.conflictingTensor tensor)
  | operationClash (operation : OperationId) : Incomplete (.conflictingOperation operation)
  | malformed (operation : OperationId) (kind : OperationKind) (fault : OperationFault) :
      Incomplete (.invalidOperation operation kind fault)
  | tensorRoom (limit requested : Nat) : Incomplete (.capacityExceeded .tensors limit requested)
  | operationRoom (limit requested : Nat) :
      Incomplete (.capacityExceeded .operations limit requested)

namespace ExpressionArena

variable {arena : ExpressionArena} {node : ExpressionNode} {roots : List NodeIndex}
  {marked : List Bool}

theorem Admits.reference_lt (admitted : Admits arena node) :
    ∀ reference ∈ node.references, reference.toNat < arena.nodes.length := by
  intro reference named
  cases admitted with
  | tensor _ => cases named
  | operation _ _ operands written =>
      rcases List.mem_append.mp named with isInput | isOutput
      · obtain ⟨_, found, _⟩ := operands reference isInput
        exact (List.getElem?_eq_some_iff.mp found).1
      · obtain ⟨_, _, holds⟩ := exists_of_forall₂ written isOutput
        exact (List.getElem?_eq_some_iff.mp holds).1
  | group _ operations =>
      obtain ⟨_, _, _, _, _, found⟩ := operations reference named
      exact (List.getElem?_eq_some_iff.mp found).1

theorem Made.reference_lt (made : arena.Made) {position : Nat}
    (found : arena.nodes[position]? = some node) :
    ∀ reference ∈ node.references, reference.toNat < position := by
  intro reference named
  have bound := (made.admits found).reference_lt reference named
  rw [List.length_take] at bound
  omega

theorem exists_markFrom (made : arena.Made) {steps : Nat} {stack : List NodeIndex}
    {marked : List Bool} (inside : ∀ index ∈ stack, index.toNat < arena.size) :
    ∃ result, arena.markFrom steps stack marked = .ok result := by
  induction steps generalizing stack marked with
  | zero => exact ⟨marked, by rw [markFrom]⟩
  | succ steps ih =>
      cases stack with
      | nil => exact ⟨marked, by rw [markFrom]⟩
      | cons index stack =>
          obtain ⟨here, others⟩ := List.forall_mem_cons.mp inside
          have found := List.getElem?_eq_getElem here
          rw [markFrom, get_ok_iff.mpr found]
          simp only [bind, Except.bind]
          split
          · exact ih others
          · refine ih fun other waits => ?_
            rcases List.mem_append.mp waits with named | later
            · have before := made.reference_lt found other (List.mem_reverse.mp named)
              exact Nat.lt_trans before here
            · exact others other later

theorem exists_reachable (made : arena.Made) (inside : ∀ root ∈ roots, root.toNat < arena.size) :
    ∃ marked, arena.reachable roots = .ok marked :=
  exists_markFrom made fun root listed => inside root (List.mem_reverse.mp listed)

theorem node_of_split {seen rest : List (ExpressionNode × Bool)} {mark : Bool}
    (split : arena.nodes.zip marked = seen ++ (node, mark) :: rest) :
    arena.nodes[seen.length]? = some node ∧ marked[seen.length]? = some mark := by
  have here : (arena.nodes.zip marked)[seen.length]? = some (node, mark) := by
    rw [split]
    simp
  exact List.getElem?_zip_eq_some.mp here

theorem passed_of_reference (made : arena.Made) (reached : arena.reachable roots = .ok marked)
    {seen rest : List (ExpressionNode × Bool)}
    (split : arena.nodes.zip marked = seen ++ (node, true) :: rest) {reference : NodeIndex}
    (named : reference ∈ node.references) :
    ∃ other, arena.nodes[reference.toNat]? = some other ∧
      seen[reference.toNat]? = some (other, true) := by
  obtain ⟨_, exact⟩ := reachable_exact reached
  obtain ⟨found, isMarked⟩ := node_of_split split
  have before := made.reference_lt found reference named
  have referenceMarked := (exact _).mpr (.reference ((exact _).mp isMarked) found named)
  have bound : reference.toNat < arena.nodes.length :=
    Nat.lt_trans before (List.getElem?_eq_some_iff.mp found).1
  have otherFound := List.getElem?_eq_getElem bound
  have entry : (arena.nodes.zip marked)[reference.toNat]? = some (_, true) :=
    List.getElem?_zip_eq_some.mpr ⟨otherFound, referenceMarked⟩
  rw [split, List.getElem?_append_left before] at entry
  exact ⟨_, otherFound, entry⟩

end ExpressionArena

namespace Operation

theorem validate_of_create {id : OperationId} {kind : OperationKind} {elementType : ElementType}
    {inputs outputs : List TensorId} {parameters : Parameters} {operation : Operation}
    (created : create id kind elementType inputs outputs parameters = .ok operation) :
    operation.validate = .ok () := by
  obtain ⟨_, _, _, _, rfl⟩ := create_ok_iff.mp created
  exact validate_ok_iff.mpr (Or.inr ⟨elementType, _, rfl, created⟩)

theorem validate_of_group {id : OperationId} {members : List OperationId} {pinned : Bool}
    {operation : Operation} (made : Operation.group id members pinned = .ok operation) :
    operation.validate = .ok () := by
  obtain ⟨_, rfl⟩ := group_ok_iff.mp made
  exact validate_ok_iff.mpr (Or.inl ⟨pinned, _, rfl, made⟩)

theorem Refusal.not_dangling {id : OperationId} {kind : OperationKind} {failure : GraphError}
    (refusal : Refusal id kind failure) : ¬failure.Dangling := by
  cases refusal with
  | capacity _ _ _ => rintro ⟨⟩
  | operation _ => rintro ⟨⟩
  | group _ _ => rintro ⟨⟩

end Operation

namespace Deduplication

variable {fingerprint : Fingerprint} {capacity : Capacity} {state next : Deduplication}
  {operation : Operation} {survivor : OperationId} {failure : GraphError}

structure Supports (state : Deduplication) (operation : Operation) : Prop where
  valid : operation.validate = .ok ()
  operands : operation.isGroup = false → ∀ name ∈ operation.inputs ++ operation.outputs,
    name ∈ state.tensors.map Tensor.id
  members : ∀ id ∈ operation.memberIds,
    ∃ member ∈ state.operations, member.isGroup = false ∧ member.id = id

theorem Supports.mono (supports : state.Supports operation) (tensors : state.tensors ⊆ next.tensors)
    (operations : state.operations ⊆ next.operations) : next.Supports operation where
  valid := supports.valid
  operands plain name listed := List.map_subset _ tensors (supports.operands plain name listed)
  members id listed := by
    obtain ⟨member, present, facts⟩ := supports.members id listed
    exact ⟨member, operations present, facts⟩

theorem addOperation_extends
    (added : state.addOperation fingerprint capacity operation = .ok (survivor, next)) :
    next.tensors = state.tensors ∧ state.operations ⊆ next.operations ∧
      ∃ kept ∈ next.operations, kept.id = survivor ∧
        kept.toComputation = operation.toComputation := by
  rcases addOperation_ok_iff.mp added with ⟨found, _, rfl⟩ | ⟨_, rfl, _, _, rfl⟩
  · exact ⟨rfl, List.Subset.refl _, exists_of_survivor? found⟩
  · refine ⟨rfl, List.map_subset _ (List.subset_append_left _ _), operation, ?_, rfl, rfl⟩
    simp [operations]

theorem addTensor_subset {tensor : Tensor} (added : state.addTensor capacity tensor = .ok next) :
    state.tensors ⊆ next.tensors ∧ next.kept = state.kept := by
  rcases addTensor_ok_iff.mp added with ⟨_, rfl⟩ | ⟨_, _, rfl⟩
  · exact ⟨List.Subset.refl _, rfl⟩
  · exact ⟨List.subset_append_left _ _, rfl⟩

theorem not_dangling_of_addTensor {tensor : Tensor}
    (failed : state.addTensor capacity tensor = .error failure) : ¬failure.Dangling := by
  rw [addTensor] at failed
  split at failed
  · split at failed
    · cases failed
    · cases failed
      rintro ⟨⟩
  · rcases bind_eq_error_iff.mp failed with beyond | ⟨_, _, done⟩
    · rw [(checkWithin_eq_error_iff.mp beyond).2]
      rintro ⟨⟩
    · cases done

theorem not_dangling_of_addOperation (new : state.owners.get? operation.id = none)
    (failed : state.addOperation fingerprint capacity operation = .error failure) :
    ¬failure.Dangling := by
  rw [addOperation] at failed
  simp only [new, Option.any_none, Option.isSome_none, Bool.false_eq_true, if_false] at failed
  split at failed
  · cases failed
  · rcases bind_eq_error_iff.mp failed with beyond | ⟨_, _, done⟩
    · rw [(checkWithin_eq_error_iff.mp beyond).2]
      rintro ⟨⟩
    · cases done

end Deduplication

namespace ArenaResolution

open ExpressionArena (markedTensors)

variable {fingerprint : Fingerprint} {capacity : Capacity} {state next : ArenaResolution}
  {seen : List (ExpressionNode × Bool)} {operations : List Operation}

section Advance

variable (state : ArenaResolution) (deduplication : Deduplication) (value : Option TensorId)
  (survivor : Option OperationId)

@[simp] theorem advance_values :
    (state.advance deduplication value survivor).values = state.values ++ [value] := rfl

@[simp] theorem advance_survivors :
    (state.advance deduplication value survivor).survivors = state.survivors ++ [survivor] := rfl

end Advance

/-- The marked nodes passed so far have what later nodes can ask of them: a tensor for each operand,
and for each operation one that stays. `operations` are those that the nodes described. -/
structure Planned (fingerprint : Fingerprint) (capacity : Capacity)
    (seen : List (ExpressionNode × Bool)) (operations : List Operation)
    (state : ArenaResolution) : Prop where
  valueCount : state.values.length = seen.length
  survivorCount : state.survivors.length = seen.length
  keeps : state.deduplication.KeepsFirsts fingerprint capacity (markedTensors seen) operations
  values : ∀ (index : Nat) (node : ExpressionNode), seen[index]? = some (node, true) →
    (∀ members pinned, node ≠ .group members pinned) →
    ∃ id, (state.values[index]?).join = some id ∧ id ∈ state.deduplication.tensors.map Tensor.id
  survivors : ∀ (index : Nat) kind elementType inputs outputs parameters,
    seen[index]? = some (.operation kind elementType inputs outputs parameters, true) →
    ∃ kept ∈ state.deduplication.operations, kept.isGroup = false ∧
      (state.survivors[index]?).join = some kept.id
  numbered : ∀ operation ∈ operations, ∃ index < seen.length, index ≤ Limit.syntheticIndex ∧
    operation.id = Limit.syntheticIds + UInt32.ofNat index
  supported : ∀ operation ∈ operations, state.deduplication.Supports operation

theorem planned_start : Planned fingerprint capacity [] [] .start :=
  ⟨rfl, rfl, Deduplication.keepsFirsts_empty, by simp, by simp, by simp, by simp⟩

theorem join_getElem?_snoc {items : List (Option UInt32)} {last : Option UInt32} {position : Nat}
    {id : UInt32} (found : (items[position]?).join = some id) :
    ((items ++ [last])[position]?).join = some id := by
  have before : position < items.length := by
    by_contra outside
    rw [List.getElem?_eq_none (Nat.not_lt.mp outside)] at found
    cases found
  rwa [List.getElem?_append_left before]

theorem Planned.extend (planned : Planned fingerprint capacity seen operations state)
    {entry : ExpressionNode × Bool} {deduplication : Deduplication} {value : Option TensorId}
    {survivor : Option OperationId} {described : List Operation}
    (keeps : deduplication.KeepsFirsts fingerprint capacity (markedTensors (seen ++ [entry]))
      (operations ++ described))
    (tensors : state.deduplication.tensors ⊆ deduplication.tensors)
    (kept : state.deduplication.operations ⊆ deduplication.operations)
    (stands : entry.2 = true → (∀ members pinned, entry.1 ≠ .group members pinned) →
      ∃ id, value = some id ∧ id ∈ deduplication.tensors.map Tensor.id)
    (stays : ∀ kind elementType inputs outputs parameters,
      entry = (.operation kind elementType inputs outputs parameters, true) →
      ∃ kept ∈ deduplication.operations, kept.isGroup = false ∧ survivor = some kept.id)
    (new : ∀ operation ∈ described, seen.length ≤ Limit.syntheticIndex ∧
      operation.id = Limit.syntheticIds + UInt32.ofNat seen.length ∧
      deduplication.Supports operation) :
    Planned fingerprint capacity (seen ++ [entry]) (operations ++ described)
      (state.advance deduplication value survivor) := by
  constructor
  case valueCount => simp [planned.valueCount]
  case survivorCount => simp [planned.survivorCount]
  case keeps => exact keeps
  case values =>
    intro index node found notGroup
    rcases eq_of_getElem?_snoc found with before | ⟨rfl, rfl⟩
    · obtain ⟨id, hasValue, known⟩ := planned.values index node before notGroup
      exact ⟨id, join_getElem?_snoc hasValue, List.map_subset _ tensors known⟩
    · obtain ⟨id, rfl, known⟩ := stands rfl notGroup
      refine ⟨id, ?_, known⟩
      rw [advance_values, ← planned.valueCount, List.getElem?_concat_length]
      rfl
  case survivors =>
    intro index kind elementType inputs outputs parameters found
    rcases eq_of_getElem?_snoc found with before | ⟨rfl, same⟩
    · obtain ⟨operation, present, plain, isSurvivor⟩ :=
        planned.survivors index kind elementType inputs outputs parameters before
      exact ⟨operation, kept present, plain, join_getElem?_snoc isSurvivor⟩
    · obtain ⟨operation, present, plain, rfl⟩ := stays _ _ _ _ _ same.symm
      refine ⟨operation, present, plain, ?_⟩
      rw [advance_survivors, ← planned.survivorCount, List.getElem?_concat_length]
      rfl
  case numbered =>
    intro operation listed
    rw [List.length_append, List.length_singleton]
    rcases List.mem_append.mp listed with before | isNew
    · obtain ⟨index, inside, numbered⟩ := planned.numbered operation before
      exact ⟨index, by omega, numbered⟩
    · obtain ⟨within, named, _⟩ := new operation isNew
      exact ⟨seen.length, by omega, within, named⟩
  case supported =>
    intro operation listed
    rcases List.mem_append.mp listed with before | isNew
    · exact (planned.supported operation before).mono tensors kept
    · exact (new operation isNew).2.2

section Step

variable {arena : ExpressionArena} {node : ExpressionNode} {roots : List NodeIndex}
  {marked : List Bool} {rest : List (ExpressionNode × Bool)}

theorem Planned.owner_none (planned : Planned fingerprint capacity seen operations state)
    (within : seen.length ≤ Limit.syntheticIndex) :
    state.deduplication.owners.get? (Limit.syntheticIds + UInt32.ofNat seen.length) = none := by
  cases owned : state.deduplication.owners.get?
      (Limit.syntheticIds + UInt32.ofNat seen.length) with
  | none => rfl
  | some owner =>
      -- Ids of owners come from earlier nodes, and no two nodes have one id.
      obtain ⟨operation, listed, same⟩ := List.mem_map.mp (planned.keeps.named _ owner owned)
      obtain ⟨index, before, earlierWithin, named⟩ := planned.numbered operation listed
      have sameNumber : UInt32.ofNat index = UInt32.ofNat seen.length :=
        (UInt32.add_right_inj _).mp (named.symm.trans same)
      have small : Limit.syntheticIndex < UInt32.size := by decide
      have sameIndex := congrArg UInt32.toNat sameNumber
      rw [UInt32.toNat_ofNat_of_lt' (by omega), UInt32.toNat_ofNat_of_lt' (by omega)] at sameIndex
      omega

theorem Planned.exists_lookup_value
    (planned : Planned fingerprint capacity seen operations state) {reference : NodeIndex}
    {other : ExpressionNode} (passed : seen[reference.toNat]? = some (other, true))
    (notGroup : ∀ members pinned, other ≠ .group members pinned) :
    ∃ id ∈ state.deduplication.tensors.map Tensor.id, lookup state.values reference = .ok id := by
  obtain ⟨id, hasValue, known⟩ := planned.values _ other passed notGroup
  exact ⟨id, known, lookup_ok_iff.mpr hasValue⟩

section Operands

variable {kind : OperationKind} {elementType : ElementType} {inputs outputs : List NodeIndex}
  {parameters : Parameters}

theorem Planned.exists_operands (planned : Planned fingerprint capacity seen operations state)
    (made : arena.Made) (reached : arena.reachable roots = .ok marked)
    (split : arena.nodes.zip marked =
      seen ++ (.operation kind elementType inputs outputs parameters, true) :: rest) :
    ∀ reference ∈ inputs ++ outputs, ∃ id ∈ state.deduplication.tensors.map Tensor.id,
      lookup state.values reference = .ok id := by
  intro reference named
  obtain ⟨other, found, passed⟩ :=
    ExpressionArena.passed_of_reference made reached split named
  refine planned.exists_lookup_value passed ?_
  cases made.admits (ExpressionArena.node_of_split split).1 with
  | operation _ _ operands written =>
      rcases List.mem_append.mp named with isInput | isOutput
      · obtain ⟨operand, isOperand, notGroup⟩ := operands reference isInput
        rw [ExpressionArena.getElem?_of_take isOperand] at found
        cases found
        exact notGroup
      · obtain ⟨_, _, holds⟩ := exists_of_forall₂ written isOutput
        rw [holds.of_take] at found
        cases found
        simp

theorem Planned.exists_members (planned : Planned fingerprint capacity seen operations state)
    (made : arena.Made) (reached : arena.reachable roots = .ok marked)
    {members : List NodeIndex} {pinned : Bool}
    (split : arena.nodes.zip marked = seen ++ (.group members pinned, true) :: rest) :
    ∀ reference ∈ members, ∃ kept ∈ state.deduplication.operations, kept.isGroup = false ∧
      lookup state.survivors reference = .ok kept.id := by
  intro reference named
  obtain ⟨other, found, passed⟩ :=
    ExpressionArena.passed_of_reference made reached split named
  cases made.admits (ExpressionArena.node_of_split split).1 with
  | group _ operations =>
      obtain ⟨_, _, _, _, _, isOperation⟩ := operations reference named
      rw [ExpressionArena.getElem?_of_take isOperation] at found
      cases found
      obtain ⟨kept, present, plain, isSurvivor⟩ := planned.survivors _ _ _ _ _ _ passed
      exact ⟨kept, present, plain, lookup_ok_iff.mpr isSurvivor⟩

end Operands

theorem forall_of_lookups {found : List (Option UInt32)} {nodes : List NodeIndex}
    {names : List UInt32} {holds : UInt32 → Prop}
    (looked : List.Forall₂ (fun node name => lookup found node = .ok name) nodes names)
    (each : ∀ node ∈ nodes, ∃ name, holds name ∧ lookup found node = .ok name) :
    ∀ name ∈ names, holds name := by
  intro name listed
  obtain ⟨node, nodeListed, isName⟩ := exists_of_forall₂ looked.flip listed
  obtain ⟨other, holdsOther, isOther⟩ := each node nodeListed
  rw [isName] at isOther
  cases isOther
  exact holdsOther

section Described

variable {kind : OperationKind} {elementType : ElementType} {inputs outputs : List NodeIndex}
  {parameters : Parameters} {members : List NodeIndex} {pinned : Bool}
  {operation : Operation} {survivor : OperationId} {deduplication : Deduplication}

theorem Planned.addOperation (planned : Planned fingerprint capacity seen operations state)
    (made : arena.Made) (reached : arena.reachable roots = .ok marked)
    (split : arena.nodes.zip marked =
      seen ++ (.operation kind elementType inputs outputs parameters, true) :: rest)
    {inputIds outputIds : List TensorId}
    (read : List.Forall₂ (fun node id => lookup state.values node = .ok id) inputs inputIds)
    (written : List.Forall₂ (fun node id => lookup state.values node = .ok id) outputs outputIds)
    (within : state.values.length ≤ Limit.syntheticIndex)
    (created : Operation.create (Limit.syntheticIds + UInt32.ofNat state.values.length) kind
      elementType inputIds outputIds parameters = .ok operation)
    (added : state.deduplication.addOperation fingerprint capacity operation =
      .ok (survivor, deduplication)) :
    Planned fingerprint capacity
      (seen ++ [(.operation kind elementType inputs outputs parameters, true)])
      (operations ++ [operation])
      (state.advance deduplication outputIds.head? (some survivor)) := by
  have operands := planned.exists_operands made reached split
  have keeps := planned.keeps.absorb (Deduplication.absorb_ok_iff.mpr ⟨survivor, added⟩)
  obtain ⟨sameTensors, kept, stays, present, rfl, alike⟩ := Deduplication.addOperation_extends added
  have valid := Operation.validate_of_create created
  obtain ⟨notMarker, _, _, _, same⟩ := Operation.create_ok_iff.mp created
  have plain : operation.isGroup = false := by
    rw [same]
    exact notMarker
  subst same
  have known : ∀ name ∈ inputIds ++ outputIds, name ∈ deduplication.tensors.map Tensor.id := by
    rw [sameTensors]
    exact forall_of_lookups (List.rel_append read written) operands
  rw [planned.valueCount] at within
  refine planned.extend ?_ (sameTensors ▸ List.Subset.refl _) kept (fun _ _ => ?_) ?_ ?_
  · simpa [markedTensors] using keeps
  · cases made.admits (ExpressionArena.node_of_split split).1 with
    | operation _ _ _ tensors =>
        cases tensors with
        | cons _ _ =>
            cases written with
            | @cons _ first _ _ _ _ => exact ⟨first, rfl, known first (by simp)⟩
  · intro _ _ _ _ _ _
    refine ⟨stays, present, ?_, rfl⟩
    rw [Operation.isGroup, alike]
    exact plain
  · rw [List.forall_mem_singleton]
    refine ⟨within, by rw [planned.valueCount], valid, fun _ => known, ?_⟩
    simp [Operation.memberIds_of_not_isGroup plain]

theorem Planned.addGroup (planned : Planned fingerprint capacity seen operations state)
    (made : arena.Made) (reached : arena.reachable roots = .ok marked)
    (split : arena.nodes.zip marked = seen ++ (.group members pinned, true) :: rest)
    {memberIds : List OperationId}
    (named : List.Forall₂ (fun node id => lookup state.survivors node = .ok id) members memberIds)
    (within : state.values.length ≤ Limit.syntheticIndex)
    (grouped : Operation.group (Limit.syntheticIds + UInt32.ofNat state.values.length) memberIds
      pinned = .ok operation)
    (added : state.deduplication.addOperation fingerprint capacity operation =
      .ok (survivor, deduplication)) :
    Planned fingerprint capacity (seen ++ [(.group members pinned, true)])
      (operations ++ [operation]) (state.advance deduplication none (some survivor)) := by
  have keeps := planned.keeps.absorb (Deduplication.absorb_ok_iff.mpr ⟨survivor, added⟩)
  obtain ⟨sameTensors, kept, _⟩ := Deduplication.addOperation_extends added
  have valid := Operation.validate_of_group grouped
  obtain ⟨_, rfl⟩ := Operation.group_ok_iff.mp grouped
  have stay : ∀ id ∈ memberIds,
      ∃ member ∈ deduplication.operations, member.isGroup = false ∧ member.id = id := by
    refine forall_of_lookups named fun node listed => ?_
    obtain ⟨member, present, plain, isSurvivor⟩ :=
      planned.exists_members made reached split node listed
    exact ⟨member.id, ⟨member, kept present, plain, rfl⟩, isSurvivor⟩
  rw [planned.valueCount] at within
  refine planned.extend ?_ (sameTensors ▸ List.Subset.refl _) kept ?_ (by simp) ?_
  · simpa [markedTensors] using keeps
  · exact fun _ notGroup => absurd rfl (notGroup members pinned)
  · rw [List.forall_mem_singleton]
    exact ⟨within, by rw [planned.valueCount], valid, (fun plain => by cases plain), stay⟩

end Described

theorem Planned.skip (planned : Planned fingerprint capacity seen operations state)
    (node : ExpressionNode) :
    Planned fingerprint capacity (seen ++ [(node, false)]) operations
      (state.advance state.deduplication none none) := by
  have keeps : state.deduplication.KeepsFirsts fingerprint capacity
      (markedTensors (seen ++ [(node, false)])) (operations ++ []) := by
    simpa [markedTensors] using planned.keeps
  rw [← List.append_nil operations]
  exact planned.extend keeps (List.Subset.refl _) (List.Subset.refl _) (by simp) (by simp)
    (by simp)

theorem Planned.addTensor (planned : Planned fingerprint capacity seen operations state)
    {tensor : Tensor} {deduplication : Deduplication}
    (added : state.deduplication.addTensor capacity tensor = .ok deduplication) :
    Planned fingerprint capacity (seen ++ [(.tensor tensor, true)]) operations
      (state.advance deduplication (some tensor.id) none) := by
  have keeps : deduplication.KeepsFirsts fingerprint capacity
      (markedTensors (seen ++ [(.tensor tensor, true)])) (operations ++ []) := by
    simpa [markedTensors] using planned.keeps.addTensor added
  obtain ⟨tensors, sameKept⟩ := Deduplication.addTensor_subset added
  have sameOperations : deduplication.operations = state.deduplication.operations := by
    rw [Deduplication.operations, sameKept, Deduplication.operations]
  have known : tensor.id ∈ deduplication.tensors.map Tensor.id :=
    List.mem_map_of_mem (keeps.tensorsListed tensor (by simp [markedTensors]))
  rw [← List.append_nil operations]
  exact planned.extend keeps tensors (sameOperations ▸ List.Subset.refl _)
    (fun _ _ => ⟨tensor.id, rfl, known⟩) (by simp) (by simp)

theorem Planned.visit (planned : Planned fingerprint capacity seen operations state)
    (made : arena.Made) (reached : arena.reachable roots = .ok marked)
    {entry : ExpressionNode × Bool} (split : arena.nodes.zip marked = seen ++ entry :: rest)
    (visited : state.visit fingerprint capacity entry = .ok next) :
    ∃ extended, Planned fingerprint capacity (seen ++ [entry]) extended next := by
  cases visit_ok_iff.mp visited with
  | skip node => exact ⟨_, planned.skip node⟩
  | tensor _ added => exact ⟨_, planned.addTensor added⟩
  | operation read written within created added =>
      exact ⟨_, planned.addOperation made reached split read written within created added⟩
  | group named within marker added =>
      exact ⟨_, planned.addGroup made reached split named within marker added⟩

theorem Planned.members (planned : Planned fingerprint capacity seen operations state) :
    ∀ marker ∈ state.deduplication.operations, ∀ id ∈ marker.memberIds,
      ∃ member ∈ state.deduplication.operations, member.isGroup = false ∧ member.id = id :=
  fun marker kept =>
    (planned.supported marker (planned.keeps.selection.subset kept)).members

theorem Planned.hoistMarkers_perm (planned : Planned fingerprint capacity seen operations state) :
    (hoistMarkers state.deduplication.operations).Perm state.deduplication.operations :=
  Hoisting.hoistMarkers_perm planned.keeps.distinct
    (Grouping.plain_of_members planned.keeps.distinct planned.members)

theorem not_dangling_of_syntheticId {index : Nat} {failure : GraphError}
    (failed : syntheticId index = .error failure) : ¬failure.Dangling := by
  rcases bind_eq_error_iff.mp failed with beyond | ⟨_, _, done⟩
  · rw [(checkWithin_eq_error_iff.mp beyond).2]
    rintro ⟨⟩
  · cases done

theorem Planned.not_dangling (planned : Planned fingerprint capacity seen operations state)
    (made : arena.Made) (reached : arena.reachable roots = .ok marked)
    {entry : ExpressionNode × Bool} (split : arena.nodes.zip marked = seen ++ entry :: rest)
    {failure : GraphError} (failed : state.visit fingerprint capacity entry = .error failure) :
    ¬failure.Dangling := by
  have new : ∀ {id}, syntheticId state.values.length = .ok id →
      state.deduplication.owners.get? id = none := by
    intro id isId
    obtain ⟨within, rfl⟩ := syntheticId_ok_iff.mp isId
    rw [planned.valueCount] at within ⊢
    exact planned.owner_none within
  obtain ⟨node, mark⟩ := entry
  rw [ArenaResolution.visit] at failed
  cases mark with
  | false => cases failed
  | true =>
      rw [if_pos rfl] at failed
      cases node with
      | tensor tensor =>
          rw [step] at failed
          split at failed
          · cases failed
            rintro ⟨⟩
          · rcases bind_eq_error_iff.mp failed with refused | ⟨_, _, done⟩
            · exact Deduplication.not_dangling_of_addTensor refused
            · cases done
      | operation kind elementType inputs outputs parameters =>
          have operands : ∀ reference ∈ inputs ++ outputs,
              ∃ id, lookup state.values reference = .ok id :=
            fun reference listed =>
              (planned.exists_operands made reached split reference listed).imp fun _ => And.right
          rw [step] at failed
          simp only [bind_eq_error_iff] at failed
          rcases failed with missing | ⟨_, _, missing | ⟨_, _, noId | ⟨id, isId, refused |
            ⟨operation, created, clash | ⟨_, _, done⟩⟩⟩⟩⟩
          · exact absurd missing (mapM_ne_error fun reference listed =>
              operands reference (List.mem_append_left _ listed))
          · exact absurd missing (mapM_ne_error fun reference listed =>
              operands reference (List.mem_append_right _ listed))
          · exact not_dangling_of_syntheticId noId
          · exact (Operation.refusal_of_create refused).not_dangling
          · obtain ⟨_, _, _, _, rfl⟩ := Operation.create_ok_iff.mp created
            exact Deduplication.not_dangling_of_addOperation (new isId) clash
          · cases done
      | group members pinned =>
          rw [step] at failed
          simp only [bind_eq_error_iff] at failed
          rcases failed with missing | ⟨_, _, noId | ⟨id, isId, refused | ⟨operation, marker,
            clash | ⟨_, _, done⟩⟩⟩⟩
          · refine absurd missing (mapM_ne_error fun reference listed => ?_)
            obtain ⟨kept, _, _, found⟩ := planned.exists_members made reached split reference listed
            exact ⟨kept.id, found⟩
          · exact not_dangling_of_syntheticId noId
          · exact (Operation.refusal_of_group refused).not_dangling
          · obtain ⟨_, rfl⟩ := Operation.group_ok_iff.mp marker
            exact Deduplication.not_dangling_of_addOperation (new isId) clash
          · cases done

end Step

end ArenaResolution

namespace Resolution

/-- What the plan names is there, once, and in an order in which groups can be arranged. -/
structure Placeable (resolution : Resolution) (capacity : Capacity) : Prop where
  /-- Every member of a group stands to the right of its marker. -/
  markersFirst : Grouping.Placed resolution.operations
  operandsKnown : ∀ operation ∈ resolution.operations, operation.isGroup = false →
    ∀ name ∈ operation.inputs ++ operation.outputs, name ∈ resolution.tensors.map Tensor.id
  tensorIds : (resolution.tensors.map Tensor.id).Nodup
  operationIds : (ids resolution.operations).Nodup
  operationsValid : ∀ operation ∈ resolution.operations, operation.validate = .ok ()
  tensorCount : resolution.tensors.length ≤ capacity.tensors.toNat
  operationCount : resolution.operations.length ≤ capacity.operations.toNat

variable {resolution : Resolution} {capacity : Capacity} {failure : GraphError}

theorem Placeable.not_incomplete (placeable : resolution.Placeable capacity)
    (failed : resolution.toGraph capacity = .error failure) : ¬failure.Incomplete := by
  cases Graph.refusal_of_build failed with
  | tensorCount beyond => exact absurd placeable.tensorCount (Nat.not_le.mpr beyond)
  | operationCount beyond => exact absurd placeable.operationCount (Nat.not_le.mpr beyond)
  | tensor _ refused =>
      cases Tensor.refusal_of_validate refused with
      | rank _ => rintro ⟨⟩
      | shape => rintro ⟨⟩
      | overflow _ => rintro ⟨⟩
  | tensorTwice repeated _ => exact absurd placeable.tensorIds repeated
  | operation listed refused =>
      rw [placeable.operationsValid _ listed] at refused
      cases refused
  | operationTwice repeated _ => exact absurd placeable.operationIds repeated
  | groups refused =>
      cases refused with
      | group _ _ => rintro ⟨⟩
      | misplaced misplaced =>
          exact absurd misplaced (Grouping.not_misplaced_of_placed placeable.markersFirst)
  | connections grouped refused =>
      cases refused with
      | unresolved listed plain operand unknown =>
          have same := (arrangeGroups_ok placeable.operationIds grouped).2
          exact absurd (placeable.operandsKnown _ (same.mem_iff.mp listed) plain _ operand) unknown
      | fanOut _ => rintro ⟨⟩
      | producers _ _ _ => rintro ⟨⟩
  | cyclic => rintro ⟨⟩

theorem placeable_of_planned {fingerprint : Fingerprint}
    {seen : List (ExpressionNode × Bool)} {operations : List Operation} {state : ArenaResolution}
    (planned : state.Planned fingerprint capacity seen operations) :
    Placeable ⟨state.deduplication.tensors, hoistMarkers state.deduplication.operations,
      state.redirects, state.deduplication.merged⟩ capacity := by
  have keeps := planned.keeps
  have supported : ∀ operation ∈ state.deduplication.operations,
      state.deduplication.Supports operation :=
    fun operation kept => planned.supported operation (keeps.selection.subset kept)
  have same := planned.hoistMarkers_perm
  constructor
  case markersFirst => exact Grouping.placed_hoistMarkers keeps.distinct planned.members
  case operandsKnown =>
    exact fun operation hoisted => (supported operation (same.mem_iff.mp hoisted)).operands
  case tensorIds =>
    dsimp only
    rw [keeps.tensorFirsts]
    exact map_firstsBy_nodup _
  case operationIds => exact (same.map _).nodup_iff.mpr keeps.distinct
  case operationsValid =>
    exact fun operation hoisted => (supported operation (same.mem_iff.mp hoisted)).valid
  case tensorCount => exact keeps.tensorsWithin
  case operationCount =>
    dsimp only
    rw [same.length_eq, Deduplication.operations, List.length_map]
    exact keeps.operationsWithin

/-- An arena that was filled through its own functions is resolved without a dangling reference,
and what it resolves to lacks nothing: what can still be wrong with the plan are single tensors,
fan-out, overlapping groups, two writers of a tensor, and cycles. -/
theorem ofArena_placeable {arena : ExpressionArena} {roots : List NodeIndex} (made : arena.Made)
    (inside : ∀ root ∈ roots, root.toNat < arena.size) (capacity : Capacity) :
    (∀ failure, ofArena capacity arena roots = .error failure → ¬failure.Dangling) ∧
      ∀ resolution, ofArena capacity arena roots = .ok resolution →
        resolution.Placeable capacity ∧
          ∀ failure, resolution.toGraph capacity = .error failure → ¬failure.Incomplete := by
  obtain ⟨marked, reached⟩ := ExpressionArena.exists_reachable made inside
  have kept : ∀ seen entry rest state next, arena.nodes.zip marked = seen ++ entry :: rest →
      (∃ operations, ArenaResolution.Planned .standard capacity seen operations state) →
      state.visit .standard capacity entry = .ok next →
      ∃ operations, ArenaResolution.Planned .standard capacity (seen ++ [entry]) operations next :=
    fun _ _ _ _ _ split ⟨_, planned⟩ visited => planned.visit made reached split visited
  have start : ∃ operations, ArenaResolution.Planned .standard capacity [] operations .start :=
    ⟨[], ArenaResolution.planned_start⟩
  constructor
  · intro failure failed
    rcases bind_eq_error_iff.mp failed with missing | ⟨_, isMarked, failed⟩
    · rw [reached] at missing
      cases missing
    rw [reached] at isMarked
    cases isMarked
    rcases bind_eq_error_iff.mp failed with failed | ⟨_, _, done⟩
    · obtain ⟨_, _, _, _, split, ⟨_, planned⟩, failedThere⟩ :=
        exists_of_foldlM_error kept start failed
      exact planned.not_dangling made reached split failedThere
    · cases done
  · intro resolution resolved
    simp only [ofArena, ofArenaWith, reached, bind_eq_ok_iff] at resolved
    obtain ⟨_, isMarked, state, visited, same⟩ := resolved
    cases isMarked
    obtain ⟨_, planned⟩ := foldlM_induction kept start visited
    cases same
    have placeable := placeable_of_planned planned
    exact ⟨placeable, fun failure failed => placeable.not_incomplete failed⟩

/-- The group names a duplicate, and what stays for it stands in front of the marker until that is
moved. -/
theorem ofArena_placeable_shared : ∃ arena resolution graph,
    sharedCopies.addGroup [4, 5] false = .ok (8, arena) ∧
      (∀ root ∈ [3, 8], UInt32.toNat root < arena.size) ∧
      ofArena ⟨8, 8⟩ arena [3, 8] = .ok resolution ∧
      resolution.redirect? 4 = some (Limit.syntheticIds + 3) ∧
      ids resolution.operations =
        [Limit.syntheticIds + 8, Limit.syntheticIds + 3, Limit.syntheticIds + 5] ∧
      resolution.toGraph ⟨8, 8⟩ = .ok graph ∧ resolution.Placeable ⟨8, 8⟩ := by
  obtain ⟨arena, resolution, graph, added, size, resolved, merged, order, built⟩ :
      ∃ arena resolution graph, sharedCopies.addGroup [4, 5] false = .ok (8, arena) ∧
        arena.size = 9 ∧
        ofArena ⟨8, 8⟩ arena [3, 8] = .ok resolution ∧
        resolution.redirect? 4 = some (Limit.syntheticIds + 3) ∧
        ids resolution.operations =
          [Limit.syntheticIds + 8, Limit.syntheticIds + 3, Limit.syntheticIds + 5] ∧
        resolution.toGraph ⟨8, 8⟩ = .ok graph :=
    ⟨_, _, _, rfl, rfl, rfl, rfl, rfl, rfl⟩
  have made := made_sharedCopies.addGroup added
  have inside : ∀ root ∈ [3, 8], UInt32.toNat root < arena.size := by simp [size]
  have placeable := ((ofArena_placeable made inside ⟨8, 8⟩).2 resolution resolved).1
  exact ⟨arena, resolution, graph, added, inside, resolved, merged, order, built, placeable⟩

end Resolution

end TensorGraph
