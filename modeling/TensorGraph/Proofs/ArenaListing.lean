import Mathlib.Tactic.IntervalCases
import TensorGraph.Proofs.ArenaReachability
import TensorGraph.Proofs.FlatResolution
import TensorGraph.Proofs.Hoisting
import TensorGraph.Proofs.Resolvable

/-!
Arenas and flat symbols are resolved alike. Passing the nodes of an arena one by one keeps the first
tensor of each id and the first operation of each computation among those listed so far, which is
what the two passes over a flat listing keep.
-/

namespace TensorGraph

open Operation (ids)

namespace ExpressionArena

def tensorId? (arena : ExpressionArena) (index : NodeIndex) : Option TensorId :=
  match arena.nodes[index.toNat]? with
  | some (.tensor tensor) => some tensor.id
  | _ => none

/-- Tensor that a node stands for as an operand; an operation stands for its first output. -/
def operand? (arena : ExpressionArena) (index : Nat) : Option TensorId :=
  match arena.nodes[index]? with
  | some (.tensor tensor) => some tensor.id
  | some (.operation _ _ _ (first :: _) _) => arena.tensorId? first
  | _ => none

def operationAt? (arena : ExpressionArena) (entry : ExpressionNode × Nat) : Option Operation :=
  match entry.1 with
  | .operation kind elementType inputs outputs parameters => do
      let inputIds ← inputs.mapM fun input => arena.operand? input.toNat
      let outputIds ← outputs.mapM fun output => arena.operand? output.toNat
      return {
        id := Limit.syntheticIds + UInt32.ofNat entry.2
        kind
        elementType := some elementType
        inputs := inputIds
        outputs := outputIds
        parameters }
  | _ => none

def markedTensors (entries : List (ExpressionNode × Bool)) : List Tensor :=
  entries.filterMap fun entry =>
    match entry with
    | (.tensor tensor, true) => some tensor
    | _ => none

def markedOperations (entries : List (ExpressionNode × Bool)) : List (ExpressionNode × Nat) :=
  entries.zipIdx.filterMap fun entry =>
    match entry with
    | ((.operation kind elementType inputs outputs parameters, true), index) =>
        some (.operation kind elementType inputs outputs parameters, index)
    | _ => none

def listing? (arena : ExpressionArena) (marked : List Bool) (container : Capacity) :
    Option SymbolTable := do
  let entries := arena.nodes.zip marked
  let operations ← (markedOperations entries).mapM arena.operationAt?
  return ⟨container, markedTensors entries, operations⟩

end ExpressionArena

open ExpressionArena (markedTensors markedOperations)

theorem Deduplication.owners_of_addOperation {fingerprint : Fingerprint} {capacity : Capacity}
    {state next : Deduplication} {operation : Operation} {survivor : OperationId}
    (added : state.addOperation fingerprint capacity operation = .ok (survivor, next)) :
    next.owners = state.owners.insert operation.id survivor := by
  rcases addOperation_ok_iff.mp added with ⟨_, _, rfl⟩ | ⟨_, rfl, _, _, rfl⟩
  · rfl
  · rfl

namespace ArenaResolution

variable {fingerprint : Fingerprint} {capacity : Capacity} {state next : ArenaResolution}

theorem lookup_ok_iff {found : List (Option UInt32)} {node : NodeIndex} {id : UInt32} :
    lookup found node = .ok id ↔ (found[node.toNat]?).join = some id := by
  rw [lookup]
  cases (found[node.toNat]?).join with
  | none => simp
  | some other => simp

theorem syntheticId_ok_iff {index : Nat} {id : OperationId} :
    syntheticId index = .ok id ↔
      index ≤ Limit.syntheticIndex ∧ id = Limit.syntheticIds + UInt32.ofNat index := by
  rw [syntheticId, seq_eq_ok_iff, checkWithin_ok_iff]
  simp [pure, Except.pure, eq_comm]

inductive Visits (fingerprint : Fingerprint) (capacity : Capacity) (state : ArenaResolution) :
    ExpressionNode × Bool → ArenaResolution → Prop
  | skip (node : ExpressionNode) :
      Visits fingerprint capacity state (node, false) (state.advance state.deduplication none none)
  | tensor {tensor : Tensor} {deduplication : Deduplication}
      (unreserved : tensor.id < Limit.syntheticIds)
      (added : state.deduplication.addTensor capacity tensor = .ok deduplication) :
      Visits fingerprint capacity state (.tensor tensor, true)
        (state.advance deduplication (some tensor.id) none)
  | operation {kind : OperationKind} {elementType : ElementType} {inputs outputs : List NodeIndex}
      {parameters : Parameters} {inputIds outputIds : List TensorId} {operation : Operation}
      {survivor : OperationId} {deduplication : Deduplication}
      (read : List.Forall₂ (fun node id => lookup state.values node = .ok id) inputs inputIds)
      (written : List.Forall₂ (fun node id => lookup state.values node = .ok id) outputs outputIds)
      (within : state.values.length ≤ Limit.syntheticIndex)
      (created : Operation.create (Limit.syntheticIds + UInt32.ofNat state.values.length) kind
        elementType inputIds outputIds parameters = .ok operation)
      (added : state.deduplication.addOperation fingerprint capacity operation =
        .ok (survivor, deduplication)) :
      Visits fingerprint capacity state
        (.operation kind elementType inputs outputs parameters, true)
        (state.advance deduplication outputIds.head? (some survivor))
  | group {members : List NodeIndex} {pinned : Bool} {memberIds : List OperationId}
      {marker : Operation} {survivor : OperationId} {deduplication : Deduplication}
      (named : List.Forall₂ (fun node id => lookup state.survivors node = .ok id) members memberIds)
      (within : state.values.length ≤ Limit.syntheticIndex)
      (made : Operation.group (Limit.syntheticIds + UInt32.ofNat state.values.length) memberIds
        pinned = .ok marker)
      (added : state.deduplication.addOperation fingerprint capacity marker =
        .ok (survivor, deduplication)) :
      Visits fingerprint capacity state (.group members pinned, true)
        (state.advance deduplication none (some survivor))

theorem visit_ok_iff {entry : ExpressionNode × Bool} :
    state.visit fingerprint capacity entry = .ok next ↔
      Visits fingerprint capacity state entry next := by
  obtain ⟨node, mark⟩ := entry
  rw [visit]
  cases mark with
  | false =>
      constructor
      · intro done
        cases done
        exact .skip node
      · intro visits
        cases visits
        rfl
  | true =>
      dsimp only
      rw [if_pos rfl]
      cases node with
      | tensor tensor =>
          rw [step]
          by_cases reserved : Limit.syntheticIds ≤ tensor.id
          · rw [if_pos reserved]
            constructor
            · intro done
              cases done
            · intro visits
              cases visits with
              | tensor unreserved _ => exact absurd reserved (UInt32.not_le.mpr unreserved)
          · rw [if_neg reserved, bind_eq_ok_iff]
            constructor
            · rintro ⟨deduplication, added, done⟩
              cases done
              exact .tensor (UInt32.not_le.mp reserved) added
            · intro visits
              cases visits with
              | tensor _ added => exact ⟨_, added, rfl⟩
      | operation kind elementType inputs outputs parameters =>
          rw [step]
          simp only [bind_eq_ok_iff, mapM_eq_ok_iff, syntheticId_ok_iff]
          constructor
          · rintro ⟨inputIds, read, outputIds, written, id, ⟨within, rfl⟩, operation, created,
              ⟨survivor, deduplication⟩, added, done⟩
            cases done
            exact .operation read written within created added
          · intro visits
            cases visits with
            | operation read written within created added =>
                exact ⟨_, read, _, written, _, ⟨within, rfl⟩, _, created, _, added, rfl⟩
      | group members pinned =>
          rw [step]
          simp only [bind_eq_ok_iff, mapM_eq_ok_iff, syntheticId_ok_iff]
          constructor
          · rintro ⟨memberIds, named, id, ⟨within, rfl⟩, marker, made, ⟨survivor, deduplication⟩,
              added, done⟩
            cases done
            exact .group named within made added
          · intro visits
            cases visits with
            | group named within made added =>
                exact ⟨_, named, _, ⟨within, rfl⟩, _, made, _, added, rfl⟩

/-- The nodes passed so far, without groups among them: their tensors and operations are listed and
the first ones kept, values are what operands stand for, and redirects are the owners. -/
structure Passed (arena : ExpressionArena) (fingerprint : Fingerprint) (capacity : Capacity)
    (seen : List (ExpressionNode × Bool)) (operations : List Operation)
    (state : ArenaResolution) : Prop where
  length : state.values.length = seen.length
  listed : List.Forall₂ (fun entry operation => arena.operationAt? entry = some operation)
    (markedOperations seen) operations
  plain : ∀ operation ∈ operations, operation.isGroup = false
  keeps : state.deduplication.KeepsFirsts fingerprint capacity (markedTensors seen) operations
  values : ∀ (index : Nat) (id : TensorId), (state.values[index]?).join = some id →
    arena.operand? index = some id
  redirects : ∀ index, state.redirects.get? index =
    state.deduplication.owners.get? (Limit.syntheticIds + index)

variable {arena : ExpressionArena} {seen : List (ExpressionNode × Bool)}
  {operations : List Operation}

theorem passed_start : Passed arena fingerprint capacity [] [] .start :=
  ⟨rfl, .nil, by simp, Deduplication.keepsFirsts_empty, by simp [start], fun _ => rfl⟩

theorem stands_snoc {values : List (Option TensorId)}
    (stands : ∀ (index : Nat) (id : TensorId), (values[index]?).join = some id →
      arena.operand? index = some id)
    {value : Option TensorId}
    (new : ∀ id, value = some id → arena.operand? values.length = some id) (index : Nat)
    (id : TensorId) (found : ((values ++ [value])[index]?).join = some id) :
    arena.operand? index = some id := by
  rcases eq_of_getElem?_snoc (Option.join_eq_some_iff.mp found) with before | ⟨rfl, isValue⟩
  · exact stands index id (Option.join_eq_some_iff.mpr before)
  · exact new id isValue.symm

theorem mapM_operand? {values : List (Option TensorId)}
    (stands : ∀ (index : Nat) (id : TensorId), (values[index]?).join = some id →
      arena.operand? index = some id)
    {nodes : List NodeIndex} {ids : List TensorId}
    (found : List.Forall₂ (fun node id => lookup values node = .ok id) nodes ids) :
    nodes.mapM (fun node => arena.operand? node.toNat) = some ids :=
  mapM_eq_some_iff.mpr (found.imp fun node id looked =>
    stands node.toNat id (lookup_ok_iff.mp looked))

theorem operand?_of_written (made : arena.Made) {kind : OperationKind} {elementType : ElementType}
    {inputs outputs : List NodeIndex} {parameters : Parameters} {outputIds : List TensorId}
    {index : Nat}
    (isNode : arena.nodes[index]? = some (.operation kind elementType inputs outputs parameters))
    (written : outputs.mapM (fun output => arena.operand? output.toNat) = some outputIds)
    {id : TensorId} (first : outputIds.head? = some id) : arena.operand? index = some id := by
  cases made.admits isNode with
  | operation _ _ _ tensors =>
      cases tensors with
      | @cons output _ _ _ holds _ =>
          have isTensor := holds.of_take
          cases mapM_eq_some_iff.mp written with
          | cons stands _ =>
              cases first
              rw [ExpressionArena.operand?, isTensor] at stands
              rw [ExpressionArena.operand?, isNode]
              dsimp only
              rw [ExpressionArena.tensorId?, isTensor]
              exact stands

/-- Both tables get the same entry, under keys that differ by the first of the synthetic ids. -/
theorem redirects_insert {redirects owners : Redirects}
    (agree : ∀ index, redirects.get? index = owners.get? (Limit.syntheticIds + index))
    (key : NodeIndex) (survivor : OperationId) (index : NodeIndex) :
    (redirects.insert key survivor).get? index =
      (owners.insert (Limit.syntheticIds + key) survivor).get? (Limit.syntheticIds + index) := by
  by_cases same : index = key
  · rw [same, Redirects.get?_insert_self, Redirects.get?_insert_self]
  · have apart : Limit.syntheticIds + index ≠ Limit.syntheticIds + key :=
      fun collides => same ((UInt32.add_right_inj _).mp collides)
    rw [Redirects.get?_insert_of_ne _ _ same, Redirects.get?_insert_of_ne _ _ apart]
    exact agree index

theorem Passed.skip (passed : Passed arena fingerprint capacity seen operations state)
    (node : ExpressionNode) :
    Passed arena fingerprint capacity (seen ++ [(node, false)]) operations
      (state.advance state.deduplication none none) := by
  have sameTensors : markedTensors (seen ++ [(node, false)]) = markedTensors seen := by
    simp [markedTensors]
  have sameOperations : markedOperations (seen ++ [(node, false)]) = markedOperations seen := by
    simp [markedOperations, List.zipIdx_append]
  refine ⟨?_, ?_, passed.plain, ?_, stands_snoc passed.values (fun _ isValue => ?_),
    passed.redirects⟩
  · simp [advance, passed.length]
  · rw [sameOperations]
    exact passed.listed
  · rw [sameTensors]
    exact passed.keeps
  · cases isValue

theorem Passed.tensor (passed : Passed arena fingerprint capacity seen operations state)
    {tensor : Tensor} {deduplication : Deduplication}
    (isNode : arena.nodes[seen.length]? = some (.tensor tensor))
    (added : state.deduplication.addTensor capacity tensor = .ok deduplication) :
    Passed arena fingerprint capacity (seen ++ [(.tensor tensor, true)]) operations
      (state.advance deduplication (some tensor.id) none) := by
  have oneMore : markedTensors (seen ++ [(.tensor tensor, true)]) =
      markedTensors seen ++ [tensor] := by
    simp [markedTensors]
  have sameOperations : markedOperations (seen ++ [(.tensor tensor, true)]) =
      markedOperations seen := by
    simp [markedOperations, List.zipIdx_append]
  refine ⟨?_, ?_, passed.plain, ?_, stands_snoc passed.values (fun id isValue => ?_),
    fun index => ?_⟩
  · simp [advance, passed.length]
  · rw [sameOperations]
    exact passed.listed
  · rw [oneMore]
    exact passed.keeps.addTensor added
  · cases isValue
    rw [passed.length, ExpressionArena.operand?, isNode]
  · rw [advance, Deduplication.addTensor_eq passed.keeps.tensorFirsts added]
    exact passed.redirects index

theorem Passed.operation (passed : Passed arena fingerprint capacity seen operations state)
    (made : arena.Made) {kind : OperationKind} {elementType : ElementType}
    {inputs outputs : List NodeIndex} {parameters : Parameters}
    {inputIds outputIds : List TensorId} {operation : Operation} {survivor : OperationId}
    {deduplication : Deduplication}
    (isNode : arena.nodes[seen.length]? =
      some (.operation kind elementType inputs outputs parameters))
    (read : List.Forall₂ (fun node id => lookup state.values node = .ok id) inputs inputIds)
    (written : List.Forall₂ (fun node id => lookup state.values node = .ok id) outputs outputIds)
    (created : Operation.create (Limit.syntheticIds + UInt32.ofNat state.values.length) kind
      elementType inputIds outputIds parameters = .ok operation)
    (added : state.deduplication.addOperation fingerprint capacity operation =
      .ok (survivor, deduplication)) :
    Passed arena fingerprint capacity
      (seen ++ [(.operation kind elementType inputs outputs parameters, true)])
      (operations ++ [operation])
      (state.advance deduplication outputIds.head? (some survivor)) := by
  obtain ⟨notMarker, _, _, _, rfl⟩ := Operation.create_ok_iff.mp created
  have sameTensors : markedTensors
      (seen ++ [(.operation kind elementType inputs outputs parameters, true)]) =
        markedTensors seen := by
    simp [markedTensors]
  have oneMore : markedOperations
      (seen ++ [(.operation kind elementType inputs outputs parameters, true)]) =
        markedOperations seen ++
          [(.operation kind elementType inputs outputs parameters, seen.length)] := by
    simp [markedOperations, List.zipIdx_append]
  have writes := mapM_operand? passed.values written
  refine ⟨?_, ?_, ?_, ?_, stands_snoc passed.values fun id first => ?_, fun index => ?_⟩
  · simp [advance, passed.length]
  · rw [oneMore]
    refine List.rel_append passed.listed (.cons ?_ .nil)
    rw [ExpressionArena.operationAt?]
    dsimp only
    rw [mapM_operand? passed.values read, writes, passed.length]
    rfl
  · rw [List.forall_mem_append, List.forall_mem_singleton]
    exact ⟨passed.plain, notMarker⟩
  · rw [sameTensors]
    exact passed.keeps.absorb (Deduplication.absorb_ok_iff.mpr ⟨survivor, added⟩)
  · rw [passed.length]
    exact operand?_of_written made isNode writes first
  · rw [advance, Deduplication.owners_of_addOperation added]
    exact redirects_insert passed.redirects _ survivor index

theorem Passed.visit (passed : Passed arena fingerprint capacity seen operations state)
    (made : arena.Made) {entry : ExpressionNode × Bool}
    (isNode : arena.nodes[seen.length]? = some entry.1)
    (noGroup : entry.2 = true → ∀ members pinned, entry.1 ≠ .group members pinned)
    (visited : state.visit fingerprint capacity entry = .ok next) :
    ∃ extended, Passed arena fingerprint capacity (seen ++ [entry]) extended next := by
  cases visit_ok_iff.mp visited with
  | skip node => exact ⟨_, passed.skip node⟩
  | tensor _ added => exact ⟨_, passed.tensor isNode added⟩
  | operation read written _ created added =>
      exact ⟨_, passed.operation made isNode read written created added⟩
  | group _ _ _ _ => exact absurd rfl (noGroup rfl _ _)

theorem exists_passed (made : arena.Made) {marked : List Bool}
    (noGroups : ∀ (index : Nat) members pinned, marked[index]? = some true →
      arena.nodes[index]? ≠ some (.group members pinned))
    (visited : (arena.nodes.zip marked).foldlM (visit fingerprint capacity) .start = .ok state) :
    ∃ operations, Passed arena fingerprint capacity (arena.nodes.zip marked) operations state := by
  refine foldlM_induction
    (motive := fun seen state => ∃ operations,
      Passed arena fingerprint capacity seen operations state)
    ?_ ⟨[], passed_start⟩ visited
  rintro seen entry rest state next split ⟨operations, passed⟩ stepped
  have found : (arena.nodes.zip marked)[seen.length]? = some entry := by
    rw [split]
    simp
  obtain ⟨isNode, isMark⟩ := List.getElem?_zip_eq_some.mp found
  refine passed.visit made isNode (fun isMarked members pinned isGroup => ?_) stepped
  rw [isMarked] at isMark
  rw [isGroup] at isNode
  exact noGroups seen.length members pinned isMark isNode

end ArenaResolution

namespace Resolution

/-- Without groups to reach, an arena is resolved like the listing of what is reached. The operation
that stays for a node is the one that stays for the id made from its index. -/
theorem ofArena_listing {arena : ExpressionArena} {roots : List NodeIndex} {capacity : Capacity}
    {resolution : Resolution} (made : arena.Made)
    (noGroups : ∀ index members pinned, arena.Reaches roots index →
      arena.nodes[index]? ≠ some (.group members pinned))
    (resolved : ofArena capacity arena roots = .ok resolution) :
    ∃ marked : List Bool, marked.length = arena.size ∧
      (∀ index : Nat, marked[index]? = some true ↔ arena.Reaches roots index) ∧
      ∀ container, ∃ symbols flat, arena.listing? marked container = some symbols ∧
        symbols.resolveWithin capacity = .ok flat ∧ flat.tensors = resolution.tensors ∧
        flat.operations = resolution.operations ∧ flat.merged = resolution.merged ∧
        ∀ index, resolution.redirect? index = flat.redirect? (Limit.syntheticIds + index) := by
  simp only [ofArena, ofArenaWith, bind_eq_ok_iff] at resolved
  obtain ⟨marked, reached, state, visited, same⟩ := resolved
  obtain ⟨sameLength, exact⟩ := ExpressionArena.reachable_exact reached
  have passed := ArenaResolution.exists_passed made (fun index members pinned isMarked =>
    noGroups index members pinned ((exact index).mp isMarked)) visited
  obtain ⟨operations, passed⟩ := passed
  obtain ⟨flat, flatResolved, reports⟩ := passed.keeps.exists_resolution
  have keptPlain : ∀ operation ∈ state.deduplication.operations, operation.isGroup = false :=
    fun operation kept => passed.plain operation (passed.keeps.selection.subset kept)
  have unrenamed : flat.operations = state.deduplication.operations := by
    rw [reports.operations]
    refine (List.map_congr_left fun operation kept => ?_).trans (List.map_id' _)
    exact Operation.mapMembers_of_plain (keptPlain operation kept)
  refine ⟨marked, sameLength, exact, fun container => ?_⟩
  have listed := mapM_eq_some_iff.mpr passed.listed
  refine ⟨⟨container, markedTensors (arena.nodes.zip marked), operations⟩, flat, ?_, flatResolved,
    ?_, ?_, ?_, fun index => ?_⟩
  · rw [ExpressionArena.listing?, listed]
    rfl
  · cases same
    exact reports.tensors
  · cases same
    rw [unrenamed]
    exact (hoistMarkers_of_plain keptPlain).symm
  · cases same
    exact reports.merged
  · cases same
    rw [reports.redirects]
    exact passed.redirects index

def sharedCopies : ExpressionArena where
  nodes := [.tensor (.scalar 0 .u8), .tensor (.scalar 1 .u8), .tensor (.scalar 2 .u8),
    .operation .copy .u8 [0] [1] .empty, .operation .copy .u8 [0] [1] .empty,
    .operation .copy .u8 [4] [2] .empty, .tensor (.scalar 3 .u8), .group [3, 5] false]

theorem made_sharedCopies : sharedCopies.Made := by
  have tensors := ((ExpressionArena.Made.empty.addTensor (.scalar 0 .u8)).addTensor
    (.scalar 1 .u8)).addTensor (.scalar 2 .u8)
  have first := tensors.addOperation
    (rfl : ExpressionArena.addOperation _ .copy [0] [1] .empty = .ok (_, _))
  have second := first.addOperation
    (rfl : ExpressionArena.addOperation _ .copy [0] [1] .empty = .ok (_, _))
  have third := second.addOperation
    (rfl : ExpressionArena.addOperation _ .copy [4] [2] .empty = .ok (_, _))
  exact (third.addTensor (.scalar 3 .u8)).addGroup
    (rfl : ExpressionArena.addGroup _ [3, 5] false = .ok (_, _))

theorem ofArena_listing_shared : ∃ resolution marked symbols flat,
    ofArena ⟨8, 8⟩ sharedCopies [5, 3] = .ok resolution ∧
      sharedCopies.listing? marked ⟨8, 8⟩ = some symbols ∧
      symbols.resolveWithin ⟨8, 8⟩ = .ok flat ∧ flat.operations = resolution.operations ∧
      resolution.merged = 1 ∧ resolution.redirect? 4 = some (Limit.syntheticIds + 3) ∧
      flat.redirect? (Limit.syntheticIds + 4) = some (Limit.syntheticIds + 3) := by
  have marks : sharedCopies.reachable [5, 3] =
      .ok [true, true, true, true, true, true, false, false] := rfl
  have noGroups : ∀ index members pinned, sharedCopies.Reaches [5, 3] index →
      sharedCopies.nodes[index]? ≠ some (.group members pinned) := by
    intro index members pinned reached isGroup
    have isMarked := ((ExpressionArena.reachable_exact marks).2 index).mpr reached
    have inside : index < 8 := (List.getElem?_eq_some_iff.mp isGroup).1
    -- The only group is not marked.
    interval_cases index
    all_goals first
      | cases isMarked; done
      | cases isGroup
  obtain ⟨marked, _, _, agrees⟩ :=
    @ofArena_listing sharedCopies [5, 3] ⟨8, 8⟩ _ made_sharedCopies noGroups rfl
  obtain ⟨symbols, flat, listed, resolved, _, sameOperations, _, redirects⟩ := agrees ⟨8, 8⟩
  exact ⟨_, marked, symbols, flat, rfl, listed, resolved, sameOperations, rfl, rfl,
    (redirects 4).symm⟩

end Resolution

end TensorGraph
