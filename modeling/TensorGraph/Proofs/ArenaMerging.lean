import TensorGraph.Proofs.ArenaPlans

/-!
What an arena is merged to. Nodes are merged if they become the same operation once their operands
are replaced by tensors and their members by the operations that stay. One pass over the nodes finds
all of them, since a node refers only to nodes in front of it, for which that is settled.
-/

namespace TensorGraph

open Operation (ids)

namespace ExpressionNode

def IsSymbol : ExpressionNode → Prop
  | .tensor _ => False
  | .operation _ _ _ _ _ | .group _ _ => True

end ExpressionNode

namespace ExpressionArena

variable {arena : ExpressionArena} {redirect? : NodeIndex → Option OperationId}
  {node other : ExpressionNode} {computation : Computation}

/-- What a node computes, where `redirect?` names the operations that stay for its members. -/
inductive Becomes (arena : ExpressionArena) (redirect? : NodeIndex → Option OperationId) :
    ExpressionNode → Computation → Prop
  | operation {kind : OperationKind} {elementType : ElementType} {inputs outputs : List NodeIndex}
      {parameters : Parameters} {inputIds outputIds : List TensorId}
      (plain : kind.isGroup = false)
      (read : inputs.mapM (fun input => arena.operand? input.toNat) = some inputIds)
      (written : outputs.mapM (fun output => arena.operand? output.toNat) = some outputIds) :
      Becomes arena redirect? (.operation kind elementType inputs outputs parameters)
        ⟨kind, some elementType, inputIds, outputIds, parameters⟩
  | group {members : List NodeIndex} {pinned : Bool} {memberIds : List OperationId}
      (named : members.mapM redirect? = some memberIds) :
      Becomes arena redirect? (.group members pinned)
        ⟨.group pinned, none, memberIds, [], .empty⟩

/-- Operations alike in everything but the nodes that their operands come from, and groups of the
same operations. -/
def Alike (arena : ExpressionArena) (redirect? : NodeIndex → Option OperationId) :
    ExpressionNode → ExpressionNode → Prop
  | .operation kind elementType inputs outputs parameters,
    .operation otherKind otherType otherInputs otherOutputs otherParameters =>
      kind = otherKind ∧ elementType = otherType ∧ parameters = otherParameters ∧
        inputs.map (fun input => arena.operand? input.toNat) =
          otherInputs.map (fun input => arena.operand? input.toNat) ∧
        outputs.map (fun output => arena.operand? output.toNat) =
          otherOutputs.map (fun output => arena.operand? output.toNat)
  | .group members pinned, .group otherMembers otherPinned =>
      pinned = otherPinned ∧ members.map redirect? = otherMembers.map redirect?
  | _, _ => False

theorem Becomes.isSymbol (becomes : arena.Becomes redirect? node computation) : node.IsSymbol := by
  cases becomes with
  | operation _ _ _ => trivial
  | group _ => trivial

theorem Becomes.mono {later? : NodeIndex → Option OperationId}
    (becomes : arena.Becomes redirect? node computation)
    (remains : ∀ index id, redirect? index = some id → later? index = some id) :
    arena.Becomes later? node computation := by
  cases becomes with
  | operation plain read written => exact .operation plain read written
  | group named =>
      exact .group (mapM_eq_some_iff.mpr
        ((mapM_eq_some_iff.mp named).imp fun index id => remains index id))

theorem map_eq_map_iff_of_mapM {α β : Type} {function : α → Option β} {items others : List α}
    {results otherResults : List β} (mapped : items.mapM function = some results)
    (otherMapped : others.mapM function = some otherResults) :
    results = otherResults ↔ items.map function = others.map function := by
  have collected {list : List α} {values : List β} (found : list.mapM function = some values) :
      list.map function = values.map some := by
    rw [← List.forall₂_eq_eq_eq, List.forall₂_map_left_iff, List.forall₂_map_right_iff]
    exact mapM_eq_some_iff.mp found
  rw [collected mapped, collected otherMapped]
  exact (List.map_injective_iff.mpr (Option.some_injective β)).eq_iff.symm

theorem Becomes.eq_iff_alike {otherComputation : Computation}
    (becomes : arena.Becomes redirect? node computation)
    (otherBecomes : arena.Becomes redirect? other otherComputation) :
    computation = otherComputation ↔ arena.Alike redirect? node other := by
  cases becomes with
  | operation plain read written =>
      cases otherBecomes with
      | operation _ otherRead otherWritten =>
          rw [Alike, ← map_eq_map_iff_of_mapM read otherRead,
            ← map_eq_map_iff_of_mapM written otherWritten]
          simp only [Computation.mk.injEq, Option.some.injEq]
          tauto
      | group _ =>
          refine iff_of_false ?_ id
          rintro ⟨⟩
  | group named =>
      cases otherBecomes with
      | operation plain _ _ =>
          refine iff_of_false ?_ id
          rintro ⟨⟩
      | group otherNamed =>
          rw [Alike, ← map_eq_map_iff_of_mapM named otherNamed]
          simp

end ExpressionArena

theorem Limit.syntheticIds_add_toNat {index : NodeIndex} (within : index.toNat ≤ syntheticIndex) :
    (syntheticIds + index).toNat = syntheticIds.toNat + index.toNat := by
  rw [UInt32.toNat_add]
  exact Nat.mod_eq_of_lt (Nat.lt_of_le_of_lt (Nat.add_le_add_left within _) (by decide))

theorem Limit.toNat_ofNat_of_within {index : Nat} (within : index ≤ syntheticIndex) :
    (UInt32.ofNat index).toNat = index :=
  UInt32.toNat_ofNat_of_lt' (Nat.lt_of_le_of_lt within (by decide))

namespace Deduplication.KeepsFirsts

variable {fingerprint : Fingerprint} {capacity : Capacity} {state : Deduplication}
  {tensors : List Tensor} {seen : List Operation} {operation other : Operation}

theorem owner_eq_iff (keeps : state.KeepsFirsts fingerprint capacity tensors seen)
    (member : operation ∈ seen) (otherMember : other ∈ seen) :
    state.owners.get? operation.id = state.owners.get? other.id ↔
      operation.toComputation = other.toComputation := by
  obtain ⟨earliest, found, owned⟩ := keeps.get?_owners member
  obtain ⟨otherEarliest, otherFound, otherOwned⟩ := keeps.get?_owners otherMember
  rw [owned, otherOwned, Option.some.injEq]
  constructor
  · intro same
    have alike := keeps.alike_of_id_eq (List.mem_of_find?_eq_some found)
      (List.mem_of_find?_eq_some otherFound) same
    have isFirst : earliest.toComputation = operation.toComputation := by
      simpa [Operation.sameComputation] using List.find?_some found
    have isOtherFirst : otherEarliest.toComputation = other.toComputation := by
      simpa [Operation.sameComputation] using List.find?_some otherFound
    rw [← isFirst, ← isOtherFirst, alike]
  · intro alike
    simp only [Operation.sameComputation, alike] at found otherFound
    rw [found] at otherFound
    cases otherFound
    rfl

/-- Where ids increase, the operation that stays has the least of those that it stays for. -/
theorem owner_le (keeps : state.KeepsFirsts fingerprint capacity tensors seen)
    (increasing : (ids seen).Pairwise (· < ·)) (member : operation ∈ seen) {owner : OperationId}
    (owned : state.owners.get? operation.id = some owner) : owner ≤ operation.id := by
  obtain ⟨earliest, found, named⟩ := keeps.get?_owners member
  rw [owned] at named
  cases named
  obtain ⟨_, before, after, rfl, unlike⟩ := List.find?_eq_some_iff_append.mp found
  rcases List.mem_append.mp member with isBefore | isAfter
  · simpa [Operation.sameComputation] using unlike operation isBefore
  · rw [ids, List.map_append, List.map_cons, List.pairwise_append, List.pairwise_cons] at increasing
    rcases List.mem_cons.mp isAfter with rfl | later
    · exact UInt32.le_refl _
    · exact UInt32.le_of_lt (increasing.2.1.1 operation.id (List.mem_map_of_mem later))

end Deduplication.KeepsFirsts

namespace ArenaResolution

open ExpressionArena (markedTensors)

structure Traced (arena : ExpressionArena) (fingerprint : Fingerprint) (capacity : Capacity)
    (seen : List (ExpressionNode × Bool)) (operations : List Operation)
    (state : ArenaResolution) : Prop
    extends Planned fingerprint capacity seen operations state where
  described : ∀ operation ∈ operations, ∃ (index : NodeIndex) (node : ExpressionNode),
    seen[index.toNat]? = some (node, true) ∧ index.toNat ≤ Limit.syntheticIndex ∧
      operation.id = Limit.syntheticIds + index ∧
      arena.Becomes state.redirects.get? node operation.toComputation
  present : ∀ (index : NodeIndex) (node : ExpressionNode),
    seen[index.toNat]? = some (node, true) → node.IsSymbol →
      Limit.syntheticIds + index ∈ ids operations
  operands : ∀ (index : Nat) (id : TensorId), (state.values[index]?).join = some id →
    arena.operand? index = some id
  names : ∀ (index : NodeIndex) (id : OperationId),
    (state.survivors[index.toNat]?).join = some id → state.redirects.get? index = some id
  redirects : ∀ index, state.redirects.get? index =
    state.deduplication.owners.get? (Limit.syntheticIds + index)
  increasing : (ids operations).Pairwise (· < ·)

variable {arena : ExpressionArena} {fingerprint : Fingerprint} {capacity : Capacity}
  {state next : ArenaResolution} {seen : List (ExpressionNode × Bool)}
  {operations : List Operation}

theorem traced_start : Traced arena fingerprint capacity [] [] .start :=
  ⟨planned_start, by simp, by simp, by simp [start], by simp [start], fun _ => rfl, .nil⟩

section Pass

variable {entry : ExpressionNode × Bool} {deduplication : Deduplication} {value : Option TensorId}

theorem Traced.pass (traced : Traced arena fingerprint capacity seen operations state)
    (planned : Planned fingerprint capacity (seen ++ [entry]) operations
      (state.advance deduplication value none))
    (noSymbol : entry.2 = true → ¬entry.1.IsSymbol)
    (stands : ∀ id, value = some id → arena.operand? state.values.length = some id)
    (sameOwners : deduplication.owners = state.deduplication.owners) :
    Traced arena fingerprint capacity (seen ++ [entry]) operations
      (state.advance deduplication value none) := by
  refine ⟨planned, ?_, ?_, stands_snoc traced.operands stands, ?_, ?_, traced.increasing⟩
  · intro operation listed
    obtain ⟨index, node, passed, facts⟩ := traced.described operation listed
    have before := (List.getElem?_eq_some_iff.mp passed).1
    exact ⟨index, node, by rwa [List.getElem?_append_left before], facts⟩
  · intro index node found isSymbol
    rcases eq_of_getElem?_snoc found with before | ⟨_, rfl⟩
    · exact traced.present index node before isSymbol
    · exact absurd isSymbol (noSymbol rfl)
  · intro index id found
    rcases eq_of_getElem?_snoc (Option.join_eq_some_iff.mp found) with before | ⟨_, isNone⟩
    · exact traced.names index id (Option.join_eq_some_iff.mpr before)
    · cases isNone
  · intro index
    rw [advance, sameOwners]
    exact traced.redirects index

end Pass

section Add

variable {node : ExpressionNode} {deduplication : Deduplication} {value : Option TensorId}
  {survivor : OperationId} {operation : Operation}

theorem Traced.add (traced : Traced arena fingerprint capacity seen operations state)
    (planned : Planned fingerprint capacity (seen ++ [(node, true)]) (operations ++ [operation])
      (state.advance deduplication value (some survivor)))
    (within : state.values.length ≤ Limit.syntheticIndex)
    (named : operation.id = Limit.syntheticIds + UInt32.ofNat state.values.length)
    (becomes : arena.Becomes state.redirects.get? node operation.toComputation)
    (stands : ∀ id, value = some id → arena.operand? state.values.length = some id)
    (added : state.deduplication.addOperation fingerprint capacity operation =
      .ok (survivor, deduplication)) :
    Traced arena fingerprint capacity (seen ++ [(node, true)]) (operations ++ [operation])
      (state.advance deduplication value (some survivor)) := by
  have count := traced.valueCount
  have here := Limit.toNat_ofNat_of_within within
  -- The index of the node is a new key, so what was known under earlier keys remains.
  have newKey : state.redirects.get? (UInt32.ofNat state.values.length) = none := by
    rw [traced.redirects, count]
    exact traced.owner_none (count ▸ within)
  have remains (index : NodeIndex) (id : OperationId)
      (found : state.redirects.get? index = some id) :
      (state.redirects.insert (UInt32.ofNat state.values.length) survivor).get? index =
        some id := by
    rwa [Redirects.get?_insert_of_ne]
    rintro rfl
    rw [newKey] at found
    cases found
  refine ⟨planned, ?_, ?_, stands_snoc traced.operands stands, ?_, ?_, ?_⟩
  · rw [List.forall_mem_append, List.forall_mem_singleton]
    constructor
    · intro earlier listed
      obtain ⟨index, other, passed, small, sameId, becomesToo⟩ := traced.described earlier listed
      have before := (List.getElem?_eq_some_iff.mp passed).1
      exact ⟨index, other, by rwa [List.getElem?_append_left before], small, sameId,
        becomesToo.mono remains⟩
    · refine ⟨UInt32.ofNat state.values.length, node, ?_, ?_, named, becomes.mono remains⟩
      · rw [here, count, List.getElem?_concat_length]
      · rwa [here]
  · intro index other found isSymbol
    rw [Operation.ids_append, List.mem_append]
    rcases eq_of_getElem?_snoc found with before | ⟨isHere, _⟩
    · exact Or.inl (traced.present index other before isSymbol)
    · rw [← count] at isHere
      have same : Limit.syntheticIds + index = operation.id := by
        rw [named, ← isHere, UInt32.ofNat_toNat]
      exact Or.inr (List.mem_singleton.mpr same)
  · intro index id found
    rcases eq_of_getElem?_snoc (Option.join_eq_some_iff.mp found) with before | ⟨isHere, isSurvivor⟩
    · exact remains index id (traced.names index id (Option.join_eq_some_iff.mpr before))
    · cases isSurvivor
      rw [traced.survivorCount, ← count] at isHere
      rw [advance, ← isHere, UInt32.ofNat_toNat]
      exact Redirects.get?_insert_self _ _ _
  · intro index
    rw [advance, Deduplication.owners_of_addOperation added, named]
    exact redirects_insert traced.redirects _ survivor index
  · rw [Operation.ids_append, List.pairwise_append]
    refine ⟨traced.increasing, List.pairwise_singleton _ _, ?_⟩
    intro earlier listed last isLast
    obtain ⟨known, knownListed, rfl⟩ := List.mem_map.mp listed
    obtain ⟨index, _, passed, small, sameId, _⟩ := traced.described known knownListed
    have before := (List.getElem?_eq_some_iff.mp passed).1
    obtain rfl : last = operation.id := List.mem_singleton.mp isLast
    rw [UInt32.lt_iff_toNat_lt, sameId, named, Limit.syntheticIds_add_toNat small,
      Limit.syntheticIds_add_toNat (here.symm ▸ within), here, count]
    omega

end Add

theorem Traced.visit (traced : Traced arena fingerprint capacity seen operations state)
    (made : arena.Made) {roots : List NodeIndex} {marked : List Bool}
    (reached : arena.reachable roots = .ok marked) {entry : ExpressionNode × Bool}
    {rest : List (ExpressionNode × Bool)} (split : arena.nodes.zip marked = seen ++ entry :: rest)
    (visited : state.visit fingerprint capacity entry = .ok next) :
    ∃ extended, Traced arena fingerprint capacity (seen ++ [entry]) extended next := by
  have isNode := (ExpressionArena.node_of_split split).1
  rw [← traced.valueCount] at isNode
  cases visit_ok_iff.mp visited with
  | skip node =>
      exact ⟨_, traced.pass (traced.toPlanned.skip node) nofun nofun rfl⟩
  | tensor _ added =>
      refine ⟨_, traced.pass (traced.toPlanned.addTensor added) (fun _ => id) ?_ ?_⟩
      · rintro id ⟨⟩
        rw [ExpressionArena.operand?, isNode]
      · rw [Deduplication.addTensor_eq traced.keeps.tensorFirsts added]
  | operation read written within created added =>
      have planned := traced.toPlanned.addOperation made reached split read written within created
        added
      have writes := mapM_operand? traced.operands written
      obtain ⟨plain, _, _, _, rfl⟩ := Operation.create_ok_iff.mp created
      exact ⟨_, traced.add planned within rfl
        (.operation plain (mapM_operand? traced.operands read) writes)
        (fun _ first => operand?_of_written made isNode writes first) added⟩
  | group named within grouped added =>
      have planned := traced.toPlanned.addGroup made reached split named within grouped added
      obtain ⟨_, rfl⟩ := Operation.group_ok_iff.mp grouped
      have members := mapM_eq_some_iff.mpr (named.imp fun node id looked =>
        traced.names node id (lookup_ok_iff.mp looked))
      exact ⟨_, traced.add planned within rfl (.group members) nofun added⟩

theorem exists_traced (made : arena.Made) {roots : List NodeIndex} {marked : List Bool}
    (reached : arena.reachable roots = .ok marked)
    (visited : (arena.nodes.zip marked).foldlM (visit fingerprint capacity) .start = .ok state) :
    ∃ operations, Traced arena fingerprint capacity (arena.nodes.zip marked) operations state :=
  foldlM_induction
    (motive := fun seen state => ∃ operations,
      Traced arena fingerprint capacity seen operations state)
    (fun _ _ _ _ _ split ⟨_, traced⟩ stepped => traced.visit made reached split stepped)
    ⟨[], traced_start⟩ visited

section Redirects

variable {index other : NodeIndex} {node otherNode : ExpressionNode} {survivor : OperationId}

theorem Traced.exists_operation (traced : Traced arena fingerprint capacity seen operations state)
    (passed : seen[index.toNat]? = some (node, true)) (isSymbol : node.IsSymbol) :
    ∃ operation ∈ operations, operation.id = Limit.syntheticIds + index ∧
      arena.Becomes state.redirects.get? node operation.toComputation := by
  obtain ⟨operation, listed, named⟩ := List.mem_map.mp (traced.present index node passed isSymbol)
  obtain ⟨found, other, passedToo, _, namedToo, becomes⟩ := traced.described operation listed
  obtain rfl : index = found := (UInt32.add_right_inj _).mp (named.symm.trans namedToo)
  rw [passed] at passedToo
  cases passedToo
  exact ⟨operation, listed, named, becomes⟩

theorem Traced.isSome_redirect_iff
    (traced : Traced arena fingerprint capacity seen operations state) :
    (state.redirects.get? index).isSome ↔
      ∃ node, seen[index.toNat]? = some (node, true) ∧ node.IsSymbol := by
  rw [traced.redirects, traced.keeps.isSome_get?_owners_iff]
  constructor
  · intro listed
    obtain ⟨operation, member, named⟩ := List.mem_map.mp listed
    obtain ⟨found, node, passed, _, namedToo, becomes⟩ := traced.described operation member
    obtain rfl : index = found := (UInt32.add_right_inj _).mp (named.symm.trans namedToo)
    exact ⟨node, passed, becomes.isSymbol⟩
  · rintro ⟨node, passed, isSymbol⟩
    exact traced.present index node passed isSymbol

theorem Traced.redirect_eq_iff (traced : Traced arena fingerprint capacity seen operations state)
    (passed : seen[index.toNat]? = some (node, true)) (isSymbol : node.IsSymbol)
    (otherPassed : seen[other.toNat]? = some (otherNode, true))
    (otherIsSymbol : otherNode.IsSymbol) :
    state.redirects.get? index = state.redirects.get? other ↔
      arena.Alike state.redirects.get? node otherNode := by
  obtain ⟨operation, listed, named, becomes⟩ := traced.exists_operation passed isSymbol
  obtain ⟨otherOperation, otherListed, otherNamed, otherBecomes⟩ :=
    traced.exists_operation otherPassed otherIsSymbol
  rw [traced.redirects, traced.redirects, ← named, ← otherNamed,
    traced.keeps.owner_eq_iff listed otherListed, becomes.eq_iff_alike otherBecomes]

theorem Traced.redirect_least (traced : Traced arena fingerprint capacity seen operations state)
    (redirected : state.redirects.get? index = some survivor) :
    ∃ least, survivor = Limit.syntheticIds + least ∧
      state.redirects.get? least = some survivor ∧
      ∀ other, state.redirects.get? other = some survivor → least ≤ other := by
  rw [traced.redirects] at redirected
  have stays := traced.keeps.get?_owners_of_get?_owners redirected
  obtain ⟨operation, listed, rfl⟩ := List.mem_map.mp (traced.keeps.named _ _ stays)
  obtain ⟨least, _, _, within, named, _⟩ := traced.described operation listed
  refine ⟨least, named, ?_, fun other redirectedToo => ?_⟩
  · rw [traced.redirects, ← named]
    exact stays
  · obtain ⟨node, passed, isSymbol⟩ :=
      traced.isSome_redirect_iff.mp (Option.isSome_iff_exists.mpr ⟨_, redirectedToo⟩)
    obtain ⟨merged, mergedListed, mergedNamed, _⟩ := traced.exists_operation passed isSymbol
    obtain ⟨place, _, _, placeWithin, placeNamed, _⟩ := traced.described merged mergedListed
    obtain rfl : other = place := (UInt32.add_right_inj _).mp (mergedNamed.symm.trans placeNamed)
    rw [traced.redirects, ← mergedNamed] at redirectedToo
    have notAfter := traced.keeps.owner_le traced.increasing mergedListed redirectedToo
    rw [UInt32.le_iff_toNat_le, named, mergedNamed, Limit.syntheticIds_add_toNat within,
      Limit.syntheticIds_add_toNat placeWithin] at notAfter
    rw [UInt32.le_iff_toNat_le]
    omega

theorem Traced.mem_ids_iff (traced : Traced arena fingerprint capacity seen operations state) :
    survivor ∈ ids state.deduplication.operations ↔
      ∃ index, state.redirects.get? index = some survivor := by
  have keeps := traced.keeps
  constructor
  · intro kept
    obtain ⟨operation, stays, rfl⟩ := List.mem_map.mp kept
    obtain ⟨index, _, _, _, named, _⟩ :=
      traced.described operation (keeps.selection.subset stays)
    obtain ⟨earliest, found, owned⟩ := keeps.get?_owners (keeps.selection.subset stays)
    rw [keeps.firsts] at stays
    have isFirst := find?_of_mem_firstsBy stays
    simp only [Operation.sameComputation, isFirst] at found
    cases found
    refine ⟨index, ?_⟩
    rw [traced.redirects, ← named]
    exact owned
  · rintro ⟨index, redirected⟩
    rw [traced.redirects] at redirected
    obtain ⟨operation, listed, named⟩ := List.mem_map.mp (keeps.named _ _ redirected)
    obtain ⟨stays, kept, owned, _⟩ := keeps.owned operation listed
    rw [named] at owned
    rw [redirected] at owned
    cases owned
    exact List.mem_map_of_mem kept

end Redirects

end ArenaResolution

namespace ExpressionArena

variable {arena : ExpressionArena} {roots others : List NodeIndex} {marked : List Bool}

theorem Reaches.mono (included : roots ⊆ others) {index : Nat}
    (reached : arena.Reaches roots index) : arena.Reaches others index := by
  induction reached with
  | root listed => exact .root (included listed)
  | reference _ found named ih => exact .reference ih found named

theorem reachable_of_same_roots (made : arena.Made) (reached : arena.reachable roots = .ok marked)
    (same : ∀ root, root ∈ others ↔ root ∈ roots) : arena.reachable others = .ok marked := by
  obtain ⟨length, exact⟩ := reachable_exact reached
  have inside : ∀ root ∈ others, root.toNat < arena.size := by
    intro root listed
    have isMarked := (exact _).mpr (.root ((same root).mp listed))
    exact length ▸ (List.getElem?_eq_some_iff.mp isMarked).1
  obtain ⟨otherMarked, otherReached⟩ := exists_reachable made inside
  obtain ⟨otherLength, otherExact⟩ := reachable_exact otherReached
  have agree (index : Nat) : otherMarked[index]? = some true ↔ marked[index]? = some true := by
    rw [exact, otherExact]
    exact ⟨.mono fun root => (same root).mp, .mono fun root => (same root).mpr⟩
  have sameMarks : otherMarked = marked := by
    refine List.ext_getElem (otherLength.trans length.symm) fun index bound otherBound => ?_
    have here := agree index
    rw [List.getElem?_eq_getElem bound, List.getElem?_eq_getElem otherBound, Option.some.injEq,
      Option.some.injEq] at here
    exact Bool.eq_iff_iff.mpr here
  rw [otherReached, sameMarks]

theorem mem_markedTensors_iff {tensor : Tensor} :
    tensor ∈ markedTensors (arena.nodes.zip marked) ↔
      ∃ index : Nat, marked[index]? = some true ∧ arena.nodes[index]? = some (.tensor tensor) := by
  rw [markedTensors, List.mem_filterMap]
  constructor
  · rintro ⟨⟨node, mark⟩, listed, isTensor⟩
    split at isTensor
    · rename_i same
      cases same
      cases isTensor
      obtain ⟨index, found⟩ := List.mem_iff_getElem?.mp listed
      obtain ⟨isNode, isMarked⟩ := List.getElem?_zip_eq_some.mp found
      exact ⟨index, isMarked, isNode⟩
    · cases isTensor
  · rintro ⟨index, isMarked, isNode⟩
    exact ⟨(.tensor tensor, true),
      List.mem_of_getElem? (List.getElem?_zip_eq_some.mpr ⟨isNode, isMarked⟩), rfl⟩

end ExpressionArena

namespace Resolution

open ExpressionArena (markedTensors)

/-- The resolution keeps what the roots reach, with the nodes merged that become the same. -/
structure Merges (resolution : Resolution) (arena : ExpressionArena) (roots : List NodeIndex) :
    Prop where
  defined : ∀ index, (resolution.redirect? index).isSome ↔
    arena.Reaches roots index.toNat ∧
      ∃ node, arena.nodes[index.toNat]? = some node ∧ node.IsSymbol
  merged : ∀ (index other : NodeIndex) (node otherNode : ExpressionNode),
    arena.Reaches roots index.toNat → arena.nodes[index.toNat]? = some node → node.IsSymbol →
    arena.Reaches roots other.toNat → arena.nodes[other.toNat]? = some otherNode →
    otherNode.IsSymbol →
      (resolution.redirect? index = resolution.redirect? other ↔
        arena.Alike resolution.redirect? node otherNode)
  least : ∀ index survivor, resolution.redirect? index = some survivor →
    ∃ first, survivor = Limit.syntheticIds + first ∧
      resolution.redirect? first = some survivor ∧
      ∀ other, resolution.redirect? other = some survivor → first ≤ other
  operationIds : (ids resolution.operations).Nodup
  survivors : ∀ id, id ∈ ids resolution.operations ↔
    ∃ index, resolution.redirect? index = some id
  operations : ∀ operation ∈ resolution.operations, ∃ (index : NodeIndex) (node : ExpressionNode),
    operation.id = Limit.syntheticIds + index ∧ arena.Reaches roots index.toNat ∧
      arena.nodes[index.toNat]? = some node ∧
      arena.Becomes resolution.redirect? node operation.toComputation
  /-- Apart from markers, the operations stand in the order of the nodes. -/
  increasing : (ids (resolution.operations.filter fun operation => !operation.isGroup)).Pairwise
    (· < ·)
  /-- The tensors stand in the order of their first nodes. -/
  tensorsOrdered : ∃ marked : List Bool, marked.length = arena.size ∧
    (∀ index : Nat, marked[index]? = some true ↔ arena.Reaches roots index) ∧
    resolution.tensors = firstsBy Tensor.id (markedTensors (arena.nodes.zip marked))
  tensors : ∀ tensor, tensor ∈ resolution.tensors ↔
    ∃ index, arena.Reaches roots index ∧ arena.nodes[index]? = some (.tensor tensor)

theorem merges_of_traced {arena : ExpressionArena} {roots : List NodeIndex} {marked : List Bool}
    {fingerprint : Fingerprint} {capacity : Capacity} {operations : List Operation}
    {state : ArenaResolution} (reached : arena.reachable roots = .ok marked)
    (traced : ArenaResolution.Traced arena fingerprint capacity (arena.nodes.zip marked) operations
      state) :
    Merges ⟨state.deduplication.tensors, hoistMarkers state.deduplication.operations,
      state.redirects, state.deduplication.merged⟩ arena roots := by
  obtain ⟨sameLength, exact⟩ := ExpressionArena.reachable_exact reached
  have keeps := traced.keeps
  have hoisted := traced.hoistMarkers_perm
  have passed_iff (index : Nat) (node : ExpressionNode) :
      (arena.nodes.zip marked)[index]? = some (node, true) ↔
        arena.Reaches roots index ∧ arena.nodes[index]? = some node := by
    rw [List.getElem?_zip_eq_some, exact, and_comm]
  constructor
  case defined =>
    intro index
    simp only [redirect?, traced.isSome_redirect_iff, passed_iff, and_assoc, exists_and_left]
  case merged =>
    intro index other node otherNode reaches isNode isSymbol otherReaches otherIsNode otherIsSymbol
    exact traced.redirect_eq_iff ((passed_iff _ _).mpr ⟨reaches, isNode⟩) isSymbol
      ((passed_iff _ _).mpr ⟨otherReaches, otherIsNode⟩) otherIsSymbol
  case least => exact fun index survivor redirected => traced.redirect_least redirected
  case operationIds => exact (hoisted.map _).nodup_iff.mpr keeps.distinct
  case survivors =>
    exact fun id => ((hoisted.map _).mem_iff).trans traced.mem_ids_iff
  case operations =>
    intro operation listed
    obtain ⟨index, node, passed, _, named, becomes⟩ :=
      traced.described operation (keeps.selection.subset (hoisted.mem_iff.mp listed))
    obtain ⟨reaches, isNode⟩ := (passed_iff _ _).mp passed
    exact ⟨index, node, named, reaches, isNode, becomes⟩
  case increasing =>
    dsimp only
    rw [filter_hoistMarkers]
    exact traced.increasing.sublist ((List.filter_sublist.trans keeps.selection).map _)
  case tensorsOrdered => exact ⟨marked, sameLength, exact, keeps.tensorFirsts⟩
  case tensors =>
    intro tensor
    simp only [← exact]
    rw [← ExpressionArena.mem_markedTensors_iff]
    constructor
    · intro kept
      exact (firstsBy_sublist _).subset (keeps.tensorFirsts ▸ kept)
    · exact keeps.tensorsListed tensor

/-- Resolving an arena that was filled through its own functions keeps exactly what the roots reach
and merges exactly the nodes that are alike, whatever the order and the number of the roots. -/
theorem ofArena_merges {arena : ExpressionArena} {roots : List NodeIndex} {capacity : Capacity}
    {resolution : Resolution} (made : arena.Made)
    (resolved : ofArena capacity arena roots = .ok resolution) :
    resolution.Merges arena roots ∧
      ∀ others : List NodeIndex, (∀ root, root ∈ others ↔ root ∈ roots) →
        ofArena capacity arena others = .ok resolution := by
  have again := resolved
  simp only [ofArena, ofArenaWith, bind_eq_ok_iff] at resolved
  obtain ⟨marked, reached, state, visited, same⟩ := resolved
  constructor
  · obtain ⟨operations, traced⟩ := ArenaResolution.exists_traced made reached visited
    cases same
    exact merges_of_traced reached traced
  · intro others sameRoots
    rw [ofArena, ofArenaWith, ExpressionArena.reachable_of_same_roots made reached sameRoots]
    rwa [ofArena, ofArenaWith, reached] at again

theorem ofArena_merges_shared : ∃ arena resolution,
    sharedCopies.addGroup [4, 5] false = .ok (8, arena) ∧
      ofArena ⟨8, 8⟩ arena [3, 8] = .ok resolution ∧
      resolution.Merges arena [3, 8] ∧ ofArena ⟨8, 8⟩ arena [8, 3, 8] = .ok resolution := by
  obtain ⟨arena, resolution, added, resolved⟩ : ∃ arena resolution,
      sharedCopies.addGroup [4, 5] false = .ok (8, arena) ∧
        ofArena ⟨8, 8⟩ arena [3, 8] = .ok resolution := ⟨_, _, rfl, rfl⟩
  obtain ⟨merges, anyRoots⟩ := ofArena_merges (made_sharedCopies.addGroup added) resolved
  exact ⟨arena, resolution, added, resolved, merges, anyRoots _ (by simp [or_comm])⟩

end Resolution

end TensorGraph
