import Mathlib.Data.List.Find
import TensorGraph.Proofs.Deduplication
import TensorGraph.Proofs.FirstOccurrences
import TensorGraph.Proofs.Obtained
import TensorGraph.SymbolTable

/-!
Exactly the first operation of every computation is kept. Fingerprints speed up the search for it
and have no other effect.
-/

namespace TensorGraph

open Operation (ids)

namespace Deduplication

variable {fingerprint first second : Fingerprint} {capacity : Capacity}
  {state next : Deduplication} {operation : Operation} {survivor : OperationId}

def Tagged (fingerprint : Fingerprint) (state : Deduplication) : Prop :=
  ∀ kept ∈ state.kept, kept.fingerprint = fingerprint kept.operation.signature

def retag (fingerprint : Fingerprint) (state : Deduplication) : Deduplication :=
  { state with kept := state.operations.map fun kept => ⟨fingerprint kept.signature, kept⟩ }

@[simp] theorem operations_retag : (state.retag fingerprint).operations = state.operations := by
  simp [retag, operations, Function.comp_def]

theorem tagged_retag : (state.retag fingerprint).Tagged fingerprint := by
  intro kept listed
  obtain ⟨operation, _, rfl⟩ := List.mem_map.mp listed
  rfl

theorem Tagged.addOperation (tagged : state.Tagged fingerprint)
    (added : state.addOperation fingerprint capacity operation = .ok (survivor, next)) :
    next.Tagged fingerprint := by
  rcases addOperation_ok_iff.mp added with ⟨_, _, rfl⟩ | ⟨_, _, _, _, rfl⟩
  · exact tagged
  · rw [Tagged, List.forall_mem_append, List.forall_mem_singleton]
    exact ⟨tagged, rfl⟩

theorem Tagged.survivor?_eq (tagged : state.Tagged fingerprint) :
    state.survivor? fingerprint operation =
      (state.operations.find? fun kept => kept.toComputation = operation.toComputation).map
        fun kept => kept.id := by
  -- What computes the same has the same fingerprint, so comparing that first loses nothing.
  have decisive : ∀ kept ∈ state.kept,
      (kept.fingerprint = fingerprint operation.signature &&
        kept.operation.sameComputation operation) =
      decide (kept.operation.toComputation = operation.toComputation) := by
    intro kept listed
    rw [Operation.sameComputation, Bool.and_eq_right_iff_imp, decide_eq_true_iff,
      decide_eq_true_iff]
    intro alike
    rw [tagged kept listed, alike]
  rw [survivor?, operations, List.find?_map, Option.map_map, List.find?_congr decisive]
  rfl

theorem addOperation_retag (tagged : state.Tagged first) :
    (state.retag second).addOperation second capacity operation =
      (state.addOperation first capacity operation).map fun added =>
        (added.1, added.2.retag second) := by
  have sameLength : (state.retag second).kept.length = state.kept.length := by
    simp [retag, operations]
  have sameOwners : (state.retag second).owners = state.owners := rfl
  rw [addOperation, addOperation, tagged_retag.survivor?_eq, tagged.survivor?_eq, operations_retag,
    sameLength, sameOwners]
  cases state.operations.find? fun kept => kept.toComputation = operation.toComputation with
  | some found =>
      dsimp only [Option.map_some]
      split
      · rfl
      · rfl
  | none =>
      dsimp only [Option.map_none]
      split
      · rfl
      · cases checkWithin .operations capacity.operations.toNat (state.kept.length + 1) with
        | error failure => rfl
        | ok _ =>
            simp [retag, operations, Function.comp_def, bind, Except.bind, pure, Except.pure,
              Except.map]

theorem absorb_ok_iff :
    state.absorb fingerprint capacity operation = .ok next ↔
      ∃ survivor, state.addOperation fingerprint capacity operation = .ok (survivor, next) := by
  rw [absorb]
  cases state.addOperation fingerprint capacity operation with
  | error failure => simp [Except.map]
  | ok added => simp [Except.map, Prod.ext_iff]

theorem foldlM_retag (tagged : state.Tagged first) (operations : List Operation) :
    operations.foldlM (absorb second capacity) (state.retag second) =
      (operations.foldlM (absorb first capacity) state).map (retag second) := by
  induction operations generalizing state with
  | nil => rfl
  | cons operation rest ih =>
      rw [List.foldlM_cons, List.foldlM_cons, absorb, absorb, addOperation_retag tagged]
      cases added : state.addOperation first capacity operation with
      | error failure => rfl
      | ok result => exact ih (tagged.addOperation added)

theorem addTensor_ok_iff {tensor : Tensor} :
    state.addTensor capacity tensor = .ok next ↔
      (state.tensors.find? (fun known => known.id = tensor.id) = some tensor ∧ next = state) ∨
      (state.tensors.find? (fun known => known.id = tensor.id) = none ∧
        state.tensors.length + 1 ≤ capacity.tensors.toNat ∧
        next = { state with tensors := state.tensors ++ [tensor] }) := by
  rw [addTensor]
  cases state.tensors.find? fun known => known.id = tensor.id with
  | some known =>
      by_cases same : known = tensor
      · simp [same, eq_comm]
      · simp [same]
  | none =>
      simp only [seq_eq_ok_iff, checkWithin_ok_iff]
      simp [pure, Except.pure, eq_comm]

theorem addTensor_eq {seen : List Tensor} {tensor : Tensor}
    (firsts : state.tensors = firstsBy Tensor.id seen)
    (added : state.addTensor capacity tensor = .ok next) :
    next = { state with tensors := firstsBy Tensor.id (seen ++ [tensor]) } := by
  have known : tensor.id ∈ seen.map Tensor.id ↔
      (state.tensors.find? fun known => known.id = tensor.id) ≠ none := by
    rw [← mem_map_firstsBy Tensor.id, ← firsts]
    simp
  rw [firstsBy_append_singleton]
  rcases addTensor_ok_iff.mp added with ⟨found, rfl⟩ | ⟨missing, _, rfl⟩
  · rw [if_pos (known.mpr (by simp [found])), ← firsts]
  · rw [if_neg (by simp [known, missing]), ← firsts]

/-- The state keeps exactly the first tensor of each id and the first operation of each computation,
and counts the other operations. -/
structure KeepsFirsts (state : Deduplication) (fingerprint : Fingerprint) (capacity : Capacity)
    (tensors : List Tensor) (seen : List Operation) : Prop extends state.Represents seen where
  tagged : state.Tagged fingerprint
  tensorFirsts : state.tensors = firstsBy Tensor.id tensors
  tensorsListed : ∀ tensor ∈ tensors, tensor ∈ state.tensors
  firsts : state.operations = firstsBy Operation.toComputation seen
  counted : state.merged + state.kept.length = seen.length
  distinct : (ids state.operations).Nodup
  tensorsWithin : state.tensors.length ≤ capacity.tensors.toNat
  operationsWithin : state.kept.length ≤ capacity.operations.toNat

theorem keepsFirsts_empty : empty.KeepsFirsts fingerprint capacity [] [] :=
  ⟨represents_nil rfl rfl, by simp [Tagged, empty], rfl, by simp, rfl, rfl, List.nodup_nil,
    Nat.zero_le _, Nat.zero_le _⟩

theorem KeepsFirsts.addTensor {tensors : List Tensor} {seen : List Operation} {tensor : Tensor}
    (keeps : state.KeepsFirsts fingerprint capacity tensors seen)
    (added : state.addTensor capacity tensor = .ok next) :
    next.KeepsFirsts fingerprint capacity (tensors ++ [tensor]) seen := by
  have onlyTensors := addTensor_eq keeps.tensorFirsts added
  have listedNow : (∀ known ∈ tensors ++ [tensor], known ∈ next.tensors) ∧
      next.tensors.length ≤ capacity.tensors.toNat := by
    rw [List.forall_mem_append, List.forall_mem_singleton]
    rcases addTensor_ok_iff.mp added with ⟨found, rfl⟩ | ⟨_, room, rfl⟩
    · exact ⟨⟨keeps.tensorsListed, List.mem_of_find?_eq_some found⟩, keeps.tensorsWithin⟩
    · refine ⟨⟨fun known listed => ?_, by simp⟩, by simpa using room⟩
      exact List.mem_append_left _ (keeps.tensorsListed known listed)
  obtain ⟨listed, within⟩ := listedNow
  subst onlyTensors
  exact ⟨⟨keeps.selection, keeps.owned, keeps.named⟩, keeps.tagged, rfl, listed, keeps.firsts,
    keeps.counted, keeps.distinct, within, keeps.operationsWithin⟩

theorem keepsFirsts_of_addTensor {tensors : List Tensor}
    (added : tensors.foldlM (Deduplication.addTensor capacity) .empty = .ok state) :
    state.KeepsFirsts fingerprint capacity tensors [] :=
  foldlM_induction (motive := fun seen (state : Deduplication) =>
      state.KeepsFirsts fingerprint capacity seen [])
    (fun _ _ _ _ _ _ keeps step => keeps.addTensor step) keepsFirsts_empty added

theorem Represents.not_mem_ids {seen : List Operation} (represents : state.Represents seen)
    {id : OperationId} (new : state.owners.get? id = none) : id ∉ ids seen := by
  intro listed
  obtain ⟨operation, member, rfl⟩ := List.mem_map.mp listed
  obtain ⟨_, _, owned, _⟩ := represents.owned operation member
  rw [new] at owned
  cases owned

theorem KeepsFirsts.absorb {tensors : List Tensor} {seen : List Operation}
    (keeps : state.KeepsFirsts fingerprint capacity tensors seen)
    (absorbed : state.absorb fingerprint capacity operation = .ok next) :
    next.KeepsFirsts fingerprint capacity tensors (seen ++ [operation]) := by
  obtain ⟨survivor, added⟩ := absorb_ok_iff.mp absorbed
  have known : operation.toComputation ∈ seen.map Operation.toComputation ↔
      state.survivor? fingerprint operation ≠ none := by
    rw [keeps.tagged.survivor?_eq, keeps.firsts, ← mem_map_firstsBy]
    simp
  have represents := keeps.toRepresents.addOperation added
  have tagged := keeps.tagged.addOperation added
  have counted := keeps.counted
  rcases addOperation_ok_iff.mp added with ⟨found, _, rfl⟩ | ⟨missing, _, new, room, rfl⟩
  · refine ⟨represents, tagged, keeps.tensorFirsts, keeps.tensorsListed, ?_, ?_, keeps.distinct,
      keeps.tensorsWithin, keeps.operationsWithin⟩
    · rw [firstsBy_append_singleton, if_pos (known.mpr (by simp [found]))]
      exact keeps.firsts
    · simp only [List.length_append, List.length_singleton]
      omega
  · have operationsNext : operations { state with
        owners := state.owners.insert operation.id operation.id
        kept := state.kept ++ [⟨fingerprint operation.signature, operation⟩] } =
        state.operations ++ [operation] := by
      rw [operations, List.map_append]
      rfl
    refine ⟨represents, tagged, keeps.tensorFirsts, keeps.tensorsListed, ?_, ?_, ?_,
      keeps.tensorsWithin, ?_⟩
    · rw [operationsNext, firstsBy_append_singleton, if_neg (by simp [known, missing]),
        keeps.firsts]
    · simp only [List.length_append, List.length_singleton]
      omega
    · have notKept : operation.id ∉ ids state.operations := fun listed =>
        keeps.toRepresents.not_mem_ids new ((keeps.selection.map _).subset listed)
      rw [operationsNext, Operation.ids_append]
      exact List.nodup_append_comm.mp (List.nodup_cons.mpr ⟨notKept, keeps.distinct⟩)
    · simpa using room

end Deduplication

namespace Resolution

variable {capacity : Capacity} {tensors : List Tensor} {operations : List Operation}
  {resolution : Resolution}

/-- Fingerprints decide nothing, not even which error is reported. -/
theorem ofListsWith_eq (first second : Fingerprint) :
    ofListsWith first capacity tensors operations =
      ofListsWith second capacity tensors operations := by
  rw [ofListsWith, ofListsWith]
  cases tensorsAdded : tensors.foldlM (Deduplication.addTensor capacity) .empty with
  | error failure => rfl
  | ok withTensors =>
      have keeps : withTensors.KeepsFirsts first capacity tensors [] :=
        Deduplication.keepsFirsts_of_addTensor tensorsAdded
      have noneKept : withTensors.kept = [] := List.map_eq_nil_iff.mp keeps.firsts
      -- Nothing is kept yet, so both runs start from the same state.
      have same : withTensors.retag second = withTensors := by
        cases withTensors
        cases noneKept
        rfl
      have run : operations.foldlM (Deduplication.absorb second capacity) withTensors = _ :=
        same ▸ Deduplication.foldlM_retag keeps.tagged operations
      dsimp only [bind, Except.bind]
      rw [run]
      cases operations.foldlM (Deduplication.absorb first capacity) withTensors with
      | error failure => rfl
      | ok state =>
          dsimp only [Except.map]
          rw [Deduplication.operations_retag]
          rfl

structure Reports (resolution : Resolution) (state : Deduplication) : Prop where
  tensors : resolution.tensors = state.tensors
  operations : resolution.operations =
    state.operations.map (Operation.mapMembers resolution.nameFor)
  redirects : ∀ id, resolution.redirect? id = state.owners.get? id
  merged : resolution.merged = state.merged

theorem Reports.nameFor {state : Deduplication} (reports : resolution.Reports state)
    (id : OperationId) : resolution.nameFor id = (state.owners.get? id).getD id := by
  rw [Resolution.nameFor, reports.redirects]

theorem exists_keepsFirsts (resolved : ofLists capacity tensors operations = .ok resolution) :
    ∃ state : Deduplication, state.KeepsFirsts .standard capacity tensors operations ∧
      resolution.Reports state := by
  simp only [ofLists, ofListsWith, bind_eq_ok_iff] at resolved
  obtain ⟨withTensors, tensorsAdded, state, absorbed, result⟩ := resolved
  have keeps : state.KeepsFirsts .standard capacity tensors operations :=
    foldlM_induction (motive := fun seen (state : Deduplication) =>
        state.KeepsFirsts .standard capacity tensors seen)
      (fun _ _ _ _ _ _ keeps step => keeps.absorb step)
      (Deduplication.keepsFirsts_of_addTensor tensorsAdded) absorbed
  cases result
  exact ⟨state, keeps, rfl, rfl, fun _ => rfl, rfl⟩

end Resolution

namespace Deduplication.KeepsFirsts

variable {fingerprint : Fingerprint} {capacity : Capacity} {state : Deduplication}
  {tensors : List Tensor} {seen : List Operation}

theorem get?_owners (keeps : state.KeepsFirsts fingerprint capacity tensors seen)
    {operation : Operation} (member : operation ∈ seen) :
    ∃ earliest, seen.find? (fun other => other.sameComputation operation) = some earliest ∧
      state.owners.get? operation.id = some earliest.id := by
  obtain ⟨survivor, stays, owned, alike⟩ := keeps.owned operation member
  rw [keeps.firsts] at stays
  refine ⟨survivor, ?_, owned⟩
  have found := find?_of_mem_firstsBy stays
  rw [alike] at found
  exact found

theorem isSome_get?_owners_iff (keeps : state.KeepsFirsts fingerprint capacity tensors seen)
    {id : OperationId} : (state.owners.get? id).isSome ↔ id ∈ ids seen := by
  constructor
  · intro owned
    obtain ⟨owner, found⟩ := Option.isSome_iff_exists.mp owned
    exact keeps.named id owner found
  · intro listed
    obtain ⟨operation, member, rfl⟩ := List.mem_map.mp listed
    obtain ⟨survivor, _, owned, _⟩ := keeps.owned operation member
    exact Option.isSome_iff_exists.mpr ⟨survivor.id, owned⟩

theorem get?_owners_of_get?_owners (keeps : state.KeepsFirsts fingerprint capacity tensors seen)
    {id owner : OperationId} (owned : state.owners.get? id = some owner) :
    state.owners.get? owner = some owner := by
  obtain ⟨operation, member, rfl⟩ := List.mem_map.mp (keeps.named id owner owned)
  obtain ⟨earliest, found, named⟩ := keeps.get?_owners member
  rw [owned] at named
  cases named
  obtain ⟨again, foundAgain, namedAgain⟩ := keeps.get?_owners (List.mem_of_find?_eq_some found)
  have alike : earliest.toComputation = operation.toComputation := by
    simpa [Operation.sameComputation] using List.find?_some found
  simp only [Operation.sameComputation, alike] at foundAgain found
  rw [found] at foundAgain
  cases foundAgain
  exact namedAgain

theorem alike_of_id_eq (keeps : state.KeepsFirsts fingerprint capacity tensors seen)
    {first second : Operation} (firstListed : first ∈ seen) (secondListed : second ∈ seen)
    (same : first.id = second.id) : first.toComputation = second.toComputation := by
  obtain ⟨stays, staysKept, staysOwns, alike⟩ := keeps.owned first firstListed
  obtain ⟨remains, remainsKept, remainsOwns, similar⟩ := keeps.owned second secondListed
  rw [same, remainsOwns, Option.some.injEq] at staysOwns
  rw [← alike, ← similar, Operation.eq_of_id_eq keeps.distinct remainsKept staysKept staysOwns]

end Deduplication.KeepsFirsts

namespace SymbolTable

theorem resolved_firsts {symbols : SymbolTable} {capacity : Capacity} {resolution : Resolution}
    (resolved : symbols.resolveWithin capacity = .ok resolution) :
    (∀ fingerprint, Resolution.ofListsWith fingerprint capacity symbols.tensors symbols.operations =
      .ok resolution) ∧
    resolution.tensors = firstsBy Tensor.id symbols.tensors ∧
    resolution.operations = (firstsBy Operation.toComputation symbols.operations).map
      (Operation.mapMembers resolution.nameFor) ∧
    (∀ id, (resolution.redirect? id).isSome ↔ id ∈ ids symbols.operations) ∧
    (∀ operation ∈ symbols.operations, ∃ earliest,
      symbols.operations.find? (fun other => other.sameComputation operation) = some earliest ∧
        resolution.redirect? operation.id = some earliest.id) ∧
    (∀ id survivor, resolution.redirect? id = some survivor →
      resolution.redirect? survivor = some survivor) ∧
    resolution.merged + resolution.operations.length = symbols.operations.length := by
  obtain ⟨state, keeps, reports⟩ := Resolution.exists_keepsFirsts resolved
  have redirects : resolution.redirect? = state.owners.get? := funext reports.redirects
  refine ⟨fun fingerprint => ?_, ?_, ?_, ?_, ?_, ?_, ?_⟩
  · rw [Resolution.ofListsWith_eq fingerprint .standard]
    exact resolved
  · rw [reports.tensors]
    exact keeps.tensorFirsts
  · rw [reports.operations, keeps.firsts]
  · intro id
    rw [redirects]
    exact keeps.isSome_get?_owners_iff
  · intro operation member
    rw [redirects]
    exact keeps.get?_owners member
  · intro id survivor
    rw [redirects]
    exact keeps.get?_owners_of_get?_owners
  · rw [reports.merged, reports.operations, List.length_map, Deduplication.operations,
      List.length_map]
    exact keeps.counted

def fillOf (id : OperationId) (value : Element .u8) : Operation where
  id
  kind := .fill
  elementType := some .u8
  inputs := []
  outputs := [1]
  parameters := .ofScalar .u8 value

def colliding : SymbolTable where
  capacity := ⟨8, 8⟩
  tensors := [.scalar 0 .u8, .scalar 1 .u8, .scalar 0 .u8]
  operations := [fillOf 1 5, { Graph.relayMarker with inputs := [2, 3] }, fillOf 2 6, fillOf 3 5,
    fillOf 3 5]

theorem resolved_firsts_colliding :
    ∃ resolution, colliding.resolveWithin ⟨8, 8⟩ = .ok resolution ∧
      Resolution.ofListsWith (fun _ => 0) ⟨8, 8⟩ colliding.tensors colliding.operations =
        .ok resolution ∧
      resolution.tensors = [.scalar 0 .u8, .scalar 1 .u8] ∧
      resolution.operations =
        [fillOf 1 5, { Graph.relayMarker with inputs := [2, 1] }, fillOf 2 6] ∧
      resolution.redirect? 3 = some 1 ∧ resolution.redirect? 1 = some 1 ∧
      resolution.merged + 3 = 5 := by
  refine ⟨_, rfl, ?_⟩
  obtain ⟨anyFingerprint, tensors, operations, _, _, _, counted⟩ :=
    @resolved_firsts colliding ⟨8, 8⟩ _ rfl
  exact ⟨anyFingerprint _, tensors, operations, rfl, rfl, counted⟩

end SymbolTable

end TensorGraph
