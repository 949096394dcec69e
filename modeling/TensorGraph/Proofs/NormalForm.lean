import TensorGraph.Proofs.Acceptance
import TensorGraph.Proofs.FlatResolution
import TensorGraph.Proofs.Operations
import TensorGraph.Proofs.Resolvable

/-!
Resolutions in normal form: nothing is left to merge, and every operation is one that its
constructor takes. Markers are compared under the names they were given, before their members are
renamed, so the form is reached exactly if no two names of one operation hide a repetition.
-/

namespace TensorGraph

open Operation (ids)

namespace Operation

inductive Constructed (operation : Operation) : Prop
  | plain {kind : OperationKind} {elementType : ElementType} {inputs outputs : List TensorId}
      {parameters : Parameters}
      (created : create operation.id kind elementType inputs outputs parameters = .ok operation)
  | marker {members : List OperationId} {pinned : Bool}
      (made : group operation.id members pinned = .ok operation)

theorem Constructed.validate {operation : Operation} (constructed : operation.Constructed) :
    operation.validate = .ok () := by
  rw [validate_ok_iff]
  cases constructed with
  | plain created =>
      obtain ⟨_, _, _, _, same⟩ := create_ok_iff.mp created
      refine Or.inr ⟨_, operation, congrArg (fun made => made.elementType) same, ?_⟩
      rw [same] at created ⊢
      exact created
  | marker made =>
      have same := (group_ok_iff.mp made).2
      refine Or.inl ⟨_, operation, congrArg (fun made => made.kind) same, ?_⟩
      rw [same] at made ⊢
      exact made

theorem Constructed.toComputation_of_isGroup {operation : Operation}
    (constructed : operation.Constructed) (isGroup : operation.isGroup = true) :
    FitsGroup operation.memberIds operation.id ∧ ∃ pinned,
      operation.toComputation = ⟨.group pinned, none, operation.memberIds, [], .empty⟩ := by
  rw [memberIds_of_isGroup isGroup]
  cases constructed with
  | plain created =>
      obtain ⟨notMarker, _, _, _, same⟩ := create_ok_iff.mp created
      rw [Operation.isGroup, same, notMarker] at isGroup
      cases isGroup
  | @marker members pinned made =>
      obtain ⟨fits, same⟩ := group_ok_iff.mp made
      have listed : operation.inputs = members := congrArg (fun made => made.inputs) same
      rw [listed]
      exact ⟨fits, pinned, congrArg Operation.toComputation same⟩

theorem mapMembers_of_fixed {rename : OperationId → OperationId} (fixed : ∀ id, rename id = id)
    (operation : Operation) : operation.mapMembers rename = operation := by
  have same : operation.inputs.map rename = operation.inputs := by
    rw [funext fixed]
    exact List.map_id' _
  rw [mapMembers, same]
  split
  · rfl
  · rfl

theorem memberIds_eq_of_alike {first second : Operation}
    (alike : first.toComputation = second.toComputation) : first.memberIds = second.memberIds := by
  rw [memberIds, memberIds, members?, members?, isGroup, isGroup, alike]

theorem Constructed.eq_except_members {first second : Operation} (firstMade : first.Constructed)
    (secondMade : second.Constructed) (isGroup : first.isGroup = true)
    (sameKind : first.kind = second.kind) (inputs : List UInt32) :
    { first.toComputation with inputs } = { second.toComputation with inputs } := by
  have secondIsGroup : second.isGroup = true := by rwa [Operation.isGroup, ← sameKind]
  obtain ⟨_, pinned, firstShape⟩ := firstMade.toComputation_of_isGroup isGroup
  obtain ⟨_, otherPinned, secondShape⟩ := secondMade.toComputation_of_isGroup secondIsGroup
  rw [firstShape, secondShape] at sameKind ⊢
  cases sameKind
  rfl

theorem alike_of_members {first second : Operation} (firstMade : first.Constructed)
    (secondMade : second.Constructed) (isGroup : first.isGroup = true)
    (sameKind : first.kind = second.kind) (sameMembers : first.memberIds = second.memberIds) :
    first.toComputation = second.toComputation := by
  have secondIsGroup : second.isGroup = true := by rwa [Operation.isGroup, ← sameKind]
  rw [memberIds_of_isGroup isGroup, memberIds_of_isGroup secondIsGroup] at sameMembers
  calc first.toComputation
    _ = { first.toComputation with inputs := first.inputs } := rfl
    _ = { second.toComputation with inputs := first.inputs } :=
      firstMade.eq_except_members secondMade isGroup sameKind first.inputs
    _ = second.toComputation := by rw [sameMembers]

theorem mapMembers_alike_iff {rename : OperationId → OperationId} {first second : Operation}
    (firstMade : first.Constructed) (secondMade : second.Constructed)
    (isGroup : first.isGroup = true) :
    (first.mapMembers rename).toComputation = (second.mapMembers rename).toComputation ↔
      first.kind = second.kind ∧ first.memberIds.map rename = second.memberIds.map rename := by
  have renamed : ∀ operation : Operation, (operation.mapMembers rename).kind = operation.kind := by
    intro operation
    rw [mapMembers]
    split
    · rfl
    · rfl
  constructor
  · intro alike
    refine ⟨?_, ?_⟩
    · rw [← renamed first, ← renamed second, alike]
    · rw [← memberIds_mapMembers, ← memberIds_mapMembers, memberIds_eq_of_alike alike]
  · rintro ⟨sameKind, sameMembers⟩
    have secondIsGroup : second.isGroup = true := by rwa [Operation.isGroup, ← sameKind]
    rw [mapMembers, if_pos isGroup, mapMembers, if_pos secondIsGroup,
      ← memberIds_of_isGroup isGroup, ← memberIds_of_isGroup secondIsGroup, sameMembers]
    exact firstMade.eq_except_members secondMade isGroup sameKind _

/-- One name, or the names of two operations that compute the same. -/
def Alias (operations : List Operation) (left right : OperationId) : Prop :=
  left = right ∨ ∃ first ∈ operations, ∃ second ∈ operations,
    first.id = left ∧ second.id = right ∧ first.toComputation = second.toComputation

/-- No group names an operation twice, and groups that name the same operations give them the same
names. -/
structure GroupsApart (operations : List Operation) : Prop where
  members : ∀ marker ∈ operations,
    marker.memberIds.Pairwise fun first second => ¬ Alias operations first second
  markers : ∀ first ∈ operations, ∀ second ∈ operations, first.isGroup = true →
    first.kind = second.kind →
    List.Forall₂ (Alias operations) first.memberIds second.memberIds →
    first.memberIds = second.memberIds

end Operation

open Operation (Alias GroupsApart)

namespace Deduplication.KeepsFirsts

variable {fingerprint : Fingerprint} {capacity : Capacity} {state : Deduplication}
  {tensors : List Tensor} {seen : List Operation}

theorem nodup_computations (keeps : state.KeepsFirsts fingerprint capacity tensors seen) :
    (state.operations.map Operation.toComputation).Nodup := by
  rw [keeps.firsts]
  exact map_firstsBy_nodup seen

theorem get?_owners_of_kept (keeps : state.KeepsFirsts fingerprint capacity tensors seen)
    {kept : Operation} (stays : kept ∈ state.operations) :
    state.owners.get? kept.id = some kept.id := by
  obtain ⟨survivor, survives, owned, alike⟩ := keeps.owned kept (keeps.selection.subset stays)
  rwa [List.inj_on_of_nodup_map keeps.nodup_computations survives stays alike] at owned

theorem name_eq_iff (keeps : state.KeepsFirsts fingerprint capacity tensors seen)
    {left right : OperationId} :
    (state.owners.get? left).getD left = (state.owners.get? right).getD right ↔
      Alias seen left right := by
  constructor
  · intro same
    cases leftOwned : state.owners.get? left with
    | none =>
        cases rightOwned : state.owners.get? right with
        | none =>
            rw [leftOwned, rightOwned] at same
            exact Or.inl same
        | some owner =>
            rw [leftOwned, rightOwned, Option.getD_none, Option.getD_some] at same
            rw [same, keeps.get?_owners_of_get?_owners rightOwned] at leftOwned
            cases leftOwned
    | some owner =>
        cases rightOwned : state.owners.get? right with
        | none =>
            rw [leftOwned, rightOwned, Option.getD_none, Option.getD_some] at same
            rw [← same, keeps.get?_owners_of_get?_owners leftOwned] at rightOwned
            cases rightOwned
        | some other =>
            rw [leftOwned, rightOwned, Option.getD_some, Option.getD_some] at same
            obtain ⟨first, firstListed, rfl⟩ := List.mem_map.mp (keeps.named left owner leftOwned)
            obtain ⟨second, secondListed, rfl⟩ :=
              List.mem_map.mp (keeps.named right other rightOwned)
            obtain ⟨stays, staysKept, staysOwns, alike⟩ := keeps.owned first firstListed
            obtain ⟨remains, remainsKept, remainsOwns, similar⟩ := keeps.owned second secondListed
            rw [leftOwned, Option.some.injEq] at staysOwns
            rw [rightOwned, Option.some.injEq] at remainsOwns
            have one : stays = remains := Operation.eq_of_id_eq keeps.distinct staysKept
              remainsKept (by rw [← staysOwns, ← remainsOwns, same])
            exact Or.inr ⟨first, firstListed, second, secondListed, rfl, rfl,
              by rw [← alike, ← similar, one]⟩
  · rintro (rfl | ⟨first, firstListed, second, secondListed, rfl, rfl, alike⟩)
    · rfl
    · obtain ⟨earliest, found, owned⟩ := keeps.get?_owners firstListed
      obtain ⟨again, foundAgain, ownedAgain⟩ := keeps.get?_owners secondListed
      simp only [Operation.sameComputation, alike] at found foundAgain
      rw [found] at foundAgain
      cases foundAgain
      rw [owned, ownedAgain, Option.getD_some, Option.getD_some]

end Deduplication.KeepsFirsts

namespace Resolution

variable {capacity : Capacity} {tensors : List Tensor} {operations : List Operation}
  {resolution : Resolution}

theorem exists_ofLists_self (tensorIds : (tensors.map Tensor.id).Nodup)
    (tensorsFit : tensors.length ≤ capacity.tensors.toNat) (operationIds : (ids operations).Nodup)
    (computations : (operations.map Operation.toComputation).Nodup)
    (operationsFit : operations.length ≤ capacity.operations.toNat) :
    ∃ resolution, ofLists capacity tensors operations = .ok resolution ∧
      resolution.tensors = tensors ∧ resolution.operations = operations ∧
      resolution.merged = 0 := by
  have tensorFirsts : firstsBy Tensor.id tensors = tensors := firstsBy_of_nodup tensorIds
  have operationFirsts : firstsBy Operation.toComputation operations = operations :=
    firstsBy_of_nodup computations
  have resolves : ∃ resolution, ofLists capacity tensors operations = .ok resolution := by
    refine exists_ofLists ?_ (by rwa [tensorFirsts]) ?_ (by rwa [operationFirsts])
    · exact fun first firstListed second secondListed =>
        List.inj_on_of_nodup_map tensorIds firstListed secondListed
    · intro first firstListed second secondListed same
      rw [Operation.eq_of_id_eq operationIds firstListed secondListed same]
  obtain ⟨resolution, resolved⟩ := resolves
  obtain ⟨state, keeps, reports⟩ := exists_keepsFirsts resolved
  have kept : state.operations = operations := keeps.firsts.trans operationFirsts
  have fixed : ∀ id, resolution.nameFor id = id := by
    intro id
    rw [reports.nameFor]
    cases owned : state.owners.get? id with
    | none => rfl
    | some owner =>
        obtain ⟨operation, listed, rfl⟩ := List.mem_map.mp (keeps.named id owner owned)
        obtain ⟨survivor, stays, owns, alike⟩ := keeps.owned operation listed
        rw [kept] at stays
        rw [List.inj_on_of_nodup_map computations stays listed alike, owned] at owns
        rw [Option.getD_some, Option.some.inj owns]
  refine ⟨resolution, resolved, ?_, ?_, ?_⟩
  · rw [reports.tensors]
    exact keeps.tensorFirsts.trans tensorFirsts
  · rw [reports.operations, kept,
      List.map_congr_left fun operation _ => Operation.mapMembers_of_fixed fixed operation]
    exact List.map_id' _
  · have counted := keeps.counted
    have sameLength : state.kept.length = operations.length := by
      rw [← kept, Deduplication.operations, List.length_map]
    rw [reports.merged]
    omega

/-- Nothing is left to merge, every operation passes its check, and resolving once more changes
nothing. -/
structure Normal (capacity : Capacity) (resolution : Resolution) : Prop where
  apart : resolution.operations.Pairwise fun first second => first.sameComputation second = false
  valid : ∀ operation ∈ resolution.operations, operation.validate = .ok ()
  settled : ∀ container : Capacity, ∃ again,
    (SymbolTable.mk container resolution.tensors resolution.operations).resolveWithin capacity =
        .ok again ∧
      again.tensors = resolution.tensors ∧ again.operations = resolution.operations ∧
      again.merged = 0

end Resolution

namespace SymbolTable

variable {symbols : SymbolTable} {capacity : Capacity} {resolution : Resolution}

theorem nameFor_eq_iff (resolved : symbols.resolveWithin capacity = .ok resolution)
    {left right : OperationId} :
    resolution.nameFor left = resolution.nameFor right ↔ Alias symbols.operations left right := by
  obtain ⟨state, keeps, reports⟩ := Resolution.exists_keepsFirsts resolved
  rw [reports.nameFor, reports.nameFor]
  exact keeps.name_eq_iff

theorem map_nameFor_eq_iff (resolved : symbols.resolveWithin capacity = .ok resolution)
    {left right : List OperationId} :
    left.map resolution.nameFor = right.map resolution.nameFor ↔
      List.Forall₂ (Alias symbols.operations) left right := by
  rw [← List.forall₂_eq_eq_eq, List.forall₂_map_left_iff, List.forall₂_map_right_iff]
  simp only [nameFor_eq_iff resolved]

theorem apart_iff_nodup {operations : List Operation} :
    (operations.Pairwise fun first second => first.sameComputation second = false) ↔
      (operations.map Operation.toComputation).Nodup := by
  rw [List.Nodup, List.pairwise_map]
  simp only [Operation.sameComputation, decide_eq_false_iff_not]

theorem nodup_renamed_iff (resolved : symbols.resolveWithin capacity = .ok resolution)
    {members : List OperationId} :
    (members.map resolution.nameFor).Nodup ↔
      members.Pairwise fun first second => ¬ Alias symbols.operations first second := by
  rw [List.Nodup, List.pairwise_map]
  simp only [ne_eq, nameFor_eq_iff resolved]

theorem groupsApart_of_normal
    (constructed : ∀ operation ∈ symbols.operations, operation.Constructed)
    (resolved : symbols.resolveWithin capacity = .ok resolution)
    (normal : resolution.Normal capacity) : GroupsApart symbols.operations := by
  obtain ⟨state, keeps, reports⟩ := Resolution.exists_keepsFirsts resolved
  constructor
  · intro marker listed
    obtain ⟨survivor, stays, _, alike⟩ := keeps.owned marker listed
    have listedAgain : survivor.mapMembers resolution.nameFor ∈ resolution.operations := by
      rw [reports.operations]
      exact List.mem_map_of_mem stays
    have once := (Operation.validate_ok_iff.mp (normal.valid _ listedAgain)).nodup_memberIds
    rw [Operation.memberIds_mapMembers, Operation.memberIds_eq_of_alike alike] at once
    exact (nodup_renamed_iff resolved).mp once
  · intro first firstListed second secondListed isGroup sameKind aliases
    obtain ⟨stays, staysKept, _, alike⟩ := keeps.owned first firstListed
    obtain ⟨remains, remainsKept, _, similar⟩ := keeps.owned second secondListed
    have renamedAlike : (stays.mapMembers resolution.nameFor).toComputation =
        (remains.mapMembers resolution.nameFor).toComputation := by
      refine (Operation.mapMembers_alike_iff (constructed stays (keeps.selection.subset staysKept))
        (constructed remains (keeps.selection.subset remainsKept)) ?_).mpr ⟨?_, ?_⟩
      · rwa [Operation.isGroup, alike]
      · rw [alike, similar, sameKind]
      · rw [Operation.memberIds_eq_of_alike alike, Operation.memberIds_eq_of_alike similar]
        exact (map_nameFor_eq_iff resolved).mpr aliases
    have one : stays.mapMembers resolution.nameFor = remains.mapMembers resolution.nameFor := by
      have distinct := apart_iff_nodup.mp normal.apart
      rw [reports.operations] at distinct
      exact List.inj_on_of_nodup_map distinct (List.mem_map_of_mem staysKept)
        (List.mem_map_of_mem remainsKept) renamedAlike
    have sameId := congrArg (fun operation => operation.id) one
    rw [Operation.mapMembers_id, Operation.mapMembers_id] at sameId
    rw [← Operation.memberIds_eq_of_alike alike, ← Operation.memberIds_eq_of_alike similar,
      Operation.eq_of_id_eq keeps.distinct staysKept remainsKept sameId]

theorem fitsGroup_renamed (constructed : ∀ operation ∈ symbols.operations, operation.Constructed)
    (resolved : symbols.resolveWithin capacity = .ok resolution)
    (groups : GroupsApart symbols.operations) {marker : Operation}
    (listed : marker ∈ symbols.operations) (isGroup : marker.isGroup = true)
    (stays : resolution.nameFor marker.id = marker.id) :
    Operation.FitsGroup (marker.memberIds.map resolution.nameFor) marker.id := by
  obtain ⟨state, keeps, _⟩ := Resolution.exists_keepsFirsts resolved
  obtain ⟨fits, _⟩ := (constructed marker listed).toComputation_of_isGroup isGroup
  refine ⟨?_, ?_, (nodup_renamed_iff resolved).mpr (groups.members marker listed), ?_⟩
  · rw [List.length_map]
    exact fits.atLeastTwo
  · rw [List.length_map]
    exact fits.within
  · intro named
    obtain ⟨member, isMember, renamed⟩ := List.mem_map.mp named
    rw [← stays, nameFor_eq_iff resolved] at renamed
    rcases renamed with same | ⟨first, firstListed, second, secondListed, rfl, sameId, alike⟩
    · exact fits.notItself (same ▸ isMember)
    · -- A marker that computes the same would name itself.
      have similar : first.toComputation = marker.toComputation :=
        alike.trans (keeps.alike_of_id_eq secondListed listed sameId)
      have firstIsGroup : first.isGroup = true := by rwa [Operation.isGroup, similar]
      obtain ⟨firstFits, _⟩ := (constructed first firstListed).toComputation_of_isGroup firstIsGroup
      rw [Operation.memberIds_eq_of_alike similar] at firstFits
      exact firstFits.notItself isMember

theorem nodup_renamed (constructed : ∀ operation ∈ symbols.operations, operation.Constructed)
    (resolved : symbols.resolveWithin capacity = .ok resolution)
    (groups : GroupsApart symbols.operations) :
    (resolution.operations.map Operation.toComputation).Nodup := by
  obtain ⟨state, keeps, reports⟩ := Resolution.exists_keepsFirsts resolved
  rw [reports.operations, List.map_map]
  refine List.Nodup.map_on ?_ (keeps.distinct.of_map _)
  intro first firstKept second secondKept alike
  have firstListed := keeps.selection.subset firstKept
  have secondListed := keeps.selection.subset secondKept
  have firstMade := constructed first firstListed
  have secondMade := constructed second secondListed
  refine List.inj_on_of_nodup_map keeps.nodup_computations firstKept secondKept ?_
  cases isGroup : first.isGroup with
  | true =>
      obtain ⟨sameKind, sameNames⟩ :=
        (Operation.mapMembers_alike_iff firstMade secondMade isGroup).mp alike
      exact Operation.alike_of_members firstMade secondMade isGroup sameKind
        (groups.markers first firstListed second secondListed isGroup sameKind
          ((map_nameFor_eq_iff resolved).mp sameNames))
  | false =>
      have secondPlain : second.isGroup = false := by
        rw [← Operation.isGroup_mapMembers resolution.nameFor second, ← isGroup,
          ← Operation.isGroup_mapMembers resolution.nameFor first]
        exact congrArg (fun computation => computation.kind.isGroup) alike.symm
      rwa [Function.comp_apply, Function.comp_apply, Operation.mapMembers_of_plain isGroup,
        Operation.mapMembers_of_plain secondPlain] at alike

theorem validate_renamed (constructed : ∀ operation ∈ symbols.operations, operation.Constructed)
    (resolved : symbols.resolveWithin capacity = .ok resolution)
    (groups : GroupsApart symbols.operations) {operation : Operation}
    (listed : operation ∈ resolution.operations) : operation.validate = .ok () := by
  obtain ⟨state, keeps, reports⟩ := Resolution.exists_keepsFirsts resolved
  rw [reports.operations] at listed
  obtain ⟨kept, keptStays, rfl⟩ := List.mem_map.mp listed
  have keptListed := keeps.selection.subset keptStays
  have keptMade := constructed kept keptListed
  cases isGroup : kept.isGroup with
  | false =>
      rw [Operation.mapMembers_of_plain isGroup]
      exact keptMade.validate
  | true =>
      have stays : resolution.nameFor kept.id = kept.id := by
        rw [reports.nameFor, keeps.get?_owners_of_kept keptStays, Option.getD_some]
      have fits := fitsGroup_renamed constructed resolved groups keptListed isGroup stays
      obtain ⟨_, pinned, shape⟩ := keptMade.toComputation_of_isGroup isGroup
      rw [Operation.mapMembers, if_pos isGroup, ← Operation.memberIds_of_isGroup isGroup,
        Operation.validate_ok_iff]
      exact Or.inl ⟨pinned, _, congrArg Computation.kind shape,
        Operation.group_ok_iff.mpr ⟨fits, rfl⟩⟩

theorem normal_of_groupsApart
    (constructed : ∀ operation ∈ symbols.operations, operation.Constructed)
    (resolved : symbols.resolveWithin capacity = .ok resolution)
    (groups : GroupsApart symbols.operations) : resolution.Normal capacity := by
  have distinct := nodup_renamed constructed resolved groups
  obtain ⟨state, keeps, reports⟩ := Resolution.exists_keepsFirsts resolved
  refine ⟨apart_iff_nodup.mpr distinct,
    fun operation listed => validate_renamed constructed resolved groups listed,
    fun container => Resolution.exists_ofLists_self ?_ ?_ ?_ distinct ?_⟩
  · rw [reports.tensors, keeps.tensorFirsts]
    exact map_firstsBy_nodup _
  · rw [reports.tensors]
    exact keeps.tensorsWithin
  · rw [reports.operations, Operation.ids_map_mapMembers]
    exact keeps.distinct
  · rw [reports.operations, List.length_map, Deduplication.operations, List.length_map]
    exact keeps.operationsWithin

/-- A resolution is in normal form exactly if the groups are apart under the names they were
given. -/
theorem normal_iff (constructed : ∀ operation ∈ symbols.operations, operation.Constructed)
    (resolved : symbols.resolveWithin capacity = .ok resolution) :
    resolution.Normal capacity ↔ GroupsApart symbols.operations :=
  ⟨groupsApart_of_normal constructed resolved, normal_of_groupsApart constructed resolved⟩

def copiesIn (markers : List Operation) : SymbolTable where
  capacity := ⟨8, 8⟩
  tensors := [.scalar 0 .u8, .scalar 1 .u8, .scalar 2 .u8]
  operations := [Graph.relayCopy 3 0 1, Graph.relayCopy 5 0 1, Graph.relayCopy 6 1 2] ++ markers

theorem constructed_copiesIn {markers : List Operation}
    (made : ∀ marker ∈ markers, marker.Constructed) :
    ∀ operation ∈ (copiesIn markers).operations, operation.Constructed := by
  refine List.forall_mem_append.mpr ⟨?_, made⟩
  simp only [List.forall_mem_cons, List.not_mem_nil, false_implies, implies_true, and_true]
  exact ⟨.plain (rfl : Operation.create 3 .copy .u8 [0] [1] .empty = .ok _),
    .plain (rfl : Operation.create 5 .copy .u8 [0] [1] .empty = .ok _),
    .plain (rfl : Operation.create 6 .copy .u8 [1] [2] .empty = .ok _)⟩

theorem constructed_marker {id : OperationId} {members : List OperationId}
    (fits : Operation.FitsGroup members id) : (marker id members).Constructed :=
  .marker (Operation.group_ok_iff.mpr ⟨fits, rfl⟩)

theorem normal_copies : ∃ resolution,
    (copiesIn [marker 10 [5, 6], marker 11 [5, 6]]).resolveWithin ⟨8, 8⟩ = .ok resolution ∧
      resolution.operations =
        [Graph.relayCopy 3 0 1, Graph.relayCopy 6 1 2, marker 10 [3, 6]] ∧
      resolution.merged = 2 ∧ resolution.Normal ⟨8, 8⟩ := by
  refine ⟨_, rfl, rfl, rfl, ?_⟩
  refine (@normal_iff (copiesIn [marker 10 [5, 6], marker 11 [5, 6]]) ⟨8, 8⟩ _ ?_ rfl).mpr
    ⟨?_, ?_⟩
  · exact constructed_copiesIn (List.forall_mem_cons.mpr ⟨constructed_marker (by decide),
      List.forall_mem_singleton.mpr (constructed_marker (by decide))⟩)
  · unfold Alias
    decide
  · have sameMembers : ∀ operation ∈ (copiesIn [marker 10 [5, 6], marker 11 [5, 6]]).operations,
        operation.isGroup = true → operation.memberIds = [5, 6] := by decide
    intro first firstListed second secondListed isGroup sameKind _
    rw [sameMembers first firstListed isGroup, sameMembers second secondListed
      (by rwa [Operation.isGroup, ← sameKind])]

/-- Groups that name the duplicate and its survivor become alike, or name one operation twice, and
both goes unnoticed. -/
theorem not_normal_copies :
    (∀ operation ∈ (copiesIn [marker 10 [3, 6], marker 11 [5, 6]]).operations,
      operation.Constructed) ∧
    (∃ resolution again,
      (copiesIn [marker 10 [3, 6], marker 11 [5, 6]]).resolve = .ok resolution ∧
        resolution.operations = [Graph.relayCopy 3 0 1, Graph.relayCopy 6 1 2, marker 10 [3, 6],
          marker 11 [3, 6]] ∧
        (marker 10 [3, 6]).sameComputation (marker 11 [3, 6]) = true ∧
        (SymbolTable.mk ⟨8, 8⟩ resolution.tensors resolution.operations).resolve = .ok again ∧
        again.merged = 1 ∧ ¬ resolution.Normal ⟨8, 8⟩) ∧
    (∀ operation ∈ (copiesIn [marker 10 [3, 5]]).operations, operation.Constructed) ∧
    ∃ resolution, (copiesIn [marker 10 [3, 5]]).resolve = .ok resolution ∧
      marker 10 [3, 3] ∈ resolution.operations ∧
      (marker 10 [3, 3]).validate = .error (.invalidGroup 10 (.memberListedTwice 3)) := by
  refine ⟨?_, ⟨_, _, rfl, rfl, rfl, rfl, rfl, ?_⟩, ?_, _, rfl, by decide, rfl⟩
  · exact constructed_copiesIn (List.forall_mem_cons.mpr ⟨constructed_marker (by decide),
      List.forall_mem_singleton.mpr (constructed_marker (by decide))⟩)
  · intro normal
    exact absurd normal.apart (by decide)
  · exact constructed_copiesIn (List.forall_mem_singleton.mpr (constructed_marker (by decide)))

end SymbolTable

end TensorGraph
