import TensorGraph.Proofs.ExactDeduplication
import TensorGraph.Proofs.Failures
import TensorGraph.Proofs.Obtained
import TensorGraph.Resolution.Arena
import TensorGraph.SymbolTable

/-!
Groups among deduplicated symbols. A member that is merged into an operation in front of its marker
leaves the group behind; short of that, deduplication keeps every member behind its marker.
-/

namespace TensorGraph

open Operation (ids)

namespace Operation

theorem mapMembers_of_plain {rename : OperationId → OperationId} {operation : Operation}
    (plain : operation.isGroup = false) : operation.mapMembers rename = operation := by
  rw [mapMembers, plain]
  rfl

variable (rename : OperationId → OperationId) (operation : Operation)

@[simp] theorem mapMembers_id : (operation.mapMembers rename).id = operation.id := by
  rw [mapMembers]
  split
  · rfl
  · rfl

@[simp] theorem isGroup_mapMembers :
    (operation.mapMembers rename).isGroup = operation.isGroup := by
  rw [mapMembers]
  split
  · rfl
  · rfl

theorem memberIds_mapMembers :
    (operation.mapMembers rename).memberIds = operation.memberIds.map rename := by
  cases isGroup : operation.isGroup with
  | true =>
      rw [memberIds_of_isGroup (by rw [isGroup_mapMembers, isGroup]), memberIds_of_isGroup isGroup,
        mapMembers, if_pos isGroup]
  | false =>
      rw [memberIds_of_not_isGroup (by rw [isGroup_mapMembers, isGroup]),
        memberIds_of_not_isGroup isGroup, List.map_nil]

theorem ids_map_mapMembers (operations : List Operation) :
    ids (operations.map (mapMembers rename)) = ids operations := by
  simp [ids, Function.comp_def]

end Operation

namespace SymbolTable

def MarkersFirst (symbols : SymbolTable) : Prop :=
  symbols.operations.Pairwise fun earlier later => earlier.id ∉ later.memberIds

/-- No group marker stands between one of its members and an earlier operation that computes the
same. -/
def Undisplaced (symbols : SymbolTable) : Prop :=
  ∀ front marker behind, symbols.operations = front ++ marker :: behind →
    ∀ survivor ∈ front, ∀ duplicate ∈ behind, duplicate.id ∈ marker.memberIds →
      survivor.toComputation ≠ duplicate.toComputation

variable {symbols : SymbolTable} {capacity limits : Capacity} {resolution : Resolution}

theorem not_mem_ids_of_misplaced (resolved : symbols.resolveWithin capacity = .ok resolution)
    (markersFirst : symbols.MarkersFirst) (undisplaced : symbols.Undisplaced)
    {group member : OperationId}
    (misplaced : Grouping.Misplaced resolution.operations group member) :
    member ∉ ids symbols.operations := by
  obtain ⟨state, keeps, reports⟩ := Resolution.exists_keepsFirsts resolved
  have represents := keeps.toRepresents
  obtain ⟨left, marker, right, split, _, listed, noMarker, notRight⟩ := misplaced
  rw [reports.operations] at split noMarker
  obtain ⟨keptLeft, keptRest, keptSplit, _, restRenamed⟩ := List.map_eq_append_iff.mp split
  obtain ⟨kept, keptRight, rfl, rfl, rfl⟩ := List.map_eq_cons_iff.mp restRenamed
  rw [Operation.ids_map_mapMembers] at notRight
  rw [Operation.memberIds_mapMembers] at listed
  obtain ⟨named, isMember, rfl⟩ := List.mem_map.mp listed
  intro present
  rw [reports.nameFor] at present noMarker notRight
  obtain ⟨survivor, stays, duplicate, duplicateListed, sameName, rfl, alike⟩ :=
    represents.exists_survivor present
  rw [← sameName] at noMarker notRight
  have keptGroup := Operation.isGroup_of_mem_memberIds isMember
  have plain : survivor.isGroup = false := by
    cases isGroup : survivor.isGroup with
    | false => rfl
    | true =>
        refine absurd (Grouping.mem_markers.mpr ⟨_, List.mem_map_of_mem stays, ?_, ?_⟩) noMarker
        · rwa [Operation.isGroup_mapMembers]
        · exact Operation.mapMembers_id _ survivor
  -- The survivor is kept in front of the marker, so it stands there among all operations too.
  obtain ⟨front, behind, markerSplit, inclusion⟩ := represents.exists_split keptSplit
  have inFront : survivor ∈ front := by
    rw [keptSplit, List.mem_append, List.mem_cons] at stays
    rcases stays with here | same | later
    · exact inclusion here
    · rw [same, keptGroup] at plain
      cases plain
    · exact absurd (List.mem_map_of_mem later) notRight
  rw [MarkersFirst, markerSplit, List.pairwise_append] at markersFirst
  rw [markerSplit, List.mem_append, List.mem_cons] at duplicateListed
  rcases duplicateListed with early | same | late
  · exact markersFirst.2.2 duplicate early kept (by simp) isMember
  · rw [Operation.isGroup, alike, same, ← Operation.isGroup, keptGroup] at plain
    cases plain
  · exact undisplaced front kept behind markerSplit survivor inFront duplicate late isMember alike

theorem member_found (resolved : symbols.resolveWithin capacity = .ok resolution)
    (markersFirst : symbols.MarkersFirst) (undisplaced : symbols.Undisplaced)
    {member : OperationId} (present : member ∈ ids symbols.operations) (group : OperationId) :
    Graph.build resolution.tensors resolution.operations limits ≠
      .error (.groupMemberNotFound group member) := by
  intro failed
  exact not_mem_ids_of_misplaced resolved markersFirst undisplaced
    (Graph.misplaced_of_build failed) present

def marker (id : OperationId) (members : List OperationId) : Operation where
  id
  kind := .group false
  elementType := none
  inputs := members
  outputs := []
  parameters := .empty

/-- Operations whose group names a duplicate; what stays for it stands behind the marker. -/
def mergedBehind : SymbolTable where
  capacity := ⟨8, 8⟩
  tensors := Graph.relayTensors
  operations := [Graph.relayCopy 7 0 3, marker 10 [5, 6], Graph.relayCopy 3 0 1,
    Graph.relayCopy 5 0 1, Graph.relayCopy 6 1 2]

theorem member_found_behind :
    ∃ resolution, mergedBehind.resolveWithin ⟨8, 8⟩ = .ok resolution ∧
      resolution.redirect? 5 = some 3 ∧ mergedBehind.MarkersFirst ∧ mergedBehind.Undisplaced ∧
      ∀ group, Graph.build resolution.tensors resolution.operations ⟨8, 8⟩ ≠
        .error (.groupMemberNotFound group 3) := by
  have markersFirst : mergedBehind.MarkersFirst := by
    rw [MarkersFirst]
    decide
  have undisplaced : mergedBehind.Undisplaced := by
    rintro (_ | ⟨first, _ | ⟨second, front⟩⟩) kept behind split survivor inFront duplicate late named
    · cases inFront
    · have tails := (List.cons.inj split).2
      have others : ∀ duplicate ∈ behind,
          (Graph.relayCopy 7 0 3).toComputation ≠ duplicate.toComputation := by
        rw [← (List.cons.inj tails).2]
        decide
      rw [List.mem_singleton.mp inFront, ← (List.cons.inj split).1]
      exact others duplicate late
    · have tails : [Graph.relayCopy 3 0 1, Graph.relayCopy 5 0 1, Graph.relayCopy 6 1 2] =
          front ++ kept :: behind := (List.cons.inj (List.cons.inj split).2).2
      have noMembers : ∀ operation ∈ front ++ kept :: behind, operation.memberIds = [] := by
        rw [← tails]
        decide
      rw [noMembers kept (by simp)] at named
      cases named
  refine ⟨_, rfl, by decide, markersFirst, undisplaced, fun group => ?_⟩
  exact @member_found mergedBehind ⟨8, 8⟩ ⟨8, 8⟩ _ rfl markersFirst undisplaced 3 (by decide) group

/-- The same operations in another order: what stays for the duplicate stands in front of the
marker. -/
def mergedInFront : SymbolTable where
  capacity := ⟨8, 8⟩
  tensors := [.scalar 0 .u8, .scalar 1 .u8, .scalar 2 .u8]
  operations := [Graph.relayCopy 3 0 1, marker 10 [5, 6], Graph.relayCopy 5 0 1,
    Graph.relayCopy 6 1 2]

/-- Deduplication takes a member out from behind its marker; moving the marker back in front of its
members, as is done for arenas, would repair that. -/
theorem member_not_found_in_front :
    ∃ resolution, mergedInFront.resolve = .ok resolution ∧ mergedInFront.MarkersFirst ∧
      Grouping.claimed mergedInFront.operations ⊆ ids mergedInFront.operations ∧
      resolution.toGraph ⟨8, 8⟩ = .error (.groupMemberNotFound 10 3) ∧
      ∃ graph, Graph.build resolution.tensors (hoistMarkers resolution.operations) ⟨8, 8⟩ =
        .ok graph := by
  refine ⟨_, rfl, ?_, by decide, rfl, _, rfl⟩
  rw [MarkersFirst]
  decide

end SymbolTable

end TensorGraph
