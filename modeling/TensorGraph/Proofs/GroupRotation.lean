import TensorGraph.Graph.Rotation
import TensorGraph.Proofs.Arrangement
import TensorGraph.Proofs.Guarded
import TensorGraph.Proofs.Obtained

/-!
Groups that are put together in place. One marker after the other, each member is brought to its
slot by rotating what stands between by one. This comes to laying all groups out at once, and the
result is the only list that keeps groups together and everything else in the given order.
-/

namespace TensorGraph

open Operation (ids)

namespace Rotation

theorem rotateRight_append_singleton {α : Type} (items : List α) (last : α) :
    (items ++ [last]).rotateRight 1 = last :: items := by
  cases items with
  | nil => rfl
  | cons first rest =>
      have turned : (first :: rest ++ [last]).length - 1 % (first :: rest ++ [last]).length =
          (first :: rest).length := by
        simp
      simp only [List.rotateRight, turned, List.take_left, List.drop_left]
      simp

theorem bring_append {α : Type} (front ahead behind : List α) (item : α) :
    bring front.length (front.length + ahead.length) (front ++ (ahead ++ item :: behind)) =
      (front ++ [item]) ++ (ahead ++ behind) := by
  have width : front.length + ahead.length + 1 - front.length = (ahead ++ [item]).length := by
    rw [List.length_append, List.length_singleton]
    omega
  have whole : front ++ (ahead ++ item :: behind) = front ++ ((ahead ++ [item]) ++ behind) := by
    simp
  have behindLeft : (front ++ ((ahead ++ [item]) ++ behind)).drop
      (front.length + ahead.length + 1) = behind := by
    rw [← List.append_assoc]
    exact List.drop_left' (by simp [Nat.add_assoc])
  rw [bring, width, whole, List.take_left, List.drop_left, List.take_left,
    rotateRight_append_singleton, behindLeft]
  simp

open Grouping (named checkMembers checkFrom)

def untaken (taken : List OperationId) (operations : List Operation) : List Operation :=
  operations.filter fun operation => operation.id ∉ taken

theorem exists_split_untaken {rest : List Operation} (unique : (ids rest).Nodup)
    {taken : List OperationId} {member : OperationId} (free : member ∉ taken)
    (present : member ∈ ids rest) :
    ∃ ahead item behind, untaken taken rest = ahead ++ item :: behind ∧
      named rest member = some item ∧ ahead ++ behind = untaken (member :: taken) rest ∧
      (untaken taken rest).findIdx? (fun operation => operation.id = member) =
        some ahead.length := by
  obtain ⟨item, found⟩ := Grouping.exists_named unique present
  obtain ⟨listed, same⟩ := (Grouping.named_eq_some_iff unique).mp found
  have isUntaken : item ∈ untaken taken rest :=
    List.mem_filter.mpr ⟨listed, by simpa [same] using free⟩
  obtain ⟨ahead, behind, split⟩ := List.append_of_mem isUntaken
  have apart : (ids (ahead ++ item :: behind)).Nodup := by
    rw [← split]
    exact unique.sublist ((List.filter_sublist).map _)
  rw [Operation.ids_append, Operation.ids_cons, List.nodup_append', List.nodup_cons] at apart
  obtain ⟨_, ⟨notBehind, _⟩, disjoint⟩ := apart
  have others : ∀ other ∈ ahead ++ behind, other.id ≠ member := by
    intro other isOther equal
    rw [← same] at equal
    rcases List.mem_append.mp isOther with isAhead | isBehind
    · exact disjoint (List.mem_map_of_mem isAhead) (by rw [equal]; exact List.mem_cons_self)
    · exact notBehind (equal ▸ List.mem_map_of_mem (f := fun other => other.id) isBehind)
  refine ⟨ahead, item, behind, split, found, ?_, ?_⟩
  · have dropped : untaken (member :: taken) rest =
        (untaken taken rest).filter fun operation => operation.id ≠ member := by
      rw [untaken, untaken, List.filter_filter]
      refine List.filter_congr fun operation _ => ?_
      simp
    have kept : ∀ {part : List Operation}, part ⊆ ahead ++ behind →
        part.filter (fun operation => operation.id ≠ member) = part := fun inside =>
      List.filter_eq_self.mpr fun other isOther => by simpa using others other (inside isOther)
    rw [dropped, split, List.filter_append, List.filter_cons_of_neg (by simp [same]),
      kept (List.subset_append_left _ _), kept (List.subset_append_right _ _)]
  · rw [split, List.findIdx?_append, List.findIdx?_eq_none_iff.mpr fun other isAhead => by
        simpa using others other (List.mem_append_left _ isAhead),
      List.findIdx?_cons]
    simp [same]

/-- The members of a group that are brought behind `front` come from what is not taken yet. -/
theorem placeMembers_eq {markers : List OperationId} {group : OperationId} {rest : List Operation}
    (unique : (ids rest).Nodup) (members taken : List OperationId) (front : List Operation) :
    placeMembers markers group front.length taken (front ++ untaken taken rest) members =
      (checkMembers markers group (ids rest) taken members).map fun _ =>
        (front ++ members.filterMap (named rest) ++ untaken (members.reverse ++ taken) rest,
          members.reverse ++ taken) := by
  induction members generalizing taken front with
  | nil => simp [placeMembers, checkMembers, Except.map]
  | cons member others ih =>
      rw [placeMembers, checkMembers]
      by_cases isMarker : member ∈ markers
      · rw [if_pos isMarker, if_pos isMarker]
        rfl
      · rw [if_neg isMarker, if_neg isMarker]
        by_cases isTaken : member ∈ taken
        · rw [if_pos isTaken, if_pos isTaken]
          rfl
        · rw [if_neg isTaken, if_neg isTaken, List.drop_left]
          by_cases present : member ∈ ids rest
          · obtain ⟨ahead, item, behind, split, found, left, place⟩ :=
              exists_split_untaken unique isTaken present
            simp only [place, if_pos present]
            have next := ih (member :: taken) (front ++ [item])
            rw [List.length_append, List.length_singleton, ← left] at next
            rw [split, bring_append, next, List.filterMap_cons_some found]
            simp
          · have missing : (untaken taken rest).findIdx?
                (fun operation => operation.id = member) = none := by
              rw [List.findIdx?_eq_none_iff]
              intro other isOther
              have elsewhere : other.id ≠ member := fun same =>
                present (same ▸ List.mem_map_of_mem (List.mem_filter.mp isOther).1)
              simpa using elsewhere
            simp only [missing, if_neg present]
            rfl

theorem checkMembers_congr {taken claimed : List OperationId}
    (same : ∀ id, id ∈ taken ↔ id ∈ claimed) (markers : List OperationId) (group : OperationId)
    (right members : List OperationId) :
    checkMembers markers group right taken members =
      checkMembers markers group right claimed members := by
  induction members generalizing taken claimed with
  | nil => rfl
  | cons member rest ih =>
      have next : ∀ id, id ∈ member :: taken ↔ id ∈ member :: claimed := fun id => by
        rw [List.mem_cons, List.mem_cons, same]
      rw [checkMembers, checkMembers, ih next]
      simp only [same]

def settle : List OperationId → List Operation → List Operation
  | _, [] => []
  | taken, operation :: rest =>
      match operation.members? with
      | some members =>
          operation :: (members.filterMap (named rest) ++ settle (members.reverse ++ taken) rest)
      | none => if operation.id ∈ taken then settle taken rest else operation :: settle taken rest

theorem walk_untaken {markers taken : List OperationId} {operation : Operation}
    (free : operation.id ∉ taken) (rest : List Operation) (turns : Nat) (front : List Operation) :
    walk markers (turns + 1) front.length taken (front ++ untaken taken (operation :: rest)) =
      match operation.members? with
      | none =>
          walk markers turns (front ++ [operation]).length taken
            ((front ++ [operation]) ++ untaken taken rest)
      | some members =>
          Guarded.plain (placeMembers markers operation.id (front ++ [operation]).length taken
            ((front ++ [operation]) ++ untaken taken rest) members) >>= fun (rotated, claimed) =>
              walk markers turns ((front ++ [operation]).length + members.length) claimed
                rotated := by
  have next : untaken taken (operation :: rest) = operation :: untaken taken rest :=
    List.filter_cons_of_pos (by simpa using free)
  have here : (front ++ untaken taken (operation :: rest))[front.length]? = some operation := by
    rw [next, List.getElem?_append_right (Nat.le_refl _), Nat.sub_self]
    rfl
  have onward : front ++ untaken taken (operation :: rest) =
      (front ++ [operation]) ++ untaken taken rest := by
    rw [next, List.append_assoc]
    rfl
  have frontLength : front.length + 1 = (front ++ [operation]).length := by
    rw [List.length_append, List.length_singleton]
  rw [walk.eq_def, here]
  dsimp only
  cases operation.members? with
  | none => rw [onward, frontLength]
  | some members => rw [onward, frontLength]

theorem length_members {rest : List Operation} (unique : (ids rest).Nodup)
    {members : List OperationId} (present : ∀ member ∈ members, member ∈ ids rest) :
    (members.filterMap (named rest)).length = members.length := by
  have found := congrArg List.length (Grouping.ids_filterMap_named unique present)
  rwa [ids, List.length_map] at found

/-- Behind the operations that are in place stand those that no group has taken. The induction is on
all that were there at first, since taking a member leaves a gap among them. -/
theorem walk_agrees {markers : List OperationId} {operations : List Operation}
    (unique : (ids operations).Nodup)
    (known : ∀ operation ∈ operations, operation.isGroup = true → operation.id ∈ markers)
    {taken claimed : List OperationId} (same : ∀ id, id ∈ taken ↔ id ∈ claimed)
    (free : ∀ id ∈ taken, id ∉ markers) {turns : Nat} (enough : operations.length ≤ turns)
    (front : List Operation) :
    Guarded.Agrees (walk markers turns front.length taken (front ++ untaken taken operations))
      ((checkFrom markers claimed operations).map fun _ => front ++ settle taken operations) := by
  induction operations generalizing taken claimed turns front with
  | nil =>
      have finished : (front ++ untaken taken [])[front.length]? = none := by simp [untaken]
      rw [walk.eq_def, finished]
      exact .of_plain _
  | cons operation rest ih =>
      obtain ⟨_, restUnique⟩ := List.nodup_cons.mp unique
      obtain ⟨operationKnown, restKnown⟩ := List.forall_mem_cons.mp known
      rw [List.length_cons] at enough
      by_cases isTaken : operation.id ∈ taken
      · -- It stands behind its marker already, so the walk does not come by it again.
        have plain : operation.members? = none := by
          cases isGroup : operation.isGroup with
          | true => exact absurd (operationKnown isGroup) (free _ isTaken)
          | false => simp [Operation.members?, isGroup]
        have gone : untaken taken (operation :: rest) = untaken taken rest :=
          List.filter_cons_of_neg (by simpa using isTaken)
        simp only [gone, checkFrom, plain, settle, isTaken, if_true]
        exact ih restUnique restKnown same free (by omega) front
      · obtain ⟨turns, rfl⟩ := Nat.exists_eq_add_of_le' (Nat.le_trans (Nat.le_add_left 1 _) enough)
        have turnsLeft : rest.length ≤ turns := by omega
        rw [walk_untaken isTaken]
        cases isGroup : operation.members? with
        | none =>
            simp only [checkFrom, isGroup, settle, isTaken, if_false]
            have later := ih restUnique restKnown same free turnsLeft (front ++ [operation])
            simpa using later
        | some members =>
            simp only [checkFrom, isGroup, settle]
            rw [placeMembers_eq restUnique, checkMembers_congr same]
            change Guarded.Agrees _ (Except.map _ (checkMembers markers operation.id (ids rest)
              claimed members >>= fun _ => checkFrom markers (members ++ claimed) rest))
            cases checked : checkMembers markers operation.id (ids rest) claimed members with
            | error failure => exact .of_plain _
            | ok _ =>
                obtain ⟨_, allowed⟩ := (Grouping.checkMembers_ok_iff ..).mp checked
                have sameAfter : ∀ id, id ∈ members.reverse ++ taken ↔ id ∈ members ++ claimed := by
                  simp [same]
                have freeAfter : ∀ id ∈ members.reverse ++ taken, id ∉ markers := by
                  intro id isTaken
                  rcases List.mem_append.mp isTaken with isMember | before
                  · exact (allowed id (List.mem_reverse.mp isMember)).1
                  · exact free id before
                have later := ih restUnique restKnown sameAfter freeAfter turnsLeft
                  ((front ++ [operation]) ++ members.filterMap (named rest))
                rw [List.length_append, length_members restUnique fun member listed =>
                  (allowed member listed).2.2] at later
                refine .plain_bind ?_
                simp only [List.append_assoc, List.singleton_append] at later ⊢
                exact later

theorem placed_of_append {before rest : List Operation}
    (placed : Grouping.Placed (before ++ rest)) : Grouping.Placed rest := by
  induction before with
  | nil => exact placed
  | cons operation before ih => exact ih placed.2

theorem settle_eq_flatMap {whole : List Operation} (unique : (ids whole).Nodup)
    (sound : Grouping.Sound whole) {before rest : List Operation} (split : whole = before ++ rest)
    {taken : List OperationId} (same : ∀ id, id ∈ taken ↔ id ∈ Grouping.claimed before) :
    settle taken rest = rest.flatMap (Grouping.piece whole) := by
  induction rest generalizing before taken with
  | nil => rfl
  | cons operation rest ih =>
      have splitAfter : whole = (before ++ [operation]) ++ rest := by rw [split]; simp
      have placed : Grouping.Placed (operation :: rest) := placed_of_append (split ▸ sound.placed)
      have tailUnique : (ids (operation :: rest)).Nodup := by
        rw [split, Operation.ids_append] at unique
        exact (List.nodup_append'.mp unique).2.1
      obtain ⟨notLater, restUnique⟩ := List.nodup_cons.mp tailUnique
      have claimedAfter : Grouping.claimed (before ++ [operation]) =
          Grouping.claimed before ++ operation.memberIds := by
        simp [Grouping.claimed, Operation.memberIds]
      rw [settle, List.flatMap_cons, Grouping.piece]
      cases isGroup : operation.members? with
      | some members =>
          have memberIds : operation.memberIds = members := by simp [Operation.memberIds, isGroup]
          have lookups : members.filterMap (named rest) = members.filterMap (named whole) := by
            refine List.filterMap_congr fun member listed => ?_
            obtain ⟨item, found⟩ := Grouping.exists_named restUnique
              (placed.1 member (memberIds ▸ listed))
            obtain ⟨present, sameId⟩ := (Grouping.named_eq_some_iff restUnique).mp found
            rw [found, (Grouping.named_eq_some_iff unique).mpr ⟨?_, sameId⟩]
            rw [splitAfter]
            exact List.mem_append_right _ present
          have sameAfter : ∀ id, id ∈ members.reverse ++ taken ↔
              id ∈ Grouping.claimed (before ++ [operation]) := fun id => by
            rw [claimedAfter, memberIds]
            simp [same, or_comm]
          have later := ih splitAfter sameAfter
          simp only [lookups, later]
          rfl
      | none =>
          have noMembers : operation.memberIds = [] := by simp [Operation.memberIds, isGroup]
          have later := ih splitAfter fun id => by
            rw [claimedAfter, noMembers, List.append_nil, same]
          have decided : operation.id ∈ taken ↔ operation.id ∈ Grouping.claimed whole := by
            rw [same, split, Grouping.Arranged.claimed_append, Grouping.claimed_cons, noMembers,
              List.nil_append, List.mem_append]
            exact ⟨Or.inl, fun isClaimed => isClaimed.resolve_right fun behind =>
              notLater (Grouping.mem_ids_of_placed placed.2 behind)⟩
          by_cases isTaken : operation.id ∈ taken
          · simp only [isTaken, if_true, decided.mp isTaken, later]
            rfl
          · simp only [isTaken, if_false, mt decided.mpr isTaken, later]
            rfl

theorem rotateGroups_agrees {operations : List Operation} (unique : (ids operations).Nodup) :
    Guarded.Agrees (rotateGroups operations) (arrangeGroups operations) := by
  have known : ∀ operation ∈ operations, operation.isGroup = true →
      operation.id ∈ Grouping.markers operations := fun operation member isGroup =>
    Grouping.mem_markers.mpr ⟨operation, member, isGroup, rfl⟩
  have walked := @walk_agrees _ _ unique known [] [] (fun _ => Iff.rfl) (by simp)
    operations.length (Nat.le_refl _) []
  have nothingTaken : untaken [] operations = operations := by simp [untaken]
  rw [nothingTaken] at walked
  refine Eq.trans walked (congrArg some ?_)
  rw [arrangeGroups, Grouping.check]
  cases checked : checkFrom (Grouping.markers operations) [] operations with
  | error failure => rfl
  | ok _ =>
      have sound := (Grouping.check_ok_iff operations).mp checked
      have settled := @settle_eq_flatMap _ unique sound [] _ rfl [] (by simp [Grouping.claimed])
      rw [← Grouping.layout_eq_flatMap] at settled
      simp only [settled]
      rfl

end Rotation

namespace Grouping

def Followed (operations : List Operation) : Prop :=
  ∀ before marker behind, operations = before ++ marker :: behind → marker.isGroup = true →
    ∃ members rest, behind = members ++ rest ∧ ids members = marker.inputs

/-- Markers, and operations that belong to no group. -/
def leads (operations : List Operation) (operation : Operation) : Bool :=
  operation.isGroup || operation.id ∉ claimed operations

/-- The same operations with their groups together, and apart from members in the same order. -/
structure Rearranges (operations result : List Operation) : Prop where
  sameOperations : result.Perm operations
  membersFollow : Followed result
  orderKept : result.filter (leads operations) = operations.filter (leads operations)

theorem Followed.of_append {before rest : List Operation} (followed : Followed (before ++ rest)) :
    Followed rest := by
  intro left marker behind split isGroup
  exact followed (before ++ left) marker behind (by rw [split, List.append_assoc]) isGroup

/-- Where nothing claims a marker, operations whose markers are followed by their members are
arranged. The induction is on their number, since behind a group it goes on behind the members. -/
theorem arranged_of_followed {operations : List Operation} (followed : Followed operations)
    (plain : ∀ operation ∈ operations, operation.id ∈ claimed operations →
      operation.isGroup = false) : Arranged operations := by
  induction count : operations.length using Nat.strongRecOn generalizing operations with
  | ind count ih =>
      subst count
      cases operations with
      | nil => exact .nil
      | cons operation rest =>
          -- What a tail claims the whole claims, so that the tail fulfils the condition too.
          have tail : ∀ {front behind : List Operation}, operation :: rest = front ++ behind →
              behind.length < (operation :: rest).length → Arranged behind := by
            intro front behind split shorter
            rw [split] at followed plain
            refine ih _ shorter followed.of_append (fun other member isClaimed => ?_) rfl
            exact plain other (List.mem_append_right _ member)
              (Arranged.claimed_subset (List.subset_append_right _ _) isClaimed)
          cases isGroup : operation.isGroup with
          | false => exact .free isGroup (@tail [operation] rest rfl (by simp))
          | true =>
              obtain ⟨members, behind, follow, listed⟩ := followed [] operation rest rfl isGroup
              subst follow
              refine .group isGroup (fun member isMember => ?_) listed
                (@tail (operation :: members) behind rfl ?_)
              · refine plain member (by simp [isMember]) (mem_claimed.mpr ⟨operation, by simp, ?_⟩)
                rw [Operation.memberIds_of_isGroup isGroup, ← listed]
                exact List.mem_map_of_mem isMember
              · rw [List.length_cons, List.length_append]
                omega

theorem Sound.isGroup_of_claimed {operations : List Operation} (sound : Sound operations)
    {operation : Operation} (member : operation ∈ operations)
    (isClaimed : operation.id ∈ claimed operations) : operation.isGroup = false := by
  by_contra isGroup
  rw [Bool.not_eq_false] at isGroup
  exact sound.marker_not_claimed member isGroup isClaimed

theorem flatMap_piece_filter (operations part : List Operation) :
    (part.filter (leads operations)).flatMap (piece operations) =
      part.flatMap (piece operations) := by
  induction part with
  | nil => rfl
  | cons operation rest ih =>
      cases isLead : leads operations operation with
      | true => rw [List.filter_cons_of_pos isLead, List.flatMap_cons, List.flatMap_cons, ih]
      | false =>
          obtain ⟨plain, isClaimed⟩ : operation.isGroup = false ∧
              operation.id ∈ claimed operations := by
            simpa [leads] using isLead
          rw [List.filter_cons_of_neg (by simp [isLead]), ih, List.flatMap_cons,
            piece_of_not_isGroup plain, if_pos isClaimed, List.nil_append]

section Sound

variable {operations : List Operation} (unique : (ids operations).Nodup) (sound : Sound operations)

include unique sound

theorem filter_leads_piece {operation : Operation} (member : operation ∈ operations) :
    (piece operations operation).filter (leads operations) =
      [operation].filter (leads operations) := by
  cases isGroup : operation.isGroup with
  | false =>
      rw [piece_of_not_isGroup isGroup]
      split
      · rename_i isClaimed
        simp [leads, isGroup, isClaimed]
      · rfl
  | true =>
      have membersDropped : (operation.inputs.filterMap (named operations)).filter
          (leads operations) = [] := by
        rw [List.filter_eq_nil_iff]
        intro other listed
        obtain ⟨id, isMember, found⟩ := List.mem_filterMap.mp listed
        obtain ⟨present, same⟩ := (named_eq_some_iff unique).mp found
        have isClaimed : other.id ∈ claimed operations := by
          refine mem_claimed.mpr ⟨operation, member, ?_⟩
          rwa [Operation.memberIds_of_isGroup isGroup, same]
        simp [leads, isClaimed, sound.isGroup_of_claimed present isClaimed]
      rw [piece_of_isGroup isGroup, List.filter_cons, List.filter_cons, membersDropped]
      rfl

theorem rearranges_layout : Rearranges operations (layout operations) where
  sameOperations := layout_perm unique sound
  membersFollow := by
    intro before marker behind split isGroup
    obtain ⟨members, rest, follow, listed, _⟩ :=
      (layout_arranged unique sound).members_follow split isGroup
    exact ⟨members, rest, follow, listed⟩
  orderKept := by
    rw [layout_eq_flatMap, List.filter_flatMap]
    have pieces : operations.flatMap (fun operation =>
        (piece operations operation).filter (leads operations)) =
          operations.flatMap fun operation => [operation].filter (leads operations) :=
      List.flatMap_congr fun operation member => filter_leads_piece unique sound member
    rw [pieces, ← List.filter_flatMap, List.flatMap_singleton']

/-- There is only one way to put the groups together and keep the order of everything else. -/
theorem Rearranges.eq_layout {result : List Operation} (rearranges : Rearranges operations result) :
    result = layout operations := by
  have perm := rearranges.sameOperations
  have sameClaims : ∀ id, id ∈ claimed result ↔ id ∈ claimed operations := fun id => by
    simp only [mem_claimed, perm.mem_iff]
  have arranged : Arranged result :=
    arranged_of_followed rearranges.membersFollow fun operation member isClaimed =>
      sound.isGroup_of_claimed (perm.mem_iff.mp member) ((sameClaims _).mp isClaimed)
  have stays : result.flatMap (piece operations) = result :=
    Arranged.flatMap_piece unique arranged perm.subset ((perm.map _).nodup_iff.mpr unique)
      fun _ _ isClaimed => (sameClaims _).mpr isClaimed
  calc result = (result.filter (leads operations)).flatMap (piece operations) := by
        rw [flatMap_piece_filter, stays]
    _ = (operations.filter (leads operations)).flatMap (piece operations) := by
        rw [rearranges.orderKept]
    _ = layout operations := by rw [flatMap_piece_filter, layout_eq_flatMap]

end Sound

end Grouping

/-- Arranging groups moves no more than it has to: members come right behind their markers, all else
keeps its order, and there is no second list like that. Arranging again changes nothing. -/
theorem arrangeGroups_minimal {operations arranged : List Operation}
    (unique : (ids operations).Nodup) (succeeded : arrangeGroups operations = .ok arranged) :
    Guarded.Agrees (Rotation.rotateGroups operations) (.ok arranged) ∧
      Grouping.Rearranges operations arranged ∧ arrangeGroups arranged = .ok arranged ∧
      ∀ other, Grouping.Rearranges operations other → other = arranged := by
  have rotated := Rotation.rotateGroups_agrees unique
  rw [succeeded] at rotated
  obtain ⟨isArranged, perm⟩ := arrangeGroups_ok unique succeeded
  simp only [arrangeGroups, seq_eq_ok_iff] at succeeded
  obtain ⟨checked, same⟩ := succeeded
  have sound := (Grouping.check_ok_iff operations).mp checked
  obtain rfl : Grouping.layout operations = arranged := by simpa [pure, Except.pure] using same
  exact ⟨rotated, Grouping.rearranges_layout unique sound,
    arrangeGroups_of_arranged isArranged ((perm.map _).nodup_iff.mpr unique),
    fun _ rearranges => rearranges.eq_layout unique sound⟩

def interleavedOperations : List Operation :=
  [Graph.relayMarker, { Graph.relayMarker with id := 11, inputs := [2, 1] }, Graph.relayCopy 1 1 2,
    Graph.relayCopy 3 2 3, Graph.relayCopy 5 0 5, Graph.relayCopy 2 0 1, Graph.relaySum]

theorem arrangeGroups_minimal_interleaved :
    ∃ arranged, arrangeGroups interleavedOperations = .ok arranged ∧
      ids arranged = [10, 4, 3, 11, 2, 1, 5] ∧
      Guarded.Agrees (Rotation.rotateGroups interleavedOperations) (.ok arranged) ∧
      Grouping.Rearranges interleavedOperations arranged ∧
      arrangeGroups arranged = .ok arranged ∧
      ∀ other, Grouping.Rearranges interleavedOperations other → other = arranged := by
  refine ⟨_, rfl, rfl, ?_⟩
  exact @arrangeGroups_minimal interleavedOperations _ (by decide) rfl

end TensorGraph
