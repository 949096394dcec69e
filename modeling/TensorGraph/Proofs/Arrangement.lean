import Mathlib.Data.List.Perm.Lattice
import Mathlib.Data.List.Perm.Subperm
import TensorGraph.Proofs.Grouping

/-!
Arranged operations. Where the check on groups succeeds, the arranged operations are those that were
given, every marker is followed by exactly its members, and operations that are arranged already stay
as they are.
-/

namespace TensorGraph

open Operation (ids)

namespace Grouping

def piece (operations : List Operation) (operation : Operation) : List Operation :=
  match operation.members? with
  | some members => operation :: members.filterMap (named operations)
  | none => if operation.id ∈ claimed operations then [] else [operation]

theorem layout_eq_flatMap (operations : List Operation) :
    layout operations = operations.flatMap (piece operations) := rfl

theorem piece_of_isGroup {operations : List Operation} {operation : Operation}
    (isGroup : operation.isGroup = true) :
    piece operations operation =
      operation :: operation.inputs.filterMap (named operations) := by
  simp [piece, Operation.members?, isGroup]

theorem piece_of_not_isGroup {operations : List Operation} {operation : Operation}
    (plain : operation.isGroup = false) :
    piece operations operation =
      if operation.id ∈ claimed operations then [] else [operation] := by
  simp [piece, Operation.members?, plain]

/-- Every marker is followed by exactly its members, which are no markers. -/
inductive Arranged : List Operation → Prop
  | nil : Arranged []
  | free {operation : Operation} {rest : List Operation} :
      operation.isGroup = false → Arranged rest → Arranged (operation :: rest)
  | group {marker : Operation} {members rest : List Operation} :
      marker.isGroup = true → (∀ member ∈ members, member.isGroup = false) →
      ids members = marker.inputs → Arranged rest → Arranged (marker :: (members ++ rest))

theorem layout_arranged {operations : List Operation} (unique : (ids operations).Nodup)
    (sound : Sound operations) : Arranged (layout operations) := by
  rw [layout_eq_flatMap]
  have parts : ∀ part : List Operation, part ⊆ operations →
      Arranged (part.flatMap (piece operations)) := by
    intro part inside
    induction part with
    | nil => exact .nil
    | cons operation rest ih =>
        have restArranged := ih fun _ member => inside (List.mem_cons_of_mem _ member)
        have member : operation ∈ operations := inside (by simp)
        rw [List.flatMap_cons]
        cases isGroup : operation.isGroup with
        | false =>
            rw [piece_of_not_isGroup isGroup]
            split
            · exact restArranged
            · exact .free isGroup restArranged
        | true =>
            have listed : ∀ id ∈ operation.inputs, id ∈ claimed operations := by
              intro id listed
              exact mem_claimed.mpr
                ⟨operation, member, by rwa [Operation.memberIds_of_isGroup isGroup]⟩
            rw [piece_of_isGroup isGroup]
            refine .group isGroup ?_ ?_ restArranged
            · intro found foundListed
              obtain ⟨id, idListed, lookup⟩ := List.mem_filterMap.mp foundListed
              obtain ⟨foundMember, same⟩ := (named_eq_some_iff unique).mp lookup
              cases foundGroup : found.isGroup with
              | false => rfl
              | true =>
                  exact absurd (mem_markers.mpr ⟨found, foundMember, foundGroup, same⟩)
                    (sound.noMarker id (listed id idListed))
            · exact ids_filterMap_named unique fun id idListed =>
                mem_ids_of_placed sound.placed (listed id idListed)
  exact parts operations (List.Subset.refl _)

theorem mem_layout_iff {operations : List Operation} (unique : (ids operations).Nodup)
    {operation : Operation} :
    operation ∈ layout operations ↔ operation ∈ operations := by
  rw [layout_eq_flatMap, List.mem_flatMap]
  constructor
  · rintro ⟨origin, originMember, placed⟩
    cases isGroup : origin.isGroup with
    | false =>
        rw [piece_of_not_isGroup isGroup] at placed
        split at placed
        · simp at placed
        · rwa [List.mem_singleton.mp placed]
    | true =>
        rw [piece_of_isGroup isGroup] at placed
        rcases List.mem_cons.mp placed with same | found
        · rwa [same]
        · obtain ⟨id, _, lookup⟩ := List.mem_filterMap.mp found
          exact ((named_eq_some_iff unique).mp lookup).1
  · intro member
    by_cases isClaimed : operation.id ∈ claimed operations
    · obtain ⟨marker, markerMember, listed⟩ := mem_claimed.mp isClaimed
      have isGroup := Operation.isGroup_of_mem_memberIds listed
      rw [Operation.memberIds_of_isGroup isGroup] at listed
      refine ⟨marker, markerMember, ?_⟩
      rw [piece_of_isGroup isGroup]
      exact List.mem_cons_of_mem _ (List.mem_filterMap.mpr
        ⟨operation.id, listed, (named_eq_some_iff unique).mpr ⟨member, rfl⟩⟩)
    · refine ⟨operation, member, ?_⟩
      cases isGroup : operation.isGroup with
      | false => simp [piece_of_not_isGroup isGroup, isClaimed]
      | true => simp [piece_of_isGroup isGroup]

theorem mem_ids_piece {operations : List Operation} (unique : (ids operations).Nodup)
    {operation : Operation} {id : OperationId} (present : id ∈ ids (piece operations operation)) :
    (id = operation.id ∧ (operation.isGroup = true ∨ id ∉ claimed operations)) ∨
      id ∈ operation.memberIds := by
  cases isGroup : operation.isGroup with
  | false =>
      rw [piece_of_not_isGroup isGroup] at present
      split at present
      · simp [ids] at present
      · rename_i free
        have same : id = operation.id := by simpa [ids] using present
        exact Or.inl ⟨same, Or.inr (same ▸ free)⟩
  | true =>
      rw [piece_of_isGroup isGroup] at present
      rcases List.mem_cons.mp present with same | found
      · exact Or.inl ⟨same, Or.inl rfl⟩
      · obtain ⟨other, otherFound, same⟩ := List.mem_map.mp found
        obtain ⟨member, listed, lookup⟩ := List.mem_filterMap.mp otherFound
        have memberId := ((named_eq_some_iff unique).mp lookup).2
        rw [Operation.memberIds_of_isGroup isGroup]
        exact Or.inr (by rwa [← same, memberId])

theorem Sound.marker_not_claimed {operations : List Operation} (sound : Sound operations)
    {marker : Operation} (member : marker ∈ operations) (isGroup : marker.isGroup = true) :
    marker.id ∉ claimed operations := fun isClaimed =>
  sound.noMarker _ isClaimed (mem_markers.mpr ⟨marker, member, isGroup, rfl⟩)

theorem nodup_ids_piece {operations : List Operation} (unique : (ids operations).Nodup)
    (sound : Sound operations) {operation : Operation} (member : operation ∈ operations) :
    (ids (piece operations operation)).Nodup := by
  cases isGroup : operation.isGroup with
  | false =>
      rw [piece_of_not_isGroup isGroup]
      split
      · simp [ids]
      · simp [ids]
  | true =>
      have memberIds := Operation.memberIds_of_isGroup isGroup
      have listed : ∀ id ∈ operation.inputs, id ∈ claimed operations := fun id here =>
        mem_claimed.mpr ⟨operation, member, by rwa [memberIds]⟩
      have membersUnique : operation.inputs.Nodup := by
        rw [← memberIds]
        exact (List.nodup_flatMap.mp sound.claimedOnce).1 operation member
      rw [piece_of_isGroup isGroup, Operation.ids_cons,
        ids_filterMap_named unique fun id here => mem_ids_of_placed sound.placed (listed id here)]
      refine List.nodup_cons.mpr ⟨fun here => ?_, membersUnique⟩
      exact sound.marker_not_claimed member isGroup (listed _ here)

theorem disjoint_ids_piece {operations : List Operation} (unique : (ids operations).Nodup)
    (sound : Sound operations) {first second : Operation} (firstMember : first ∈ operations)
    (secondMember : second ∈ operations) (different : first.id ≠ second.id)
    (membersDisjoint : List.Disjoint first.memberIds second.memberIds) :
    List.Disjoint (ids (piece operations first)) (ids (piece operations second)) := by
  intro id inFirst inSecond
  -- An id that two pieces share is that of a marker or of a free operation in one of them.
  rcases mem_ids_piece unique inFirst with ⟨same, notClaimed⟩ | listed
  · have idFree : id ∉ claimed operations := by
      rcases notClaimed with isGroup | free
      · rw [same]; exact sound.marker_not_claimed firstMember isGroup
      · exact free
    rcases mem_ids_piece unique inSecond with ⟨sameToo, _⟩ | listed
    · exact different (same.symm.trans sameToo)
    · exact idFree (mem_claimed.mpr ⟨second, secondMember, listed⟩)
  · have isClaimed := mem_claimed.mpr ⟨first, firstMember, listed⟩
    rcases mem_ids_piece unique inSecond with ⟨same, isGroup | free⟩ | listedToo
    · exact sound.marker_not_claimed secondMember isGroup (same ▸ isClaimed)
    · exact free isClaimed
    · exact membersDisjoint listed listedToo

theorem nodup_ids_layout {operations : List Operation} (unique : (ids operations).Nodup)
    (sound : Sound operations) : (ids (layout operations)).Nodup := by
  have apart : operations.Pairwise fun first second => first.id ≠ second.id :=
    List.pairwise_map.mp unique
  have membersApart := (List.nodup_flatMap.mp sound.claimedOnce).2
  rw [layout_eq_flatMap, ids, List.map_flatMap, List.nodup_flatMap]
  refine ⟨fun _ member => nodup_ids_piece unique sound member, ?_⟩
  refine (membersApart.and apart).imp_of_mem ?_
  rintro first second firstMember secondMember ⟨membersDisjoint, different⟩
  exact disjoint_ids_piece unique sound firstMember secondMember different membersDisjoint

theorem layout_perm {operations : List Operation} (unique : (ids operations).Nodup)
    (sound : Sound operations) : (layout operations).Perm operations :=
  (List.perm_ext_iff_of_nodup (nodup_ids_layout unique sound).of_map unique.of_map).mpr
    fun _ => mem_layout_iff unique

namespace Arranged

theorem append {left right : List Operation} (leftArranged : Arranged left)
    (rightArranged : Arranged right) : Arranged (left ++ right) := by
  induction leftArranged with
  | nil => exact rightArranged
  | free plain _ ih => exact .free plain ih
  | group isGroup plain listed _ ih =>
      rw [List.cons_append, List.append_assoc]
      exact .group isGroup plain listed ih

theorem claimed_of_plain {operations : List Operation}
    (plain : ∀ operation ∈ operations, operation.isGroup = false) : claimed operations = [] := by
  rw [List.eq_nil_iff_forall_not_mem]
  intro member listed
  obtain ⟨operation, present, here⟩ := mem_claimed.mp listed
  simp [Operation.memberIds_of_not_isGroup (plain operation present)] at here

theorem claimed_append (left right : List Operation) :
    claimed (left ++ right) = claimed left ++ claimed right := by
  simp [claimed]

theorem claimed_group {marker : Operation} {members rest : List Operation}
    (isGroup : marker.isGroup = true) (plain : ∀ member ∈ members, member.isGroup = false)
    (listed : ids members = marker.inputs) :
    claimed (marker :: (members ++ rest)) = ids members ++ claimed rest := by
  rw [claimed_cons, claimed_append, claimed_of_plain plain,
    Operation.memberIds_of_isGroup isGroup, listed, List.nil_append]

theorem claimed_sublist {operations : List Operation} (arranged : Arranged operations) :
    (claimed operations).Sublist (ids operations) := by
  induction arranged with
  | nil => exact List.Sublist.slnil
  | free plain _ ih =>
      rw [claimed_cons, Operation.memberIds_of_not_isGroup plain]
      exact ih.cons _
  | group isGroup plain listed _ ih =>
      rw [claimed_group isGroup plain listed, Operation.ids_cons, Operation.ids_append]
      exact ((List.Sublist.refl _).append ih).cons _

theorem placed {operations : List Operation} (arranged : Arranged operations) :
    Placed operations := by
  induction arranged with
  | nil => trivial
  | free plain _ ih =>
      exact ⟨by simp [Operation.memberIds_of_not_isGroup plain], ih⟩
  | @group marker members rest isGroup plain listed _ ih =>
      refine ⟨?_, ?_⟩
      · intro member here
        rw [Operation.memberIds_of_isGroup isGroup, ← listed] at here
        rw [Operation.ids_append]
        exact List.mem_append_left _ here
      · clear listed
        induction members with
        | nil => exact ih
        | cons member members membersIh =>
            refine ⟨by simp [Operation.memberIds_of_not_isGroup (plain member (by simp))], ?_⟩
            exact membersIh fun other present => plain other (List.mem_cons_of_mem _ present)

theorem isGroup_of_claimed {operations : List Operation} (arranged : Arranged operations)
    (unique : (ids operations).Nodup) {operation : Operation} (member : operation ∈ operations)
    (isClaimed : operation.id ∈ claimed operations) : operation.isGroup = false := by
  induction arranged with
  | nil => simp at member
  | free plain _ ih =>
      rw [claimed_cons, Operation.memberIds_of_not_isGroup plain, List.nil_append] at isClaimed
      rcases List.mem_cons.mp member with same | later
      · rw [same]; exact plain
      · exact ih (List.nodup_cons.mp unique).2 later isClaimed
  | @group marker members rest isGroup plain listed restArranged ih =>
      rw [claimed_group isGroup plain listed] at isClaimed
      have parts : (marker.id :: (ids members ++ ids rest)).Nodup := by
        simpa using unique
      obtain ⟨markerFree, membersUnique, restUnique, apart⟩ :=
        (List.nodup_cons.trans (and_congr_right' List.nodup_append')).mp parts
      rw [List.mem_cons, List.mem_append] at member
      rcases member with same | here | later
      · subst same
        refine absurd ?_ markerFree
        rw [List.mem_append] at isClaimed ⊢
        exact isClaimed.imp_right fun claimed => restArranged.claimed_sublist.subset claimed
      · exact plain operation here
      · have notHere : operation.id ∉ ids members := fun here =>
          apart here (List.mem_map.mpr ⟨operation, later, rfl⟩)
        exact ih restUnique later ((List.mem_append.mp isClaimed).resolve_left notHere)

theorem sound {operations : List Operation} (arranged : Arranged operations)
    (unique : (ids operations).Nodup) : Sound operations where
  claimedOnce := arranged.claimed_sublist.nodup unique
  noMarker := by
    intro member isClaimed isMarker
    obtain ⟨marker, present, isGroup, same⟩ := mem_markers.mp isMarker
    have plain := arranged.isGroup_of_claimed unique present (same ▸ isClaimed)
    rw [isGroup] at plain
    cases plain
  placed := arranged.placed

theorem filterMap_named {operations members : List Operation} (unique : (ids operations).Nodup)
    (inside : members ⊆ operations) : (ids members).filterMap (named operations) = members := by
  induction members with
  | nil => rfl
  | cons member rest ih =>
      have found := (named_eq_some_iff unique).mpr ⟨inside (by simp), (rfl : member.id = member.id)⟩
      rw [Operation.ids_cons, List.filterMap_cons_some found,
        ih fun _ present => inside (List.mem_cons_of_mem _ present)]

/-- Arranged operations stay in place. The induction runs over a tail of them in which, as in the
whole list, free operations are claimed by no group. -/
theorem flatMap_piece {operations part : List Operation} (unique : (ids operations).Nodup)
    (arranged : Arranged part) (inside : part ⊆ operations) (partUnique : (ids part).Nodup)
    (claims : ∀ operation ∈ part, operation.id ∈ claimed operations →
      operation.id ∈ claimed part) : part.flatMap (piece operations) = part := by
  induction arranged with
  | nil => rfl
  | @free operation rest plain restArranged ih =>
      obtain ⟨notLater, restUnique⟩ := List.nodup_cons.mp partUnique
      have claimedRest : claimed (operation :: rest) = claimed rest := by
        rw [claimed_cons, Operation.memberIds_of_not_isGroup plain, List.nil_append]
      rw [claimedRest] at claims
      have isFree : operation.id ∉ claimed operations := fun isClaimed =>
        notLater (restArranged.claimed_sublist.subset (claims operation (by simp) isClaimed))
      rw [List.flatMap_cons, piece_of_not_isGroup plain, if_neg isFree,
        ih (fun _ present => inside (List.mem_cons_of_mem _ present)) restUnique
          fun other present => claims other (List.mem_cons_of_mem _ present)]
      rfl
  | @group marker members rest isGroup plain listed restArranged ih =>
      rw [claimed_group isGroup plain listed] at claims
      rw [Operation.ids_cons, Operation.ids_append] at partUnique
      obtain ⟨membersUnique, restUnique, apart⟩ :=
        List.nodup_append'.mp (List.nodup_cons.mp partUnique).2
      have membersInside : members ⊆ operations := fun _ present =>
        inside (List.mem_cons_of_mem _ (List.mem_append_left _ present))
      have restInside : rest ⊆ operations := fun _ present =>
        inside (List.mem_cons_of_mem _ (List.mem_append_right _ present))
      have markerPiece : piece operations marker = marker :: members := by
        rw [piece_of_isGroup isGroup, ← listed, filterMap_named unique membersInside]
      have membersGone : members.flatMap (piece operations) = [] := by
        rw [List.flatMap_eq_nil_iff]
        intro member present
        have isClaimed : member.id ∈ claimed operations := by
          refine mem_claimed.mpr ⟨marker, inside (by simp), ?_⟩
          rw [Operation.memberIds_of_isGroup isGroup, ← listed]
          exact List.mem_map.mpr ⟨member, present, rfl⟩
        rw [piece_of_not_isGroup (plain member present), if_pos isClaimed]
      have restStays := ih restInside restUnique fun other present isClaimed => by
        have somewhere := claims other (by simp [present]) isClaimed
        exact (List.mem_append.mp somewhere).resolve_left fun here =>
          apart here (List.mem_map.mpr ⟨other, present, rfl⟩)
      rw [List.flatMap_cons, List.flatMap_append, markerPiece, membersGone, restStays]
      rfl

theorem layout_eq {operations : List Operation} (arranged : Arranged operations)
    (unique : (ids operations).Nodup) : layout operations = operations := by
  rw [layout_eq_flatMap]
  exact flatMap_piece unique arranged (List.Subset.refl _) unique fun _ _ isClaimed => isClaimed

theorem members_follow {operations : List Operation} (arranged : Arranged operations)
    {left right : List Operation} {marker : Operation}
    (listed : operations = left ++ marker :: right) (isGroup : marker.isGroup = true) :
    ∃ members rest, right = members ++ rest ∧ ids members = marker.inputs ∧
      ∀ member ∈ members, member.isGroup = false := by
  induction arranged generalizing left with
  | nil => simp at listed
  | @free operation rest plain _ ih =>
      cases left with
      | nil =>
          obtain ⟨same, _⟩ : operation = marker ∧ rest = right := by simpa using listed
          rw [same, isGroup] at plain
          cases plain
      | cons first left => exact ih (by simpa using (List.cons.inj listed).2)
  | @group header members rest _ plain headerListed _ ih =>
      cases left with
      | nil =>
          obtain ⟨same, followers⟩ : header = marker ∧ members ++ rest = right := by
            simpa using listed
          subst same
          exact ⟨members, rest, followers.symm, headerListed, plain⟩
      | cons first left =>
          have tails : members ++ rest = left ++ marker :: right := (List.cons.inj listed).2
          rcases List.append_eq_append_iff.mp tails with ⟨more, leftSplit, restSplit⟩ | split
          · exact ih restSplit
          · obtain ⟨more, membersSplit, restSplit⟩ := split
            cases more with
            | nil =>
                have here : rest = [] ++ marker :: right := by simpa using restSplit.symm
                exact ih here
            | cons next more =>
                obtain ⟨same, _⟩ : marker = next ∧ right = more ++ rest := by
                  simpa using restSplit
                have notGroup := plain next (by rw [membersSplit]; simp)
                rw [← same, isGroup] at notGroup
                cases notGroup

theorem of_plain {operations : List Operation}
    (plain : ∀ operation ∈ operations, operation.isGroup = false) : Arranged operations := by
  induction operations with
  | nil => exact .nil
  | cons operation rest ih =>
      obtain ⟨first, others⟩ := List.forall_mem_cons.mp plain
      exact .free first (ih others)

theorem claimed_subset {kept operations : List Operation} (selection : kept ⊆ operations) :
    claimed kept ⊆ claimed operations := by
  intro id isClaimed
  obtain ⟨marker, member, listed⟩ := mem_claimed.mp isClaimed
  exact mem_claimed.mpr ⟨marker, selection member, listed⟩

theorem claimed_sublist_subset {operations kept : List Operation} (arranged : Arranged operations)
    (selection : kept.Sublist operations) : claimed kept ⊆ ids operations := by
  intro id isClaimed
  exact arranged.claimed_sublist.subset (claimed_subset selection.subset isClaimed)

theorem eq_of_ids_subset {operations kept : List Operation} (unique : (ids operations).Nodup)
    (selection : kept.Sublist operations) (complete : ids operations ⊆ ids kept) :
    kept = operations := by
  refine selection.eq_of_length_le ?_
  have count := (List.subperm_of_subset unique complete).length_le
  rwa [ids, ids, List.length_map, List.length_map] at count

/-- What is kept of arranged operations is arranged, as long as a kept marker keeps its members. -/
theorem of_sublist {operations kept : List Operation} (arranged : Arranged operations)
    (unique : (ids operations).Nodup) (selection : kept.Sublist operations)
    (complete : claimed kept ⊆ ids kept) : Arranged kept := by
  induction arranged generalizing kept with
  | nil =>
      rw [List.sublist_nil.mp selection]
      exact .nil
  | @free operation rest plain restArranged ih =>
      obtain ⟨notLater, restUnique⟩ := List.nodup_cons.mp unique
      rcases List.sublist_cons_iff.mp selection with later | ⟨keptRest, same, restSelection⟩
      · exact ih restUnique later complete
      · subst same
        refine .free plain (ih restUnique restSelection fun id isClaimed => ?_)
        have somewhere := complete (by
          rw [claimed_cons]
          exact List.mem_append_right _ isClaimed)
        refine (List.mem_cons.mp somewhere).resolve_left fun here => notLater ?_
        rw [← here]
        exact restArranged.claimed_sublist_subset restSelection isClaimed
  | @group marker members rest isGroup plain listed restArranged ih =>
      rw [Operation.ids_cons, Operation.ids_append] at unique
      obtain ⟨markerFree, othersUnique⟩ := List.nodup_cons.mp unique
      obtain ⟨membersUnique, restUnique, apart⟩ := List.nodup_append'.mp othersUnique
      rcases List.sublist_cons_iff.mp selection with later | ⟨tail, same, tailSelection⟩
      · -- Without the marker the members that are kept are free.
        obtain ⟨keptMembers, keptRest, same, membersSelection, restSelection⟩ :=
          List.sublist_append_iff.mp later
        subst same
        refine (of_plain fun member present => plain member
          (membersSelection.subset present)).append (ih restUnique restSelection ?_)
        intro id isClaimed
        have somewhere := complete (by
          rw [claimed_append]
          exact List.mem_append_right _ isClaimed)
        rw [Operation.ids_append] at somewhere
        refine (List.mem_append.mp somewhere).resolve_left fun here => ?_
        exact apart ((membersSelection.map _).subset here)
          (restArranged.claimed_sublist_subset restSelection isClaimed)
      · -- With the marker all members are kept, and the rest claims none of them.
        subst same
        obtain ⟨keptMembers, keptRest, same, membersSelection, restSelection⟩ :=
          List.sublist_append_iff.mp tailSelection
        subst same
        rw [claimed_cons, claimed_append, Operation.memberIds_of_isGroup isGroup, ← listed,
          Operation.ids_cons, Operation.ids_append] at complete
        have allKept : ids members ⊆ ids keptMembers := by
          intro id isMember
          have somewhere := complete (List.mem_append_left _ isMember)
          rcases List.mem_cons.mp somewhere with same | others
          · exact absurd (List.mem_append_left _ (same ▸ isMember)) markerFree
          · refine (List.mem_append.mp others).resolve_right fun inKept => ?_
            exact apart isMember ((restSelection.map _).subset inKept)
        rw [eq_of_ids_subset membersUnique membersSelection allKept] at complete ⊢
        refine .group isGroup plain listed (ih restUnique restSelection ?_)
        intro id isClaimed
        have restClaims := restArranged.claimed_sublist_subset restSelection isClaimed
        have somewhere := complete
          (List.mem_append_right _ (List.mem_append_right _ isClaimed))
        rcases List.mem_cons.mp somewhere with same | others
        · exact absurd (List.mem_append_right _ (same ▸ restClaims)) markerFree
        · exact (List.mem_append.mp others).resolve_left fun here => apart here restClaims

end Arranged

end Grouping

open Grouping

theorem arrangeGroups_ok {operations arranged : List Operation} (unique : (ids operations).Nodup)
    (succeeded : arrangeGroups operations = .ok arranged) :
    Arranged arranged ∧ arranged.Perm operations := by
  simp only [arrangeGroups, seq_eq_ok_iff] at succeeded
  obtain ⟨checked, same⟩ := succeeded
  have sound := (check_ok_iff operations).mp checked
  obtain rfl : layout operations = arranged := by simpa [pure, Except.pure] using same
  exact ⟨layout_arranged unique sound, layout_perm unique sound⟩

theorem arrangeGroups_of_arranged {operations : List Operation} (arranged : Arranged operations)
    (unique : (ids operations).Nodup) : arrangeGroups operations = .ok operations := by
  have checked := (check_ok_iff operations).mpr (arranged.sound unique)
  simp only [arrangeGroups, seq_eq_ok_iff]
  exact ⟨checked, congrArg Except.ok (arranged.layout_eq unique)⟩

end TensorGraph
