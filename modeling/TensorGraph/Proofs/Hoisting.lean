import Mathlib.Data.List.Nodup
import TensorGraph.Proofs.Connections
import TensorGraph.Proofs.Grouping
import TensorGraph.Resolution.Arena

/-!
Markers moved in front of their groups. Every operation lands at a place among the old ones: a
marker at the earliest of its members, if that stands in front of it, and everything else where it
was. Who lands at an earlier place comes first, and at one place the markers come first.
-/

namespace TensorGraph

open Operation (ids)

namespace Hoisting

variable {operations : List Operation} {position place : Nat} {operation : Operation}

def landing (operations : List Operation) (position : Nat) (operation : Operation) : Nat :=
  (hoistTarget operations position operation).getD position

def moved (operations : List Operation) (place : Nat) : List Operation :=
  (operations.zipIdx.filter fun entry =>
    hoistTarget operations entry.2 entry.1 = some place).map fun entry => entry.1

/-- Operations that land at a place; `operation` stood there before. -/
def arrivals (operations : List Operation) (place : Nat) (operation : Operation) :
    List Operation :=
  moved operations place ++
    if (hoistTarget operations place operation).isSome then [] else [operation]

theorem hoistMarkers_eq (operations : List Operation) :
    hoistMarkers operations =
      operations.zipIdx.flatMap fun entry => arrivals operations entry.2 entry.1 := by
  have numbered : ∀ start, (operations.zipIdx start).zipIdx start =
      (operations.zipIdx start).map fun entry => (entry, entry.2) := by
    induction operations with
    | nil => intro start; rfl
    | cons operation rest ih =>
        intro start
        rw [List.zipIdx_cons, List.zipIdx_cons, List.map_cons, ih]
  rw [hoistMarkers, List.zipIdx_map, numbered 0, List.map_map, List.flatMap_map]
  refine List.flatMap_congr fun entry _ => ?_
  rw [arrivals, moved, List.filter_map, List.map_map]
  rfl

theorem lt_of_hoistTarget (moves : hoistTarget operations position operation = some place) :
    place < position ∧ operation.isGroup = true := by
  rw [hoistTarget] at moves
  split at moves
  · rename_i earliest found
    split at moves
    · rename_i before
      cases moves
      refine ⟨before, ?_⟩
      cases isGroup : operation.isGroup with
      | true => rfl
      | false => simp [Operation.members?, isGroup] at found
    · cases moves
  · cases moves

theorem hoistTarget_of_plain (plain : operation.isGroup = false) :
    hoistTarget operations position operation = none := by
  cases moves : hoistTarget operations position operation with
  | none => rfl
  | some place =>
      rw [(lt_of_hoistTarget moves).2] at plain
      cases plain

theorem landing_of_plain (plain : operation.isGroup = false) :
    landing operations position operation = position := by
  rw [landing, hoistTarget_of_plain plain, Option.getD_none]

/-- No marker lands behind one of its members. -/
theorem landing_le {memberPosition : Nat} {member : Operation}
    (found : operations[memberPosition]? = some member) (listed : member.id ∈ operation.memberIds) :
    landing operations position operation ≤ memberPosition := by
  obtain ⟨first, isFirst, before⟩ : ∃ first,
      (operations.findIdx? fun other => other.id = member.id) = some first ∧
        first ≤ memberPosition := by
    cases isFirst : operations.findIdx? fun other => other.id = member.id with
    | none =>
        have absent := List.findIdx?_eq_none_iff.mp isFirst member (List.mem_of_getElem? found)
        simp at absent
    | some first =>
        refine ⟨first, rfl, ?_⟩
        obtain ⟨_, _, notBefore⟩ := List.findIdx?_eq_some_iff_getElem.mp isFirst
        obtain ⟨bound, same⟩ := List.getElem?_eq_some_iff.mp found
        by_contra later
        have wrong := notBefore memberPosition (by omega)
        simp [same] at wrong
  have isPlace : first ∈ (operation.members?.getD []).filterMap fun member =>
      operations.findIdx? fun other => other.id = member :=
    List.mem_filterMap.mpr ⟨member.id, listed, isFirst⟩
  rw [landing, hoistTarget]
  split
  · rename_i earliest isEarliest
    have least := (List.min?_eq_some_iff.mp isEarliest).2 first isPlace
    split
    · rw [Option.getD_some]
      omega
    · rw [Option.getD_none]
      omega
  · rename_i none
    rw [List.min?_eq_none_iff.mp none] at isPlace
    cases isPlace

theorem landing_le_self : landing operations position operation ≤ position := by
  cases moves : hoistTarget operations position operation with
  | none => exact Nat.le_of_eq (by rw [landing, moves, Option.getD_none])
  | some place =>
      rw [landing, moves, Option.getD_some]
      exact Nat.le_of_lt (lt_of_hoistTarget moves).1

theorem mem_moved_iff : operation ∈ moved operations place ↔
    ∃ position : Nat, operations[position]? = some operation ∧
      hoistTarget operations position operation = some place := by
  simp only [moved, List.mem_map, List.mem_filter, decide_eq_true_iff]
  constructor
  · rintro ⟨⟨_, position⟩, ⟨listed, moves⟩, rfl⟩
    exact ⟨position, List.mk_mem_zipIdx_iff_getElem?.mp listed, moves⟩
  · rintro ⟨position, found, moves⟩
    exact ⟨(operation, position), ⟨List.mk_mem_zipIdx_iff_getElem?.mpr found, moves⟩, rfl⟩

theorem mem_arrivals_iff {there : Operation} (isThere : operations[place]? = some there) :
    operation ∈ arrivals operations place there ↔
      ∃ position : Nat, operations[position]? = some operation ∧
        landing operations position operation = place := by
  rw [arrivals, List.mem_append, mem_moved_iff]
  constructor
  · rintro (⟨position, found, moves⟩ | stays)
    · exact ⟨position, found, by rw [landing, moves, Option.getD_some]⟩
    · split at stays
      · cases stays
      · rename_i unmoved
        cases List.mem_singleton.mp stays
        refine ⟨place, isThere, ?_⟩
        rw [landing, Option.not_isSome_iff_eq_none.mp unmoved, Option.getD_none]
  · rintro ⟨position, found, lands⟩
    rw [landing] at lands
    cases moves : hoistTarget operations position operation with
    | some target =>
        rw [moves, Option.getD_some] at lands
        subst lands
        exact Or.inl ⟨position, found, moves⟩
    | none =>
        rw [moves, Option.getD_none] at lands
        subst lands
        rw [isThere] at found
        cases found
        exact Or.inr (by simp [moves])

theorem arrivals_of_plain (plain : ∀ other ∈ operations, other.isGroup = false)
    (listed : operation ∈ operations) : arrivals operations place operation = [operation] := by
  have noneMoved : moved operations place = [] := by
    rw [List.eq_nil_iff_forall_not_mem]
    intro marker isMoved
    obtain ⟨position, found, moves⟩ := mem_moved_iff.mp isMoved
    rw [hoistTarget_of_plain (plain marker (List.mem_of_getElem? found))] at moves
    cases moves
  rw [arrivals, noneMoved, hoistTarget_of_plain (plain operation listed)]
  rfl

theorem filter_arrivals (keep : Operation → Bool)
    (plain : ∀ other, keep other = true → other.isGroup = false) :
    (arrivals operations place operation).filter keep = [operation].filter keep := by
  have noneMoved : (moved operations place).filter keep = [] := by
    rw [List.filter_eq_nil_iff]
    intro marker listed kept
    obtain ⟨position, _, moves⟩ := mem_moved_iff.mp listed
    rw [hoistTarget_of_plain (plain marker kept)] at moves
    cases moves
  rw [arrivals, List.filter_append, noneMoved, List.nil_append]
  split
  · rename_i moves
    symm
    rw [List.filter_nil, List.filter_eq_nil_iff, List.forall_mem_singleton]
    intro kept
    rw [hoistTarget_of_plain (plain operation kept)] at moves
    cases moves
  · rfl

/-- An operation that is not repeated later, and is no member of what comes later. -/
def Precedes (earlier later : Operation) : Prop :=
  earlier ≠ later ∧ earlier.id ∉ later.memberIds

section Ordered

variable (unique : (ids operations).Nodup)
  (plainMembers : ∀ marker ∈ operations, ∀ member ∈ operations, member.id ∈ marker.memberIds →
    member.isGroup = false)

include unique

theorem position_eq {other : Nat} (found : operations[position]? = some operation)
    (foundToo : operations[other]? = some operation) : position = other :=
  (List.getElem?_inj (List.getElem?_eq_some_iff.mp found).1 unique.of_map).mp
    (found.trans foundToo.symm)

include plainMembers

theorem pairwise_arrivals {there : Operation} (isThere : operations[place]? = some there) :
    (arrivals operations place there).Pairwise Precedes := by
  have isMarker : ∀ marker ∈ moved operations place, marker ∈ operations ∧
      marker.isGroup = true := by
    intro marker listed
    obtain ⟨position, found, moves⟩ := mem_moved_iff.mp listed
    exact ⟨List.mem_of_getElem? found, (lt_of_hoistTarget moves).2⟩
  have noMember : ∀ marker ∈ moved operations place, ∀ later ∈ operations,
      marker.id ∉ later.memberIds := by
    intro marker listed later laterListed isMember
    obtain ⟨present, isGroup⟩ := isMarker marker listed
    rw [plainMembers later laterListed marker present isMember] at isGroup
    cases isGroup
  have distinct : (moved operations place).Nodup := by
    have selection : (moved operations place).Sublist operations := by
      have whole := (List.filter_sublist (p := fun entry =>
        hoistTarget operations entry.2 entry.1 = some place) (l := operations.zipIdx)).map Prod.fst
      rwa [List.zipIdx_map_fst] at whole
    exact unique.of_map.sublist selection
  rw [arrivals, List.pairwise_append]
  refine ⟨?_, ?_, fun marker listed last isLast => ?_⟩
  · refine List.Pairwise.imp_of_mem ?_ distinct
    exact fun listed laterListed different =>
      ⟨different, noMember _ listed _ (isMarker _ laterListed).1⟩
  · split
    · exact List.Pairwise.nil
    · exact List.pairwise_singleton _ _
  · split at isLast
    · cases isLast
    · rename_i unmoved
      cases List.mem_singleton.mp isLast
      refine ⟨?_, noMember marker listed there (List.mem_of_getElem? isThere)⟩
      rintro rfl
      obtain ⟨position, found, moves⟩ := mem_moved_iff.mp listed
      rw [position_eq unique found isThere] at moves
      rw [moves] at unmoved
      exact unmoved rfl

theorem pairwise_hoistMarkers : (hoistMarkers operations).Pairwise Precedes := by
  rw [hoistMarkers_eq, List.pairwise_flatMap]
  constructor
  · rintro ⟨there, place⟩ listed
    exact pairwise_arrivals unique plainMembers (List.mk_mem_zipIdx_iff_getElem?.mp listed)
  · refine List.Pairwise.imp_of_mem ?_ (Connections.pairwise_zipIdx operations 0)
    rintro ⟨first, place⟩ ⟨second, laterPlace⟩ listed laterListed before earlier here later there
    obtain ⟨position, found, lands⟩ :=
      (mem_arrivals_iff (List.mk_mem_zipIdx_iff_getElem?.mp listed)).mp here
    obtain ⟨laterPosition, laterFound, landsLater⟩ :=
      (mem_arrivals_iff (List.mk_mem_zipIdx_iff_getElem?.mp laterListed)).mp there
    dsimp only at before
    constructor
    · rintro rfl
      rw [position_eq unique found laterFound, landsLater] at lands
      omega
    · -- A member stays where it was, and its marker does not land behind it.
      intro isMember
      have plain := plainMembers later (List.mem_of_getElem? laterFound) earlier
        (List.mem_of_getElem? found) isMember
      rw [landing_of_plain plain] at lands
      have notBehind : landing operations laterPosition later ≤ position :=
        landing_le found isMember
      omega

theorem hoistMarkers_perm : (hoistMarkers operations).Perm operations := by
  have distinct : (hoistMarkers operations).Nodup :=
    (pairwise_hoistMarkers unique plainMembers).imp And.left
  refine (List.perm_ext_iff_of_nodup distinct unique.of_map).mpr fun operation => ?_
  rw [hoistMarkers_eq, List.mem_flatMap]
  constructor
  · rintro ⟨⟨there, place⟩, listed, arrives⟩
    obtain ⟨position, found, _⟩ :=
      (mem_arrivals_iff (List.mk_mem_zipIdx_iff_getElem?.mp listed)).mp arrives
    exact List.mem_of_getElem? found
  · intro listed
    obtain ⟨position, found⟩ := List.mem_iff_getElem?.mp listed
    have bound : landing operations position operation < operations.length :=
      Nat.lt_of_le_of_lt landing_le_self (List.getElem?_eq_some_iff.mp found).1
    have isThere := List.getElem?_eq_getElem bound
    exact ⟨(_, _), List.mk_mem_zipIdx_iff_getElem?.mpr isThere,
      (mem_arrivals_iff isThere).mpr ⟨position, found, rfl⟩⟩

end Ordered

end Hoisting

theorem hoistMarkers_of_plain {operations : List Operation}
    (plain : ∀ operation ∈ operations, operation.isGroup = false) :
    hoistMarkers operations = operations := by
  calc hoistMarkers operations
    _ = operations.zipIdx.flatMap fun entry => Hoisting.arrivals operations entry.2 entry.1 :=
      Hoisting.hoistMarkers_eq operations
    _ = operations.zipIdx.flatMap fun entry => [entry.1] :=
      List.flatMap_congr fun _ listed =>
        Hoisting.arrivals_of_plain plain (List.fst_mem_of_mem_zipIdx listed)
    _ = operations.zipIdx.map Prod.fst := List.map_eq_flatMap.symm
    _ = operations := List.zipIdx_map_fst 0 operations

theorem filter_hoistMarkers (operations : List Operation) :
    (hoistMarkers operations).filter (fun operation => !operation.isGroup) =
      operations.filter fun operation => !operation.isGroup := by
  have alone : operations.zipIdx.flatMap (fun entry => [entry.1]) = operations := by
    rw [← List.map_eq_flatMap]
    exact List.zipIdx_map_fst 0 operations
  conv_rhs => rw [← alone]
  rw [Hoisting.hoistMarkers_eq, List.filter_flatMap, List.filter_flatMap]
  refine List.flatMap_congr fun entry _ => Hoisting.filter_arrivals _ fun other kept => ?_
  simpa using kept

namespace Grouping

theorem placed_of_pairwise {operations : List Operation}
    (ordered : operations.Pairwise fun earlier later => earlier.id ∉ later.memberIds)
    (present : ∀ marker ∈ operations, ∀ member ∈ marker.memberIds,
      member ∈ ids operations ∧ member ≠ marker.id) : Placed operations := by
  induction operations with
  | nil => trivial
  | cons first rest ih =>
      obtain ⟨notBefore, restOrdered⟩ := List.pairwise_cons.mp ordered
      obtain ⟨here, later⟩ := List.forall_mem_cons.mp present
      have behind : ∀ {member}, member ∈ ids (first :: rest) → member ≠ first.id →
          member ∈ ids rest := by
        intro member listed different
        rw [Operation.ids_cons, List.mem_cons] at listed
        exact listed.resolve_left different
      refine ⟨fun member listed => ?_, ih restOrdered fun marker kept member listed => ?_⟩
      · exact behind (here member listed).1 (here member listed).2
      · obtain ⟨known, different⟩ := later marker kept member listed
        refine ⟨behind known ?_, different⟩
        rintro rfl
        exact notBefore marker kept listed

theorem plain_of_members {operations : List Operation} (unique : (ids operations).Nodup)
    (members : ∀ marker ∈ operations, ∀ id ∈ marker.memberIds,
      ∃ member ∈ operations, member.isGroup = false ∧ member.id = id) :
    ∀ marker ∈ operations, ∀ member ∈ operations, member.id ∈ marker.memberIds →
      member.isGroup = false := by
  intro marker markerListed member listed isMember
  obtain ⟨other, otherListed, plain, same⟩ := members marker markerListed _ isMember
  rwa [← Operation.eq_of_id_eq unique otherListed listed same]

/-- Whatever order the operations had, all markers are in front of their members afterwards. -/
theorem placed_hoistMarkers {operations : List Operation} (unique : (ids operations).Nodup)
    (members : ∀ marker ∈ operations, ∀ id ∈ marker.memberIds,
      ∃ member ∈ operations, member.isGroup = false ∧ member.id = id) :
    Placed (hoistMarkers operations) := by
  have plainMembers := plain_of_members unique members
  have rearranged := Hoisting.hoistMarkers_perm unique plainMembers
  refine placed_of_pairwise
    ((Hoisting.pairwise_hoistMarkers unique plainMembers).imp And.right) ?_
  intro marker hoisted id isMember
  have listed := rearranged.mem_iff.mp hoisted
  obtain ⟨member, memberListed, plain, rfl⟩ := members marker listed id isMember
  refine ⟨List.mem_map_of_mem (rearranged.mem_iff.mpr memberListed), fun same => ?_⟩
  rw [Operation.eq_of_id_eq unique memberListed listed same,
    Operation.isGroup_of_mem_memberIds isMember] at plain
  cases plain

end Grouping

end TensorGraph
