import Mathlib.Data.List.Nodup
import TensorGraph.Graph.Grouping
import TensorGraph.Proofs.Results

/-!
The check on groups: it passes exactly if no operation is claimed twice, no marker is claimed, and
every member stands to the right of its marker.
-/

namespace TensorGraph

namespace Operation

def ids (operations : List Operation) : List OperationId :=
  operations.map fun operation => operation.id

@[simp] theorem ids_cons (operation : Operation) (rest : List Operation) :
    ids (operation :: rest) = operation.id :: ids rest := rfl

@[simp] theorem ids_append (left right : List Operation) :
    ids (left ++ right) = ids left ++ ids right := by
  simp [ids]

def memberIds (operation : Operation) : List OperationId := operation.members?.getD []

theorem memberIds_of_isGroup {operation : Operation} (isGroup : operation.isGroup = true) :
    operation.memberIds = operation.inputs := by
  simp [memberIds, members?, isGroup]

theorem memberIds_of_not_isGroup {operation : Operation} (plain : operation.isGroup = false) :
    operation.memberIds = [] := by
  simp [memberIds, members?, plain]

theorem isGroup_of_mem_memberIds {operation : Operation} {member : OperationId}
    (listed : member ∈ operation.memberIds) : operation.isGroup = true := by
  cases isGroup : operation.isGroup with
  | true => rfl
  | false => simp [memberIds_of_not_isGroup isGroup] at listed

theorem isGroup_of_isPinned {operation : Operation} (pinned : operation.isPinned = true) :
    operation.isGroup = true := by
  rw [isPinned, decide_eq_true_iff] at pinned
  rw [isGroup, pinned]
  rfl

theorem eq_of_id_eq {operations : List Operation} (unique : (ids operations).Nodup)
    {first second : Operation} (firstMember : first ∈ operations)
    (secondMember : second ∈ operations) (same : first.id = second.id) : first = second :=
  List.inj_on_of_nodup_map unique firstMember secondMember same

end Operation

open Operation (ids)

namespace Grouping

def Placed : List Operation → Prop
  | [] => True
  | operation :: rest => (∀ member ∈ operation.memberIds, member ∈ ids rest) ∧ Placed rest

structure Sound (operations : List Operation) : Prop where
  claimedOnce : (claimed operations).Nodup
  noMarker : ∀ member ∈ claimed operations, member ∉ markers operations
  placed : Placed operations

theorem claimed_cons (operation : Operation) (rest : List Operation) :
    claimed (operation :: rest) = operation.memberIds ++ claimed rest := rfl

theorem mem_markers {operations : List Operation} {id : OperationId} :
    id ∈ markers operations ↔
      ∃ operation ∈ operations, operation.isGroup = true ∧ operation.id = id := by
  simp [markers, and_assoc]

theorem mem_claimed {operations : List Operation} {member : OperationId} :
    member ∈ claimed operations ↔
      ∃ operation ∈ operations, member ∈ operation.memberIds := by
  simp [claimed, Operation.memberIds]

theorem checkMembers_ok_iff (markers : List OperationId) (group : OperationId)
    (right taken members : List OperationId) :
    checkMembers markers group right taken members = .ok () ↔
      members.Nodup ∧
        ∀ member ∈ members, member ∉ markers ∧ member ∉ taken ∧ member ∈ right := by
  induction members generalizing taken with
  | nil => simp [checkMembers]
  | cons member rest ih =>
      simp only [checkMembers]
      split
      · rename_i isMarker
        simp [isMarker]
      · rename_i noMarker
        split
        · rename_i isTaken
          simp [isTaken]
        · rename_i free
          split
          · rename_i standsRight
            rw [ih]
            simp only [List.nodup_cons, List.mem_cons, forall_eq_or_imp, not_or]
            constructor
            · rintro ⟨unique, others⟩
              exact ⟨⟨fun again => (others member again).2.1.1 rfl, unique⟩,
                ⟨noMarker, free, standsRight⟩,
                fun other listed => ⟨(others other listed).1, (others other listed).2.1.2,
                  (others other listed).2.2⟩⟩
            · rintro ⟨⟨notAgain, unique⟩, _, others⟩
              refine ⟨unique, fun other listed => ⟨(others other listed).1, ⟨?_,
                (others other listed).2.1⟩, (others other listed).2.2⟩⟩
              intro same
              subst same
              exact notAgain listed
          · rename_i missing
            simp [missing]

theorem checkFrom_ok_iff (markers taken : List OperationId) (operations : List Operation) :
    checkFrom markers taken operations = .ok () ↔
      (claimed operations).Nodup ∧
        (∀ member ∈ claimed operations, member ∉ markers ∧ member ∉ taken) ∧
        Placed operations := by
  induction operations generalizing taken with
  | nil => simp [checkFrom, claimed, Placed]
  | cons operation rest ih =>
      rw [claimed_cons, Placed]
      cases found : operation.members? with
      | none =>
          have noMembers : operation.memberIds = [] := by simp [Operation.memberIds, found]
          simp [checkFrom, found, ih, noMembers]
      | some members =>
          have memberIds : operation.memberIds = members := by simp [Operation.memberIds, found]
          have split : checkFrom markers taken (operation :: rest) = .ok () ↔
              checkMembers markers operation.id (ids rest) taken members = .ok () ∧
                checkFrom markers (members ++ taken) rest = .ok () := by
            simp only [checkFrom, found, seq_eq_ok_iff]
            rfl
          rw [split, ih, checkMembers_ok_iff, memberIds, List.nodup_append']
          simp only [List.mem_append, not_or]
          constructor
          · rintro ⟨⟨unique, first⟩, restUnique, restFree, restPlaced⟩
            refine ⟨⟨unique, restUnique, fun member here later => (restFree member later).2.1 here⟩,
              ?_, fun member listed => (first member listed).2.2, restPlaced⟩
            rintro member (here | later)
            · exact ⟨(first member here).1, (first member here).2.1⟩
            · exact ⟨(restFree member later).1, (restFree member later).2.2⟩
          · rintro ⟨⟨unique, restUnique, apart⟩, free, standRight, restPlaced⟩
            refine ⟨⟨unique, fun member here => ⟨(free member (Or.inl here)).1,
              (free member (Or.inl here)).2, standRight member here⟩⟩, restUnique,
              fun member later => ⟨(free member (Or.inr later)).1,
                fun here => apart here later, (free member (Or.inr later)).2⟩, restPlaced⟩

theorem check_ok_iff (operations : List Operation) :
    check operations = .ok () ↔ Sound operations := by
  rw [check, checkFrom_ok_iff]
  constructor
  · rintro ⟨once, free, placed⟩
    exact ⟨once, fun member listed => (free member listed).1, placed⟩
  · rintro ⟨once, free, placed⟩
    exact ⟨once, fun member listed => ⟨free member listed, by simp⟩, placed⟩

theorem mem_ids_of_placed {operations : List Operation} (placed : Placed operations)
    {member : OperationId} (listed : member ∈ claimed operations) : member ∈ ids operations := by
  induction operations with
  | nil => simp [claimed] at listed
  | cons operation rest ih =>
      rw [claimed_cons, List.mem_append] at listed
      rcases listed with here | later
      · exact List.mem_cons_of_mem _ (placed.1 member here)
      · exact List.mem_cons_of_mem _ (ih placed.2 later)

def named (operations : List Operation) (id : OperationId) : Option Operation :=
  operations.find? fun other => other.id = id

theorem named_eq_some_iff {operations : List Operation} (unique : (ids operations).Nodup)
    {id : OperationId} {operation : Operation} :
    named operations id = some operation ↔ operation ∈ operations ∧ operation.id = id := by
  constructor
  · intro found
    exact ⟨List.mem_of_find?_eq_some found, by simpa using List.find?_some found⟩
  · rintro ⟨member, same⟩
    cases found : named operations id with
    | none =>
        have absent := List.find?_eq_none.mp found operation member
        simp [same] at absent
    | some other =>
        have otherId : other.id = id := by simpa using List.find?_some found
        rw [Operation.eq_of_id_eq unique (List.mem_of_find?_eq_some found) member
          (otherId.trans same.symm)]

theorem exists_named {operations : List Operation} (unique : (ids operations).Nodup)
    {id : OperationId} (present : id ∈ ids operations) :
    ∃ operation, named operations id = some operation := by
  obtain ⟨operation, member, same⟩ := List.mem_map.mp present
  exact ⟨operation, (named_eq_some_iff unique).mpr ⟨member, same⟩⟩

theorem ids_filterMap_named {operations : List Operation} (unique : (ids operations).Nodup)
    {members : List OperationId} (present : ∀ member ∈ members, member ∈ ids operations) :
    ids (members.filterMap (named operations)) = members := by
  induction members with
  | nil => rfl
  | cons member rest ih =>
      obtain ⟨operation, found⟩ := exists_named unique (present member (by simp))
      have same := ((named_eq_some_iff unique).mp found).2
      rw [List.filterMap_cons_some found, ids, List.map_cons, same]
      exact congrArg _ (ih fun other listed => present other (List.mem_cons_of_mem _ listed))

end Grouping

end TensorGraph
