import TensorGraph.Graph.Build
import TensorGraph.Proofs.Arrangement

/-!
Slots of arranged operations: one for each operation, a header at every marker, a member slot that
points back to the marker at every member of its group, and free slots elsewhere.
-/

namespace TensorGraph

namespace Slot

/-- Slots of arranged operations of which the first stands at `position`. -/
inductive Fits : Nat → List Operation → List Nat → List Slot → Prop
  | nil (position : Nat) : Fits position [] [] []
  | free {position rank : Nat} {operation : Operation} {rest : List Operation} {ranks : List Nat}
      {slots : List Slot} :
      operation.isGroup = false → Fits (position + 1) rest ranks slots →
      Fits position (operation :: rest) (rank :: ranks) (.free rank :: slots)
  | group {position rank : Nat} {marker : Operation} {members rest : List Operation}
      {memberRanks ranks : List Nat} {slots : List Slot} :
      marker.isGroup = true → (∀ member ∈ members, member.isGroup = false) →
      members.length = marker.inputs.length → memberRanks.length = members.length →
      Fits (position + 1 + members.length) rest ranks slots →
      Fits position (marker :: (members ++ rest)) (rank :: (memberRanks ++ ranks))
        (.header marker.inputs.length marker.isPinned ::
          (List.replicate members.length (.member position marker.isPinned) ++ slots))

namespace Fits

variable {position : Nat} {operations : List Operation} {ranks : List Nat} {slots : List Slot}

theorem length_eq (fits : Fits position operations ranks slots) :
    slots.length = operations.length := by
  induction fits with
  | nil => rfl
  | free _ _ ih => simp [ih]
  | group _ _ _ _ _ ih => simp [ih]

theorem header (fits : Fits position operations ranks slots) {index : Nat} {marker : Operation}
    (found : operations[index]? = some marker) (isGroup : marker.isGroup = true) :
    slots[index]? = some (.header marker.inputs.length marker.isPinned) ∧
      ∀ offset < marker.inputs.length,
        slots[index + 1 + offset]? = some (.member (position + index) marker.isPinned) := by
  induction fits generalizing index with
  | nil => simp at found
  | free plain _ ih =>
      cases index with
      | zero =>
          simp only [List.getElem?_cons_zero, Option.some.injEq] at found
          rw [found, isGroup] at plain
          cases plain
      | succ index =>
          obtain ⟨here, behind⟩ := ih (by simpa using found)
          refine ⟨by simpa using here, ?_⟩
          intro offset bound
          have next := behind offset bound
          rw [show index + 1 + 1 + offset = index + 1 + offset + 1 by omega,
            List.getElem?_cons_succ, next]
          congr 2
          omega
  | @group _ _ head members rest _ _ _ _ plain sized _ _ ih =>
      cases index with
      | zero =>
          simp only [List.getElem?_cons_zero, Option.some.injEq] at found
          subst found
          refine ⟨rfl, ?_⟩
          intro offset bound
          rw [show 0 + 1 + offset = offset + 1 by omega, List.getElem?_cons_succ,
            List.getElem?_append_left (by simpa [sized] using bound)]
          simp [sized, bound]
      | succ index =>
          rw [List.getElem?_cons_succ] at found
          by_cases inside : index < members.length
          · rw [List.getElem?_append_left inside] at found
            have notGroup := plain marker (List.mem_of_getElem? found)
            rw [isGroup] at notGroup
            cases notGroup
          · rw [List.getElem?_append_right (by omega)] at found
            obtain ⟨here, behind⟩ := ih found
            refine ⟨?_, ?_⟩
            · rw [List.getElem?_cons_succ, List.getElem?_append_right (by simp; omega),
                List.length_replicate]
              exact here
            · intro offset bound
              have next := behind offset bound
              rw [show index + 1 + 1 + offset = index + 1 + offset + 1 by omega,
                List.getElem?_cons_succ, List.getElem?_append_right (by simp; omega),
                List.length_replicate,
                show index + 1 + offset - members.length = index - members.length + 1 + offset by
                  omega, next]
              congr 2
              omega

theorem plain (fits : Fits position operations ranks slots) {index : Nat} {operation : Operation}
    (found : operations[index]? = some operation) (notGroup : operation.isGroup = false) :
    (∃ rank, ranks[index]? = some rank ∧ slots[index]? = some (.free rank)) ∨
      ∃ header marker, operations[header]? = some marker ∧ marker.isGroup = true ∧
        header < index ∧ index ≤ header + marker.inputs.length ∧
        slots[index]? = some (.member (position + header) marker.isPinned) := by
  induction fits generalizing index with
  | nil => simp at found
  | free _ _ ih =>
      cases index with
      | zero => exact Or.inl ⟨_, rfl, rfl⟩
      | succ index =>
          rcases ih (by simpa using found) with free | inGroup
          · exact Or.inl (by simpa using free)
          · obtain ⟨header, marker, listed, isGroup, before, within, slot⟩ := inGroup
            refine Or.inr ⟨header + 1, marker, by simpa using listed, isGroup, by omega, by omega, ?_⟩
            rw [List.getElem?_cons_succ, slot]
            congr 2
            omega
  | @group _ _ head members rest memberRanks _ _ isHead _ sized ranksSized _ ih =>
      cases index with
      | zero =>
          simp only [List.getElem?_cons_zero, Option.some.injEq] at found
          rw [found, notGroup] at isHead
          cases isHead
      | succ index =>
          rw [List.getElem?_cons_succ] at found
          by_cases inside : index < members.length
          · refine Or.inr ⟨0, head, rfl, isHead, by omega, by omega, ?_⟩
            rw [List.getElem?_cons_succ, List.getElem?_append_left (by simpa using inside)]
            simp [inside]
          · rw [List.getElem?_append_right (by omega)] at found
            simp only [List.getElem?_cons_succ]
            rw [List.getElem?_append_right (by omega), ranksSized,
              List.getElem?_append_right (by simp; omega), List.length_replicate]
            rcases ih found with free | inGroup
            · exact Or.inl free
            · obtain ⟨header, marker, listed, isGroup, before, within, slot⟩ := inGroup
              refine Or.inr ⟨header + members.length + 1, marker, ?_, isGroup, by omega, by omega, ?_⟩
              · rw [List.getElem?_cons_succ, List.getElem?_append_right (by omega),
                  show header + members.length - members.length = header by omega]
                exact listed
              · rw [slot]
                congr 2
                omega

theorem member (fits : Fits position operations ranks slots) {index header : Nat} {pinned : Bool}
    (slot : slots[index]? = some (.member header pinned)) :
    ∃ offset marker, header = position + offset ∧ operations[offset]? = some marker ∧
      marker.isGroup = true ∧ offset < index ∧ index ≤ offset + marker.inputs.length := by
  have bound : index < operations.length := by
    rw [← fits.length_eq]
    exact (List.getElem?_eq_some_iff.mp slot).1
  have found := List.getElem?_eq_getElem bound
  -- A member slot is neither the slot of a marker nor that of a free operation.
  cases isGroup : operations[index].isGroup with
  | true =>
      have headerSlot := slot.symm.trans (fits.header found isGroup).1
      cases headerSlot
  | false =>
      rcases fits.plain found isGroup with ⟨rank, _, free⟩ | inGroup
      · have freeSlot := slot.symm.trans free
        cases freeSlot
      · obtain ⟨offset, marker, listed, isMarker, before, within, memberSlot⟩ := inGroup
        have same := slot.symm.trans memberSlot
        simp only [Option.some.injEq, Slot.member.injEq] at same
        exact ⟨offset, marker, same.1, listed, isMarker, before, within⟩

theorem rank_of_free (fits : Fits position operations ranks slots) {index rank : Nat}
    (slot : slots[index]? = some (.free rank)) : ranks[index]? = some rank := by
  have bound : index < operations.length := by
    rw [← fits.length_eq]
    exact (List.getElem?_eq_some_iff.mp slot).1
  have found := List.getElem?_eq_getElem bound
  cases isGroup : operations[index].isGroup with
  | true =>
      have headerSlot := slot.symm.trans (fits.header found isGroup).1
      cases headerSlot
  | false =>
      rcases fits.plain found isGroup with ⟨carried, ranked, free⟩ | inGroup
      · have sameSlot := slot.symm.trans free
        cases sameSlot
        exact ranked
      · obtain ⟨_, _, _, _, _, _, memberSlot⟩ := inGroup
        have sameSlot := slot.symm.trans memberSlot
        cases sameSlot

end Fits

end Slot

namespace Graph

theorem slotsFrom_members {members : List Operation} (position header : Nat) (pinned : Bool)
    (memberRanks : List Nat) (rest : List (Operation × Nat))
    (plain : ∀ member ∈ members, member.isGroup = false)
    (sized : memberRanks.length = members.length) :
    slotsFrom position header members.length pinned (members.zip memberRanks ++ rest) =
      List.replicate members.length (.member header pinned) ++
        slotsFrom (position + members.length) header 0 pinned rest := by
  induction members generalizing position memberRanks with
  | nil => simp
  | cons member members ih =>
      cases memberRanks with
      | nil => simp at sized
      | cons rank memberRanks =>
          have noMembers : member.members? = none := by
            simp [Operation.members?, plain member (by simp)]
          have next := ih (position + 1) memberRanks
            (fun other listed => plain other (List.mem_cons_of_mem _ listed)) (by simpa using sized)
          simp only [List.length_cons, List.zip_cons_cons, List.cons_append, slotsFrom, noMembers,
            next, List.replicate_succ]
          rw [show position + 1 + members.length = position + (members.length + 1) by omega]

theorem slotsFrom_fits {operations : List Operation} (arranged : Grouping.Arranged operations)
    (position header : Nat) (pinned : Bool) {ranks : List Nat}
    (sized : ranks.length = operations.length) :
    Slot.Fits position operations ranks
      (slotsFrom position header 0 pinned (operations.zip ranks)) := by
  induction arranged generalizing position header pinned ranks with
  | nil =>
      obtain rfl : ranks = [] := List.length_eq_zero_iff.mp sized
      exact .nil position
  | @free operation rest plain _ ih =>
      cases ranks with
      | nil => simp at sized
      | cons rank ranks =>
          have noMembers : operation.members? = none := by simp [Operation.members?, plain]
          simp only [List.zip_cons_cons, slotsFrom, noMembers]
          exact .free plain (ih _ _ _ (by simpa using sized))
  | @group marker members rest isGroup plain listed _ ih =>
      cases ranks with
      | nil => simp at sized
      | cons rank ranks =>
          have hasMembers : marker.members? = some marker.inputs := by
            simp [Operation.members?, isGroup]
          have counted : members.length = marker.inputs.length := by
            rw [← listed, Operation.ids, List.length_map]
          have total : ranks.length = members.length + rest.length := by simpa using sized
          have memberSized : (ranks.take members.length).length = members.length := by
            rw [List.length_take]; omega
          have split : (members ++ rest).zip ranks =
              members.zip (ranks.take members.length) ++ rest.zip (ranks.drop members.length) := by
            conv_lhs => rw [← List.take_append_drop members.length ranks]
            exact List.zip_append memberSized.symm
          have restSized : (ranks.drop members.length).length = rest.length := by
            rw [List.length_drop]; omega
          have fits : Slot.Fits position (marker :: (members ++ rest))
              (rank :: (ranks.take members.length ++ ranks.drop members.length)) _ :=
            .group isGroup plain counted memberSized
              (ih (position + 1 + members.length) position marker.isPinned restSized)
          rw [List.take_append_drop] at fits
          simp only [List.zip_cons_cons, slotsFrom, hasMembers, split]
          rw [← counted] at fits ⊢
          rw [slotsFrom_members _ _ _ _ _ plain memberSized]
          exact fits

end Graph

end TensorGraph
