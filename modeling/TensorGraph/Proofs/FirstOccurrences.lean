import Mathlib.Data.List.Dedup
import Mathlib.Data.List.Induction
import Mathlib.Data.List.Nodup

/-!
First occurrences: the items of a list of which no earlier one has the same key. An item that is
added at the end joins them if its key is new, and changes nothing otherwise.
-/

namespace TensorGraph

variable {α β : Type} [DecidableEq β]

def firstsBy (key : α → β) (items : List α) : List α :=
  items.eraseDupsBy fun later earlier => key later = key earlier

variable {key : α → β}

theorem firstsBy_cons (item : α) (rest : List α) :
    firstsBy key (item :: rest) =
      item :: firstsBy key (rest.filter fun later => key later ≠ key item) := by
  simp [firstsBy, List.eraseDupsBy_cons]

theorem firstsBy_append_singleton (items : List α) (last : α) :
    firstsBy key (items ++ [last]) =
      if key last ∈ items.map key then firstsBy key items else firstsBy key items ++ [last] := by
  match items with
  | [] => rfl
  | item :: rest =>
      rw [List.cons_append, firstsBy_cons, firstsBy_cons, List.filter_append]
      by_cases same : key last = key item
      · simp [same]
      · have kept : ([last].filter fun later => key later ≠ key item) = [last] := by simp [same]
        have unchanged : key last ∈ (rest.filter fun later => key later ≠ key item).map key ↔
            key last ∈ (item :: rest).map key := by
          simp only [List.mem_map, List.mem_filter, decide_eq_true_eq, List.mem_cons,
            exists_eq_or_imp, Ne.symm same, false_or]
          exact exists_congr fun other => ⟨fun ⟨⟨listed, _⟩, alike⟩ => ⟨listed, alike⟩,
            fun ⟨listed, alike⟩ => ⟨⟨listed, alike ▸ same⟩, alike⟩⟩
        rw [kept, firstsBy_append_singleton (rest.filter fun later => key later ≠ key item) last]
        simp only [unchanged]
        split
        · rfl
        · rfl
termination_by items.length
decreasing_by exact Nat.lt_succ_of_le (List.length_filter_le _ rest)

theorem firstsBy_isPrefix (items more : List α) :
    firstsBy key items <+: firstsBy key (items ++ more) := by
  induction more using List.reverseRecOn with
  | nil => exact (List.append_nil items).symm ▸ List.prefix_rfl
  | append_singleton more last ih =>
      rw [← List.append_assoc, firstsBy_append_singleton]
      split
      · exact ih
      · exact ih.trans (List.prefix_append _ _)

theorem firstsBy_sublist (items : List α) : (firstsBy key items).Sublist items := by
  induction items using List.reverseRecOn with
  | nil => exact List.Sublist.slnil
  | append_singleton items last ih =>
      rw [firstsBy_append_singleton]
      split
      · exact ih.trans (List.sublist_append_left items [last])
      · exact ih.append (List.Sublist.refl _)

theorem find?_firstsBy (wanted : β) (items : List α) :
    (firstsBy key items).find? (fun item => key item = wanted) =
      items.find? fun item => key item = wanted := by
  induction items using List.reverseRecOn with
  | nil => rfl
  | append_singleton items last ih =>
      rw [firstsBy_append_singleton, List.find?_append, ← ih]
      split
      · rename_i known
        obtain ⟨earlier, listed, alike⟩ := List.mem_map.mp known
        by_cases isWanted : key last = wanted
        · have found : ((firstsBy key items).find? fun item => key item = wanted).isSome := by
            rw [ih, List.find?_isSome]
            exact ⟨earlier, listed, by simp [alike, isWanted]⟩
          rw [Option.or_of_isSome found]
        · simp [isWanted]
      · rw [List.find?_append]

theorem mem_map_firstsBy (key : α → β) {items : List α} {wanted : β} :
    wanted ∈ (firstsBy key items).map key ↔ wanted ∈ items.map key := by
  have found : ∀ list : List α,
      wanted ∈ list.map key ↔ (list.find? fun item => key item = wanted).isSome := by
    simp [List.find?_isSome]
  rw [found, found, find?_firstsBy]

theorem map_firstsBy_nodup (items : List α) : ((firstsBy key items).map key).Nodup := by
  induction items using List.reverseRecOn with
  | nil => exact List.nodup_nil
  | append_singleton items last ih =>
      rw [firstsBy_append_singleton]
      split
      · exact ih
      · rename_i new
        rw [← mem_map_firstsBy] at new
        rw [List.map_append, List.map_singleton]
        exact List.nodup_append_comm.mp (List.nodup_cons.mpr ⟨new, ih⟩)

theorem length_firstsBy (items : List α) :
    (firstsBy key items).length = (items.map key).dedup.length := by
  have sameMembers : ((firstsBy key items).map key).Perm (items.map key).dedup := by
    refine (List.perm_ext_iff_of_nodup (map_firstsBy_nodup items) (List.nodup_dedup _)).mpr ?_
    intro wanted
    rw [mem_map_firstsBy, List.mem_dedup]
  rw [← List.length_map (f := key), sameMembers.length_eq]

theorem firstsBy_of_nodup {items : List α} (distinct : (items.map key).Nodup) :
    firstsBy key items = items := by
  induction items using List.reverseRecOn with
  | nil => rfl
  | append_singleton items last ih =>
      rw [List.map_append, List.map_singleton] at distinct
      obtain ⟨new, others⟩ : key last ∉ items.map key ∧ (items.map key).Nodup :=
        List.nodup_cons.mp (List.nodup_append_comm.mp distinct)
      rw [firstsBy_append_singleton, if_neg new, ih others]

theorem find?_of_mem_firstsBy {items : List α} {item : α} (member : item ∈ firstsBy key items) :
    (items.find? fun other => key other = key item) = some item := by
  rw [← find?_firstsBy]
  cases found : (firstsBy key items).find? fun other => key other = key item with
  | none => simpa using List.find?_eq_none.mp found item member
  | some other =>
      have alike : key other = key item := by simpa using List.find?_some found
      rw [List.inj_on_of_nodup_map (map_firstsBy_nodup items) (List.mem_of_find?_eq_some found)
        member alike]

end TensorGraph
