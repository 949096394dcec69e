import TensorGraph.StableSort

/-!
A stable sort keeps exactly the items it is given and puts their keys in order. Items whose keys are
in order stay as they are, and nothing but the keys matters.
-/

namespace TensorGraph

namespace StableSort

variable {α : Type} (key : α → Nat × Nat)

theorem insert_perm (item : α) (items : List α) :
    (insert key item items).Perm (item :: items) := by
  induction items with
  | nil => exact List.Perm.refl _
  | cons first rest ih =>
      rw [insert]
      split
      · exact List.Perm.refl _
      · exact (ih.cons first).trans (List.Perm.swap item first rest)

theorem sort_perm (items : List α) : (sort key items).Perm items := by
  induction items with
  | nil => exact List.Perm.refl _
  | cons item rest ih => exact (insert_perm key item (sort key rest)).trans (ih.cons item)

theorem notAfter_iff {left right : Nat × Nat} :
    notAfter left right = true ↔ left.1 < right.1 ∨ (left.1 = right.1 ∧ left.2 ≤ right.2) := by
  simp [notAfter]

theorem notAfter_trans {first second third : Nat × Nat} (before : notAfter first second = true)
    (behind : notAfter second third = true) : notAfter first third = true := by
  rw [notAfter_iff] at *
  omega

theorem notAfter_total {left right : Nat × Nat} (after : ¬notAfter left right = true) :
    notAfter right left = true := by
  rw [notAfter_iff] at *
  omega

theorem insert_sorted {item : α} {items : List α}
    (sorted : items.Pairwise fun left right => notAfter (key left) (key right) = true) :
    (insert key item items).Pairwise fun left right => notAfter (key left) (key right) = true := by
  induction items with
  | nil => simp [insert]
  | cons first rest ih =>
      obtain ⟨firstBefore, restSorted⟩ := List.pairwise_cons.mp sorted
      rw [insert]
      split
      · rename_i before
        refine List.pairwise_cons.mpr ⟨?_, sorted⟩
        intro other member
        rcases List.mem_cons.mp member with same | later
        · rw [same]; exact before
        · exact notAfter_trans before (firstBefore other later)
      · rename_i after
        refine List.pairwise_cons.mpr ⟨?_, ih restSorted⟩
        intro other member
        rcases List.mem_cons.mp ((insert_perm key item rest).mem_iff.mp member) with same | later
        · rw [same]; exact notAfter_total after
        · exact firstBefore other later

theorem sort_sorted (items : List α) :
    (sort key items).Pairwise fun left right => notAfter (key left) (key right) = true := by
  induction items with
  | nil => exact List.Pairwise.nil
  | cons item rest ih => exact insert_sorted key ih

theorem notAfter_of_lt {items : List α} {first second : Nat} {left right : α}
    (before : first < second) (leftFound : (sort key items)[first]? = some left)
    (rightFound : (sort key items)[second]? = some right) :
    notAfter (key left) (key right) = true := by
  obtain ⟨leftBound, leftHere⟩ := List.getElem?_eq_some_iff.mp leftFound
  obtain ⟨rightBound, rightHere⟩ := List.getElem?_eq_some_iff.mp rightFound
  rw [← leftHere, ← rightHere]
  exact List.pairwise_iff_getElem.mp (sort_sorted key items) _ _ leftBound rightBound before

theorem sort_of_sorted {items : List α}
    (sorted : items.Pairwise fun left right => notAfter (key left) (key right) = true) :
    sort key items = items := by
  induction items with
  | nil => rfl
  | cons item rest ih =>
      obtain ⟨before, restSorted⟩ := List.pairwise_cons.mp sorted
      change insert key item (sort key rest) = item :: rest
      rw [ih restSorted]
      cases rest with
      | nil => rfl
      | cons next rest => simp [insert, before next]

theorem insert_map {β : Type} (image : α → β) (key : β → Nat × Nat) (item : α) (items : List α) :
    insert key (image item) (items.map image) =
      (insert (fun item => key (image item)) item items).map image := by
  induction items with
  | nil => rfl
  | cons first rest ih =>
      rw [List.map_cons, insert, insert]
      by_cases before : notAfter (key (image item)) (key (image first)) = true
      · simp [before]
      · simp [before, ih]

theorem sort_map {β : Type} (image : α → β) (key : β → Nat × Nat) (items : List α) :
    sort key (items.map image) = (sort (fun item => key (image item)) items).map image := by
  induction items with
  | nil => rfl
  | cons item rest ih =>
      change insert key (image item) (sort key (rest.map image)) = _
      rw [ih, insert_map]
      rfl

theorem filter_insert_of_dropped (keep : α → Bool) {item : α} (dropped : keep item = false)
    (items : List α) : (insert key item items).filter keep = items.filter keep := by
  induction items with
  | nil => simp [insert, dropped]
  | cons first rest ih =>
      rw [insert]
      split
      · rw [List.filter_cons, dropped]
        rfl
      · rw [List.filter_cons, List.filter_cons, ih]

theorem insert_of_before {item : α} {items : List α}
    (before : ∀ other ∈ items, notAfter (key item) (key other) = true) :
    insert key item items = item :: items := by
  cases items with
  | nil => rfl
  | cons first rest => rw [insert, if_pos (before first (by simp))]

theorem filter_insert_of_kept (keep : α → Bool) {item : α} (kept : keep item = true)
    {items : List α}
    (sorted : items.Pairwise fun left right => notAfter (key left) (key right) = true) :
    (insert key item items).filter keep = insert key item (items.filter keep) := by
  induction items with
  | nil => simp [insert, kept]
  | cons first rest ih =>
      obtain ⟨firstBefore, restSorted⟩ := List.pairwise_cons.mp sorted
      rw [insert]
      split
      · -- The item goes to the front, also of what is left of the others.
        rename_i before
        have all : ∀ other ∈ (first :: rest).filter keep,
            notAfter (key item) (key other) = true := by
          intro other listed
          rcases List.mem_cons.mp (List.mem_filter.mp listed).1 with same | later
          · rw [same]
            exact before
          · exact notAfter_trans before (firstBefore other later)
        rw [insert_of_before key all, List.filter_cons_of_pos kept]
      · rename_i after
        by_cases isKept : keep first = true
        · rw [List.filter_cons_of_pos isKept, List.filter_cons_of_pos isKept, insert, if_neg after,
            ih restSorted]
        · rw [List.filter_cons_of_neg isKept, List.filter_cons_of_neg isKept, ih restSorted]

/-- Some of the items are sorted among themselves as they are among all. -/
theorem sort_filter (keep : α → Bool) (items : List α) :
    sort key (items.filter keep) = (sort key items).filter keep := by
  induction items with
  | nil => rfl
  | cons item rest ih =>
      change _ = (insert key item (sort key rest)).filter keep
      cases kept : keep item with
      | true =>
          rw [filter_insert_of_kept key keep kept (sort_sorted key rest), ← ih,
            List.filter_cons_of_pos kept]
          rfl
      | false =>
          rw [filter_insert_of_dropped key keep kept, ← ih,
            List.filter_cons_of_neg (by simp [kept])]

end StableSort

end TensorGraph
