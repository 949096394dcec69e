import TensorGraph.Proofs.Totals

/-!
Marks that are set one after the other while a graph is searched, and what the places without a mark
still owe to the search.
-/

namespace TensorGraph

theorem getElem?_mark_iff {marks : List Bool} {place : Nat} (bound : place < marks.length)
    (other : Nat) :
    (marks.set place true)[other]? = some true ↔ other = place ∨ marks[other]? = some true := by
  rw [List.getElem?_set, if_pos bound]
  by_cases same : place = other
  · simp [same]
  · simp [same, Ne.symm same]

theorem getElem?_unmarked {α : Type} (items : List α) (place : Nat) :
    (items.map fun _ => false)[place]? ≠ some true := by
  rw [List.getElem?_map]
  cases items[place]? with
  | none => simp
  | some item => simp

theorem getD_mark_iff {marks : List Bool} {place : Nat} :
    marks[place]?.getD false = true ↔ marks[place]? = some true := by
  cases marks[place]? with
  | none => simp
  | some mark => simp

theorem marks_ext {left right : List Bool} (count : left.length = right.length)
    (same : ∀ place : Nat, left[place]? = some true ↔ right[place]? = some true) :
    left = right := by
  refine List.ext_getElem count fun place leftBound rightBound => ?_
  have iff := same place
  rw [List.getElem?_eq_getElem leftBound, List.getElem?_eq_getElem rightBound, Option.some.injEq,
    Option.some.injEq] at iff
  exact Bool.eq_iff_iff.mpr iff

variable {α : Type} {weight : α → Nat} {items : List α} {marks : List Bool}

def unmarkedTotal (weight : α → Nat) (items : List α) (marks : List Bool) : Nat :=
  total ((items.zip marks).map fun entry => if entry.2 then 0 else weight entry.1)

theorem unmarkedTotal_mark {place : Nat} {item : α} (found : items[place]? = some item)
    (unmarked : marks[place]? = some false) :
    unmarkedTotal weight items (marks.set place true) + weight item =
      unmarkedTotal weight items marks := by
  induction items generalizing place marks with
  | nil => simp at found
  | cons first rest ih =>
      cases marks with
      | nil => simp at unmarked
      | cons mark marks =>
          cases place with
          | zero =>
              cases found
              cases unmarked
              simp [unmarkedTotal, Nat.add_comm]
          | succ place =>
              have others := ih found unmarked
              simp only [unmarkedTotal, List.set_cons_succ, List.zip_cons_cons, List.map_cons,
                total_cons] at others ⊢
              omega

theorem unmarkedTotal_start (weight : α → Nat) (items : List α) :
    unmarkedTotal weight items (items.map fun _ => false) = total (items.map weight) := by
  induction items with
  | nil => rfl
  | cons item rest ih =>
      simp only [unmarkedTotal, List.map_cons, List.zip_cons_cons, total_cons,
        Bool.false_eq_true, if_false] at ih ⊢
      rw [ih]

end TensorGraph
