import Mathlib.Algebra.Order.BigOperators.Group.List
import Mathlib.Algebra.Order.Group.Nat
import TensorGraph.Limits

/-! Totals, and sums that stop at the largest machine word: it makes no difference whether each step
stops there or all is added up first. -/

namespace TensorGraph

@[simp] theorem total_cons (number : Nat) (rest : List Nat) :
    total (number :: rest) = number + total rest := rfl

theorem total_append (left right : List Nat) : total (left ++ right) = total left + total right :=
  List.sum_append_nat

theorem total_map_add {α : Type} (items : List α) (left right : α → Nat) :
    total (items.map fun item => left item + right item) =
      total (items.map left) + total (items.map right) :=
  List.sum_map_add

theorem le_total_of_mem {numbers : List Nat} {number : Nat} (listed : number ∈ numbers) :
    number ≤ total numbers :=
  List.le_sum_of_mem listed

theorem min_total_min (limit : Nat) (numbers : List Nat) :
    min (total (numbers.map fun number => min number limit)) limit = min (total numbers) limit := by
  induction numbers with
  | nil => rfl
  | cons number rest ih =>
      simp only [List.map_cons, total_cons]
      omega

theorem foldl_saturatingAdd {start : Nat} (bounded : start ≤ Limit.word) (numbers : List Nat) :
    numbers.foldl saturatingAdd start = min (start + total numbers) Limit.word := by
  induction numbers generalizing start with
  | nil => simp [total, bounded]
  | cons number rest ih =>
      have next : saturatingAdd start number ≤ Limit.word := Nat.min_le_right _ _
      rw [List.foldl_cons, ih next, total_cons, saturatingAdd]
      omega

end TensorGraph
