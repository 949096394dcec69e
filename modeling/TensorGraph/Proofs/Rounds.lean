import Mathlib.Logic.Function.Iterate
import TensorGraph.Proofs.Results

/-!
Repeating a step that only ever sets marks. As long as something changes, at least one more place is
marked in every round, so after as many rounds as there are places nothing changes any more.
-/

namespace TensorGraph

namespace Rounds

variable {α β : Type}

/-- Every place is kept, or was unmarked and is marked now. -/
def Grows (marked : β → Bool) (before after : List β) : Prop :=
  List.Forall₂ (fun old new => old = new ∨ (marked old = false ∧ marked new = true)) before after

theorem Grows.countP_le {marked : β → Bool} {before after : List β}
    (grows : Grows marked before after) : before.countP marked ≤ after.countP marked := by
  induction grows with
  | nil => exact Nat.le_refl _
  | cons place _ ih =>
      rcases place with same | ⟨unset, set⟩
      · subst same
        simp only [List.countP_cons]
        omega
      · simp only [List.countP_cons, unset, set, Bool.false_eq_true, if_false, if_true]
        omega

theorem Grows.countP_lt {marked : β → Bool} {before after : List β}
    (grows : Grows marked before after) (changed : after ≠ before) :
    before.countP marked < after.countP marked := by
  induction grows with
  | nil => exact absurd rfl changed
  | cons place rest ih =>
      rcases place with same | ⟨unset, set⟩
      · subst same
        have restChanged := ih fun equal => changed (by rw [equal])
        simp only [List.countP_cons]
        omega
      · have restBound := Grows.countP_le rest
        simp only [List.countP_cons, unset, set, Bool.false_eq_true, if_false, if_true]
        omega

theorem Grows.kept {marked : β → Bool} {before after : List β}
    (grows : Grows marked before after) {position : Nat} {value : β}
    (found : before[position]? = some value) (isMarked : marked value = true) :
    after[position]? = some value := by
  obtain ⟨later, laterFound, same | ⟨unset, _⟩⟩ := getElem?_of_forall₂ grows found
  · rwa [same]
  · rw [isMarked] at unset
    cases unset

theorem grows_map {marked : β → Bool} {unset : β}
    (onlyUnset : ∀ value, marked value = false → value = unset) {items : List α}
    {before after : α → β}
    (kept : ∀ item ∈ items, marked (before item) = true → after item = before item) :
    Grows marked (items.map before) (items.map after) := by
  rw [Grows, List.forall₂_map_left_iff, List.forall₂_map_right_iff, List.forall₂_same]
  intro item member
  cases isMarked : marked (before item) with
  | true => exact Or.inl (kept item member isMarked).symm
  | false =>
      cases markedLater : marked (after item) with
      | true => exact Or.inr ⟨rfl, rfl⟩
      | false => exact Or.inl ((onlyUnset _ isMarked).trans (onlyUnset _ markedLater).symm)

/-- A loop that stops when its step changes nothing computes the same as one that never stops. -/
theorem eq_iterate [DecidableEq β] (step : β → β) (loop : Nat → β → β)
    (zero : ∀ state, loop 0 state = state)
    (succ : ∀ rounds state,
      loop (rounds + 1) state = if step state = state then state else loop rounds (step state))
    (rounds : Nat) (state : β) : loop rounds state = step^[rounds] state := by
  induction rounds generalizing state with
  | zero => exact zero state
  | succ rounds ih =>
      rw [succ, Function.iterate_succ_apply]
      split
      · rename_i fixed
        rw [fixed, Function.iterate_fixed fixed]
      · exact ih (step state)

theorem iterate_fixed (step : List β → List β) (marked : β → Bool) (start : List β)
    (first : Grows marked start (step start))
    (monotone : ∀ {before after}, Grows marked before after →
      Grows marked (step before) (step after)) :
    step (step^[start.length] start) = step^[start.length] start := by
  by_contra moving
  have grows : ∀ rounds, Grows marked (step^[rounds] start) (step^[rounds + 1] start) := by
    intro rounds
    induction rounds with
    | zero => exact first
    | succ rounds ih =>
        rw [Function.iterate_succ_apply', Function.iterate_succ_apply' _ (rounds + 1)]
        exact monotone ih
  -- A round that changes nothing would stop all later ones, so every round up to the last changes.
  have changes : ∀ rounds ≤ start.length, step^[rounds + 1] start ≠ step^[rounds] start := by
    intro rounds bound still
    rw [Function.iterate_succ_apply'] at still
    have later : step^[start.length] start = step^[rounds] start := by
      obtain ⟨more, total⟩ := Nat.exists_eq_add_of_le bound
      rw [total, Nat.add_comm, Function.iterate_add_apply, Function.iterate_fixed still]
    rw [later] at moving
    exact moving still
  have marks : ∀ rounds ≤ start.length + 1, rounds ≤ (step^[rounds] start).countP marked := by
    intro rounds bound
    induction rounds with
    | zero => exact Nat.zero_le _
    | succ rounds ih =>
        have before := ih (by omega)
        have more := (grows rounds).countP_lt (changes rounds (by omega))
        omega
  have sizes : ∀ rounds, (step^[rounds] start).length = start.length := by
    intro rounds
    induction rounds with
    | zero => rfl
    | succ rounds ih => rw [← ih]; exact (grows rounds).length_eq.symm
  have enough := marks (start.length + 1) (Nat.le_refl _)
  have room := List.countP_le_length (p := marked) (l := step^[start.length + 1] start)
  rw [sizes] at room
  omega

end Rounds

end TensorGraph
