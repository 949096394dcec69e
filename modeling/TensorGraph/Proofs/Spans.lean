import TensorGraph.Memory.Split

/-! Reading and writing spans of a pool. What is written to a span is read from it again, and from
spans apart from it nothing changes. -/

namespace TensorGraph

namespace Span

variable {α : Type}

def Apart (left right : Span) : Prop := left.stop ≤ right.start ∨ right.stop ≤ left.start

theorem Apart.symm {left right : Span} (apart : left.Apart right) : right.Apart left :=
  Or.symm apart

def Within (span : Span) (length : Nat) : Prop :=
  span.start ≤ span.stop ∧ span.stop ≤ length

theorem length_view {span : Span} {pool : List α} (within : span.Within pool.length) :
    (span.view pool).length = span.length := by
  obtain ⟨_, inside⟩ := within
  rw [view, List.length_take, List.length_drop, length]
  omega

theorem length_patch {span : Span} {items pool : List α} (within : span.Within pool.length)
    (fitting : items.length = span.length) : (span.patch items pool).length = pool.length := by
  obtain ⟨forward, inside⟩ := within
  rw [length] at fitting
  rw [patch, List.length_append, List.length_append, List.length_take, List.length_drop]
  omega

theorem getElem?_view {span : Span} {pool : List α} (position : Nat) :
    (span.view pool)[position]? =
      if position < span.length then pool[span.start + position]? else none := by
  rw [view, List.getElem?_take, List.getElem?_drop]

theorem getElem?_patch {span : Span} {items pool : List α} (within : span.Within pool.length)
    (fitting : items.length = span.length) (position : Nat) :
    (span.patch items pool)[position]? =
      if span.start ≤ position ∧ position < span.stop then items[position - span.start]?
      else pool[position]? := by
  obtain ⟨forward, inside⟩ := within
  rw [length] at fitting
  have startLength : (pool.take span.start).length = span.start := by
    rw [List.length_take]
    omega
  rw [patch]
  by_cases before : position < span.start
  · rw [if_neg (by omega), List.append_assoc, List.getElem?_append_left (by omega),
      List.getElem?_take, if_pos before]
  · by_cases behind : position < span.stop
    · rw [if_pos ⟨by omega, behind⟩,
        List.getElem?_append_left (by rw [List.length_append]; omega),
        List.getElem?_append_right (by omega), startLength]
    · rw [if_neg (by omega), List.getElem?_append_right (by rw [List.length_append]; omega),
        List.getElem?_drop, List.length_append, startLength, fitting]
      congr 1
      omega

theorem view_patch {span : Span} {items pool : List α} (within : span.Within pool.length)
    (fitting : items.length = span.length) : span.view (span.patch items pool) = items := by
  apply List.ext_getElem?
  intro position
  rw [getElem?_view, getElem?_patch within fitting]
  split
  · rename_i below
    rw [length] at below
    rw [if_pos (by omega), Nat.add_sub_cancel_left]
  · rename_i beyond
    rw [List.getElem?_eq_none (by omega)]

theorem patch_view {span : Span} {pool : List α} (within : span.Within pool.length) :
    span.patch (span.view pool) pool = pool := by
  apply List.ext_getElem?
  intro position
  rw [getElem?_patch within (length_view within), getElem?_view]
  split
  · rename_i inside
    rw [if_pos (by rw [length]; omega), Nat.add_sub_cancel' inside.1]
  · rfl

theorem view_patch_of_apart {span other : Span} {items pool : List α}
    (within : span.Within pool.length) (fitting : items.length = span.length)
    (apart : other.Apart span) : other.view (span.patch items pool) = other.view pool := by
  apply List.ext_getElem?
  intro position
  rw [getElem?_view, getElem?_view, getElem?_patch within fitting]
  split
  · rename_i below
    rw [length] at below
    rw [if_neg]
    rcases apart with before | behind
    · omega
    · omega
  · rfl

end Span

section Join

variable {α : Type}

structure Joinable (poolLength : Nat) (spans : List Span) (contents : List (List α)) : Prop where
  within : ∀ span ∈ spans, span.Within poolLength
  apart : spans.Pairwise Span.Apart
  fitting : contents.map List.length = spans.map Span.length

theorem joinPool_cons (span : Span) (spans : List Span) (items : List α)
    (contents : List (List α)) (pool : List α) :
    joinPool pool (span :: spans) (items :: contents) =
      joinPool (span.patch items pool) spans contents := rfl

theorem Joinable.uncons {pool items : List α} {span : Span} {spans : List Span}
    {contents : List (List α)}
    (joinable : Joinable pool.length (span :: spans) (items :: contents)) :
    span.Within pool.length ∧ items.length = span.length ∧
      Joinable (span.patch items pool).length spans contents := by
  have within := joinable.within span (by simp)
  obtain ⟨fitting, others⟩ := List.cons.inj joinable.fitting
  refine ⟨within, fitting, ?_⟩
  constructor
  case within =>
    rw [Span.length_patch within fitting]
    exact fun other listed => joinable.within other (List.mem_cons_of_mem _ listed)
  case apart => exact (List.pairwise_cons.mp joinable.apart).2
  case fitting => exact others

theorem length_joinPool {pool : List α} {spans : List Span} {contents : List (List α)}
    (joinable : Joinable pool.length spans contents) :
    (joinPool pool spans contents).length = pool.length := by
  induction spans generalizing pool contents with
  | nil => rfl
  | cons span spans ih =>
      cases contents with
      | nil => rfl
      | cons items contents =>
          obtain ⟨within, fitting, rest⟩ := joinable.uncons
          rw [joinPool_cons, ih rest, Span.length_patch within fitting]

theorem joinPool_view {pool : List α} {spans : List Span}
    (within : ∀ span ∈ spans, span.Within pool.length) :
    joinPool pool spans (spans.map fun span => span.view pool) = pool := by
  induction spans with
  | nil => rfl
  | cons span spans ih =>
      rw [List.map_cons, joinPool_cons, Span.patch_view (within span (by simp))]
      exact ih fun later listed => within later (List.mem_cons_of_mem _ listed)

theorem view_joinPool_of_apart {pool : List α} {spans : List Span} {contents : List (List α)}
    (joinable : Joinable pool.length spans contents) {other : Span}
    (apart : ∀ span ∈ spans, other.Apart span) :
    other.view (joinPool pool spans contents) = other.view pool := by
  induction spans generalizing pool contents with
  | nil => rfl
  | cons span spans ih =>
      cases contents with
      | nil => rfl
      | cons items contents =>
          obtain ⟨within, fitting, rest⟩ := joinable.uncons
          rw [joinPool_cons, ih rest fun later listed => apart later (List.mem_cons_of_mem _ listed),
            Span.view_patch_of_apart within fitting (apart span (by simp))]

theorem map_view_joinPool {pool : List α} {spans : List Span} {contents : List (List α)}
    (joinable : Joinable pool.length spans contents) :
    (spans.map fun span => span.view (joinPool pool spans contents)) = contents := by
  induction spans generalizing pool contents with
  | nil => exact (List.map_eq_nil_iff.mp joinable.fitting).symm
  | cons span spans ih =>
      cases contents with
      | nil => cases joinable.fitting
      | cons items contents =>
          obtain ⟨within, fitting, rest⟩ := joinable.uncons
          have others := (List.pairwise_cons.mp joinable.apart).1
          rw [joinPool_cons, List.map_cons, ih rest, view_joinPool_of_apart rest others,
            Span.view_patch within fitting]

end Join

end TensorGraph
