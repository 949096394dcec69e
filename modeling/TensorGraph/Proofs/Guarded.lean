import Mathlib.Data.List.ProdSigma
import TensorGraph.Guarded
import TensorGraph.Proofs.KernelMeaning

/-!
Computations that check each of their accesses. An access out of range leaves no result at all, so a
guarded computation that comes to the same as a plain one shows that all its accesses are in range.
-/

namespace TensorGraph

variable {α β ε : Type}

namespace Guarded

/-- All accesses are in range, and the computations come to the same. -/
def Agrees (guarded : Guarded ε β) (computed : Except ε β) : Prop :=
  ExceptT.run guarded = some computed

namespace Agrees

theorem of_plain (computed : Except ε β) : Agrees (plain computed) computed := rfl

theorem of_access {found : Option β} {value : β} (isFound : found = some value) :
    Agrees (access found) (.ok value : Except ε β) := by
  rw [isFound]
  rfl

theorem bind {first : Guarded ε α} {next : α → Guarded ε β} {computed : Except ε α}
    {rest : α → Except ε β} (agrees : Agrees first computed)
    (restAgrees : ∀ value, computed = .ok value → Agrees (next value) (rest value)) :
    Agrees (first >>= next) (computed >>= rest) := by
  rw [Agrees] at agrees
  rw [Agrees, ExceptT.run_bind, agrees]
  cases computed with
  | error failure => rfl
  | ok value => exact restAgrees value rfl

theorem access_bind {found : Option α} {value : α} {next : α → Guarded ε β}
    {computed : Except ε β} (isFound : found = some value) (agrees : Agrees (next value) computed) :
    Agrees (access found >>= next) computed := by
  rw [isFound]
  exact agrees

theorem plain_bind {value : α} {next : α → Guarded ε β} {computed : Except ε β}
    (agrees : Agrees (next value) computed) : Agrees (plain (.ok value) >>= next) computed := agrees

theorem after {first : Guarded ε α} {value : α} {next : α → Guarded ε β} {computed : Except ε β}
    (succeeds : Agrees first (.ok value)) (agrees : Agrees (next value) computed) :
    Agrees (first >>= next) computed := by
  rw [Agrees] at succeeds
  rw [Agrees, ExceptT.run_bind, succeeds]
  exact agrees

theorem of_failed {first : Guarded ε α} {failure : ε} (fails : Agrees first (.error failure))
    (next : α → Guarded ε β) : Agrees (first >>= next) (.error failure) := by
  rw [Agrees] at fails
  rw [Agrees, ExceptT.run_bind, fails]
  rfl

/-- A step that a check decides hands on its value when the check passes. -/
theorem after_check {checked : Except ε Unit} {first : Guarded ε α} {value : α}
    {next : α → Guarded ε β} {computed : Unit → Except ε β}
    (decides : Agrees first (checked >>= fun _ => .ok value))
    (agrees : checked = .ok () → Agrees (next value) (computed ())) :
    Agrees (first >>= next) (checked >>= computed) := by
  cases checked with
  | error failure => exact of_failed decides next
  | ok _ => exact after decides (agrees rfl)

theorem bind_ok_iff {first : Guarded ε α} {next : α → Guarded ε β} {result : β} :
    Agrees (first >>= next) (.ok result) ↔
      ∃ value, Agrees first (.ok value) ∧ Agrees (next value) (.ok result) := by
  simp only [Agrees, ExceptT.run_bind]
  rcases ExceptT.run first with _ | _ | value
  · simp
  · simp
  · simp

theorem access_iff {found : Option β} {value : β} :
    Agrees (access found : Guarded ε β) (.ok value) ↔ found = some value := by
  cases found with
  | none => simp [Agrees, access]
  | some other => simp [Agrees, access]

theorem plain_iff {computed other : Except ε β} :
    Agrees (plain computed) other ↔ computed = other :=
  Option.some_inj

theorem foldlM_invariant {σ : Type} {step : σ → α → Guarded ε σ} (invariant : σ → Prop)
    (kept : ∀ state item next, Agrees (step state item) (.ok next) → invariant state →
      invariant next)
    {items : List α} {state last : σ} (runs : Agrees (items.foldlM step state) (.ok last))
    (holds : invariant state) : invariant last := by
  induction items generalizing state with
  | nil =>
      cases plain_iff.mp runs
      exact holds
  | cons item rest ih =>
      rw [List.foldlM_cons] at runs
      obtain ⟨next, stepped, further⟩ := bind_ok_iff.mp runs
      exact ih further (kept state item next stepped holds)

theorem bind_ok {first : Except ε α} {value : α} {rest : α → Except ε β}
    {guarded : Guarded ε β} (isComputed : first = .ok value)
    (agrees : Agrees guarded (rest value)) : Agrees guarded (first >>= rest) := by
  rw [isComputed]
  exact agrees

theorem ite {condition : Prop} [Decidable condition] {left right : Guarded ε β}
    {leftComputed rightComputed : Except ε β} (leftAgrees : condition → Agrees left leftComputed)
    (rightAgrees : ¬condition → Agrees right rightComputed) :
    Agrees (if condition then left else right)
      (if condition then leftComputed else rightComputed) := by
  by_cases holds : condition
  · rw [if_pos holds, if_pos holds]
    exact leftAgrees holds
  · rw [if_neg holds, if_neg holds]
    exact rightAgrees holds

end Agrees

theorem copyOver?_eq_some {contents operand : List α} (same : contents.length = operand.length) :
    copyOver? contents operand = some operand := by
  rw [copyOver?, if_pos same]

theorem put?_behind (before behind : List α) (old new : α) :
    put? (before ++ old :: behind) before.length new = some (before ++ new :: behind) := by
  have bound : before.length < (before ++ old :: behind).length := by simp
  rw [put?, if_pos bound, List.set_append_right _ _ (Nat.le_refl _), Nat.sub_self]
  rfl

theorem cut?_append (front behind : List α) :
    cut? (front ++ behind) front.length = some (front, behind) := by
  rw [cut?, List.take_left, List.drop_left, if_pos (by simp)]

theorem cut?_behind (before behind : List α) (item : α) :
    cut? (before ++ item :: behind) (before.length + 1) = some (before ++ [item], behind) := by
  have split : before ++ item :: behind = (before ++ [item]) ++ behind := by simp
  have count : before.length + 1 = (before ++ [item]).length := by simp
  rw [split, count, cut?_append]

section Matrices

theorem mem_positions {rows columns : Nat} {position : Nat × Nat} :
    position ∈ positions rows columns ↔ position.1 < rows ∧ position.2 < columns := by
  rw [positions, List.pair_mem_product, List.mem_range, List.mem_range]

/-- Where places that differ for different positions are written, each holds the element of its
position in the end, and all other places keep theirs. -/
theorem exists_writeEach? {place? : Nat × Nat → Option Nat} {value? : Nat × Nat → Option α}
    {place : Nat × Nat → Nat} {value : Nat × Nat → α} {positions : List (Nat × Nat)}
    (places : ∀ position ∈ positions, place? position = some (place position))
    (values : ∀ position ∈ positions, value? position = some (value position))
    (apart : ∀ position ∈ positions, ∀ other ∈ positions, place position = place other →
      position = other)
    {output : List α} (inside : ∀ position ∈ positions, place position < output.length) :
    ∃ contents, writeEach? place? value? positions output = some contents ∧
      contents.length = output.length ∧
      (∀ position ∈ positions, contents[place position]? = some (value position)) ∧
      ∀ index, (∀ position ∈ positions, place position ≠ index) →
        contents[index]? = output[index]? := by
  induction positions generalizing output with
  | nil => exact ⟨output, rfl, rfl, by simp, fun _ _ => rfl⟩
  | cons position rest ih =>
      have here := inside position (by simp)
      obtain ⟨contents, written, length, entries, others⟩ :=
        @ih (fun other member => places other (List.mem_cons_of_mem _ member))
          (fun other member => values other (List.mem_cons_of_mem _ member))
          (fun left leftMember right rightMember => apart left (List.mem_cons_of_mem _ leftMember)
            right (List.mem_cons_of_mem _ rightMember))
          (output.set (place position) (value position))
          (fun other member => by
            rw [List.length_set]
            exact inside other (List.mem_cons_of_mem _ member))
      refine ⟨contents, ?_, length.trans List.length_set, ?_, ?_⟩
      · rw [writeEach?, List.foldlM_cons, values position (by simp), places position (by simp)]
        simp only [put?, here, if_true, Option.bind_eq_bind, Option.bind_some]
        exact written
      · rw [List.forall_mem_cons]
        refine ⟨?_, entries⟩
        by_cases again : ∃ other ∈ rest, place other = place position
        · obtain ⟨other, member, same⟩ := again
          rw [← same, entries other member,
            apart other (List.mem_cons_of_mem _ member) position (by simp) same]
        · rw [others _ fun other member same => again ⟨other, member, same⟩,
            List.getElem?_set_self here]
      · intro index untouched
        rw [others index fun other member => untouched other (List.mem_cons_of_mem _ member),
          List.getElem?_set_ne (untouched position (by simp))]

theorem writeEach?_eq_fill {form : MatrixForm} {positions : List (Nat × Nat)}
    (all : ∀ position, position ∈ positions ↔
      position.1 < form.rows ∧ position.2 < form.columns)
    {place? : Nat × Nat → Option Nat} {value? : Nat × Nat → Option α} {value : Nat → Nat → α}
    (places : ∀ position ∈ positions, place? position =
      some (form.layout.offset form.rows form.columns position.1 position.2))
    (values : ∀ position ∈ positions, value? position = some (value position.1 position.2))
    (absent : α) {output : List α} (length : output.length = form.rows * form.columns) :
    writeEach? place? value? positions output = some (form.fill value output) := by
  have apart : ∀ position ∈ positions, ∀ other ∈ positions,
      form.layout.offset form.rows form.columns position.1 position.2 =
        form.layout.offset form.rows form.columns other.1 other.2 → position = other := by
    intro position member other otherMember same
    obtain ⟨rowBound, columnBound⟩ := (all position).mp member
    obtain ⟨otherRowBound, otherColumnBound⟩ := (all other).mp otherMember
    have coordinates := form.layout.coordinates_offset rowBound columnBound
    rw [same, form.layout.coordinates_offset otherRowBound otherColumnBound] at coordinates
    exact coordinates.symm
  have inside : ∀ position ∈ positions,
      form.layout.offset form.rows form.columns position.1 position.2 < output.length := by
    intro position member
    rw [length]
    exact form.layout.offset_lt ((all position).mp member).1 ((all position).mp member).2
  obtain ⟨contents, written, sameLength, entries, _⟩ :=
    exists_writeEach? places values apart inside
  have holds : form.Holds absent contents value := by
    refine ⟨sameLength.trans length, fun row rowBound column columnBound => ?_⟩
    rw [MatrixForm.entry, entries (row, column) ((all (row, column)).mpr ⟨rowBound, columnBound⟩)]
    rfl
  rw [written, holds.unique (form.holds_fill absent value length)]

end Matrices

end Guarded

end TensorGraph
