import Mathlib.Algebra.BigOperators.Group.List.Basic
import TensorGraph.Proofs.Building

/-! A tensor passes its check when it has dimensions, few enough and none of them zero, and all its
elements can be addressed. It then has as many elements as the product of its dimensions, and at
least one. -/

namespace TensorGraph

/-- Factors other than zero never make a product smaller, so the limit is kept on the way if it is
kept in the end. -/
theorem foldlM_product_eq {limit start : Nat} {numbers : List Nat}
    (positive : ∀ number ∈ numbers, 0 < number) (startWithin : start ≤ limit) :
    numbers.foldlM (fun product number =>
      if product * number ≤ limit then some (product * number) else none) start =
        if start * numbers.prod ≤ limit then some (start * numbers.prod) else none := by
  induction numbers generalizing start with
  | nil => simp [startWithin]
  | cons number rest ih =>
      obtain ⟨_, restPositive⟩ := List.forall_mem_cons.mp positive
      rw [List.foldlM_cons, List.prod_cons, ← Nat.mul_assoc]
      by_cases within : start * number ≤ limit
      · rw [if_pos within]
        exact ih restPositive within
      · -- Once beyond the limit, a product stays there.
        have larger : start * number ≤ start * number * rest.prod :=
          Nat.le_mul_of_pos_right _ (List.prod_pos_iff_forall_pos_nat.mpr restPositive)
        rw [if_neg within, if_neg (by omega)]
        rfl

theorem productWithin_eq {limit : Nat} {numbers : List Nat}
    (positive : ∀ number ∈ numbers, 0 < number) (room : 1 ≤ limit) :
    productWithin limit numbers = if numbers.prod ≤ limit then some numbers.prod else none := by
  rw [productWithin, foldlM_product_eq positive room, Nat.one_mul]

namespace Shape

def volume (dimensions : List UInt64) : Nat := (dimensions.map UInt64.toNat).prod

structure Proper (dimensions : List UInt64) : Prop where
  leastRank : 1 ≤ dimensions.length
  greatestRank : dimensions.length ≤ Limit.rank
  noneZero : 0 ∉ dimensions

instance (dimensions : List UInt64) : Decidable (Proper dimensions) :=
  decidable_of_iff
    (1 ≤ dimensions.length ∧ dimensions.length ≤ Limit.rank ∧ 0 ∉ dimensions)
    ⟨fun ⟨least, greatest, noneZero⟩ => ⟨least, greatest, noneZero⟩,
      fun ⟨least, greatest, noneZero⟩ => ⟨least, greatest, noneZero⟩⟩

theorem toNat_pos_of_noneZero {dimensions : List UInt64} (noneZero : 0 ∉ dimensions) :
    ∀ number ∈ dimensions.map UInt64.toNat, 0 < number := by
  rw [List.forall_mem_map]
  intro dimension member
  refine Nat.pos_of_ne_zero fun isZero => noneZero ?_
  have zero : dimension = 0 := UInt64.toNat_inj.mp isZero
  rwa [zero] at member

theorem volume_pos {dimensions : List UInt64} (noneZero : 0 ∉ dimensions) :
    0 < volume dimensions :=
  List.prod_pos_iff_forall_pos_nat.mpr (toNat_pos_of_noneZero noneZero)

theorem productWithin_word {dimensions : List UInt64} (noneZero : 0 ∉ dimensions) :
    productWithin Limit.word (dimensions.map UInt64.toNat) =
      if volume dimensions ≤ Limit.word then some (volume dimensions) else none :=
  productWithin_eq (toNat_pos_of_noneZero noneZero) (by decide)

theorem proper_iff {dimensions : List UInt64} :
    Proper dimensions ↔ dimensions.length ≤ Limit.rank ∧
      (dimensions.isEmpty || dimensions.contains 0) = false := by
  rw [Bool.or_eq_false_iff, List.isEmpty_eq_false_iff, ← List.length_pos_iff]
  simp only [List.contains_eq_mem, decide_eq_false_iff_not]
  exact ⟨fun proper => ⟨proper.greatestRank, proper.leastRank, proper.noneZero⟩,
    fun ⟨greatest, least, noneZero⟩ => ⟨least, greatest, noneZero⟩⟩

theorem ofDimensions_ok_iff {dimensions : List UInt64} {shape : Shape} :
    ofDimensions dimensions = .ok shape ↔
      Proper dimensions ∧ volume dimensions ≤ Limit.word ∧ shape = ⟨dimensions⟩ := by
  rw [ofDimensions, seq_eq_ok_iff, checkWithin_ok_iff, proper_iff]
  dsimp only
  cases improper : dimensions.isEmpty || dimensions.contains 0 with
  | true => simp [throw, throwThe, MonadExceptOf.throw, bind, Except.bind]
  | false =>
      have noneZero : 0 ∉ dimensions := by simpa using (Bool.or_eq_false_iff.mp improper).2
      rw [productWithin_word noneZero]
      by_cases countable : volume dimensions ≤ Limit.word
      · simp [countable, pure, Except.pure, eq_comm]
      · simp [countable, throw, throwThe, MonadExceptOf.throw]

theorem volume_le_word {dimensions : List UInt64} {elementType : ElementType}
    (fitting : volume dimensions * elementType.byteSize ≤ Limit.addressableBytes) :
    volume dimensions ≤ Limit.word := by
  have room : Limit.addressableBytes ≤ Limit.word := by decide
  have fewer := Nat.le_mul_of_pos_right (volume dimensions) elementType.byteSize_pos
  omega

theorem elementCount_of_le {shape : Shape} (noneZero : 0 ∉ shape.dimensions)
    (countable : volume shape.dimensions ≤ Limit.word) :
    shape.elementCount = volume shape.dimensions := by
  rw [elementCount, productWithin_word noneZero, if_pos countable, Option.getD_some]

end Shape

namespace Tensor

open Shape (Proper volume)

theorem validate_ok_iff {tensor : Tensor} :
    tensor.validate = .ok () ↔ Proper tensor.shape.dimensions ∧
      volume tensor.shape.dimensions * tensor.elementType.byteSize ≤ Limit.addressableBytes := by
  simp only [validate, bind_eq_ok_iff, Shape.ofDimensions_ok_iff]
  constructor
  · rintro ⟨_, ⟨proper, countable, _⟩, addressable⟩
    rw [elementCount, Shape.elementCount_of_le proper.noneZero countable] at addressable
    split at addressable
    · rename_i fitting
      exact ⟨proper, fitting⟩
    · cases addressable
  · rintro ⟨proper, fitting⟩
    have countable := Shape.volume_le_word fitting
    refine ⟨_, ⟨proper, countable, rfl⟩, ?_⟩
    rw [elementCount, Shape.elementCount_of_le proper.noneZero countable, if_pos fitting]
    rfl

theorem elementCount_of_validate {tensor : Tensor} (valid : tensor.validate = .ok ()) :
    tensor.elementCount = volume tensor.shape.dimensions := by
  obtain ⟨proper, fitting⟩ := validate_ok_iff.mp valid
  exact Shape.elementCount_of_le proper.noneZero (Shape.volume_le_word fitting)

theorem dimensions_of_validate {tensor : Tensor} (valid : tensor.validate = .ok ()) :
    tensor.shape.dimensions ≠ [] ∧ 0 ∉ tensor.shape.dimensions ∧
      tensor.elementCount = (tensor.shape.dimensions.map UInt64.toNat).prod := by
  obtain ⟨proper, _⟩ := validate_ok_iff.mp valid
  exact ⟨List.length_pos_iff.mp proper.leastRank, proper.noneZero, elementCount_of_validate valid⟩

theorem elementCount_pos {tensor : Tensor} (valid : tensor.validate = .ok ()) :
    0 < tensor.elementCount := by
  rw [elementCount_of_validate valid]
  exact Shape.volume_pos (validate_ok_iff.mp valid).1.noneZero

theorem elementCount_of_matrix {tensor : Tensor} (valid : tensor.validate = .ok ())
    {rows columns : UInt64} (shape : tensor.shape.dimensions = [rows, columns]) :
    tensor.elementCount = rows.toNat * columns.toNat := by
  obtain ⟨_, _, count⟩ := dimensions_of_validate valid
  rw [count, shape]
  simp

end Tensor

end TensorGraph
