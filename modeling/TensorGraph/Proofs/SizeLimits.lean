import Mathlib.Algebra.BigOperators.Group.List.Basic
import TensorGraph.Proofs.Descriptors
import TensorGraph.Proofs.Tensors
import TensorGraph.Word

/-!
Limits on the sizes of tensors, kept in machine words. A product that is too large is found out
before it wraps around, so sizes that are accepted are those of exact arithmetic, whatever the order
of the dimensions.
-/

namespace TensorGraph

namespace Word

section Products

variable {left right product : UInt64}

theorem toNat_le_word (word : UInt64) : word.toNat ≤ Limit.word := by
  have bound := word.toNat_lt
  simp only [Limit.word]
  omega

theorem exists_word {number : Nat} (within : number ≤ Limit.word) :
    ∃ word : UInt64, word.toNat = number :=
  ⟨UInt64.ofNat number, UInt64.toNat_ofNat_of_lt' (Nat.lt_of_le_of_lt within (by decide))⟩

theorem fits_iff :
    (right = 0 ∨ left ≤ largest / right) ↔ left.toNat * right.toNat ≤ Limit.word := by
  by_cases isZero : right = 0
  · simp [isZero]
  · have positive : 0 < right.toNat := Nat.pos_of_ne_zero fun zero =>
      isZero (UInt64.toNat_inj.mp zero)
    simp only [isZero, false_or]
    rw [UInt64.le_iff_toNat_le, UInt64.toNat_div, Nat.le_div_iff_mul_le positive]
    rfl

theorem toNat_mul_of_le (fits : left.toNat * right.toNat ≤ Limit.word) :
    (left * right).toNat = left.toNat * right.toNat := by
  rw [UInt64.toNat_mul]
  apply Nat.mod_eq_of_lt
  simp only [Limit.word] at fits
  omega

theorem map_checkedMul :
    (checkedMul left right).map UInt64.toNat =
      if left.toNat * right.toNat ≤ Limit.word then some (left.toNat * right.toNat) else none := by
  simp only [checkedMul, fits_iff]
  by_cases fits : left.toNat * right.toNat ≤ Limit.word
  · simp [fits, toNat_mul_of_le fits]
  · simp [fits]

theorem eq_some_iff_of_map {found : Option UInt64} {number : Nat} {word : UInt64}
    (exact : found.map UInt64.toNat = if number ≤ Limit.word then some number else none) :
    found = some word ↔ word.toNat = number := by
  have bound := toNat_le_word word
  constructor
  · intro same
    rw [same] at exact
    split at exact
    · exact Option.some.inj exact
    · cases exact
  · intro same
    rw [if_pos (by omega), Option.map_eq_some_iff] at exact
    obtain ⟨other, isFound, otherSame⟩ := exact
    rw [isFound, UInt64.toNat_inj.mp (otherSame.trans same.symm)]

theorem checkedMul_eq_some_iff :
    checkedMul left right = some product ↔ product.toNat = left.toNat * right.toNat :=
  eq_some_iff_of_map map_checkedMul

theorem checkedMul_eq_none_iff :
    checkedMul left right = none ↔ Limit.word < left.toNat * right.toNat := by
  rw [← Option.map_eq_none_iff, map_checkedMul]
  simp

theorem toNat_saturatingMul :
    (saturatingMul left right).toNat = TensorGraph.saturatingMul left.toNat right.toNat := by
  rw [saturatingMul, TensorGraph.saturatingMul]
  cases found : checkedMul left right with
  | none =>
      have beyond := checkedMul_eq_none_iff.mp found
      rw [Option.getD_none, Nat.min_eq_right (by omega)]
      rfl
  | some product =>
      have exact := checkedMul_eq_some_iff.mp found
      have bound := toNat_le_word product
      rw [Option.getD_some]
      omega

theorem map_foldlM_checkedMul (dimensions : List UInt64) (start : UInt64) :
    (dimensions.foldlM checkedMul start).map UInt64.toNat =
      (dimensions.map UInt64.toNat).foldlM (fun product number =>
        if product * number ≤ Limit.word then some (product * number) else none) start.toNat := by
  induction dimensions generalizing start with
  | nil => rfl
  | cons dimension rest ih =>
      rw [List.foldlM_cons, List.map_cons, List.foldlM_cons, ← map_checkedMul]
      -- A product that is no word ends both.
      cases checkedMul start dimension with
      | none => rfl
      | some product => exact ih product

theorem map_product? (dimensions : List UInt64) :
    (product? dimensions).map UInt64.toNat =
      productWithin Limit.word (dimensions.map UInt64.toNat) :=
  map_foldlM_checkedMul dimensions 1

theorem product?_eq_some_iff {dimensions : List UInt64} (noneZero : 0 ∉ dimensions) :
    product? dimensions = some product ↔ product.toNat = Shape.volume dimensions :=
  eq_some_iff_of_map ((map_product? dimensions).trans (Shape.productWithin_word noneZero))

end Products

section Checks

theorem shapeOf_eq (dimensions : List UInt64) :
    shapeOf dimensions = Shape.ofDimensions dimensions := by
  rw [shapeOf, Shape.ofDimensions, ← map_product?]
  cases product? dimensions with
  | none => rfl
  | some product => rfl

theorem toNat_elementCount (shape : Shape) :
    (elementCount shape).toNat = shape.elementCount := by
  rw [elementCount, Shape.elementCount, ← map_product?]
  cases product? shape.dimensions with
  | none => rfl
  | some product => rfl

theorem toNat_byteSize (elementType : ElementType) :
    (byteSize elementType).toNat = elementType.byteSize := by
  cases elementType <;> rfl

theorem toNat_byteCount (tensor : Tensor) : (byteCount tensor).toNat = tensor.byteCount := by
  rw [byteCount, toNat_saturatingMul, toNat_elementCount, toNat_byteSize]
  rfl

theorem any_addressable_iff {tensor : Tensor} :
    (checkedMul (elementCount tensor.shape) (byteSize tensor.elementType)).any (· ≤ addressable) =
        true ↔
      tensor.elementCount * tensor.elementType.byteSize ≤ Limit.addressableBytes := by
  have counted : (elementCount tensor.shape).toNat = tensor.elementCount :=
    toNat_elementCount tensor.shape
  have room : Limit.addressableBytes ≤ Limit.word := by decide
  rw [← counted, ← toNat_byteSize]
  cases found : checkedMul (elementCount tensor.shape) (byteSize tensor.elementType) with
  | none =>
      have beyond := checkedMul_eq_none_iff.mp found
      simp only [Option.any_none, Bool.false_eq_true, false_iff]
      omega
  | some bytes =>
      rw [Option.any_some, decide_eq_true_iff, UInt64.le_iff_toNat_le,
        checkedMul_eq_some_iff.mp found]
      rfl

theorem validate_eq (tensor : Tensor) : validate tensor = tensor.validate := by
  simp only [validate, Tensor.validate, shapeOf_eq, any_addressable_iff]

theorem tensorOf_eq (id : TensorId) (elementType : ElementType) (dimensions : List UInt64) :
    tensorOf id elementType dimensions = Tensor.ofDimensions id elementType dimensions := by
  simp only [tensorOf, Tensor.ofDimensions, shapeOf_eq, validate_eq]

/-- In words, whatever is checked or counted of a tensor comes to the same as in numbers. -/
structure Faithful (tensor : Tensor) : Prop where
  sameShape : shapeOf tensor.shape.dimensions = Shape.ofDimensions tensor.shape.dimensions
  sameTensor : tensorOf tensor.id tensor.elementType tensor.shape.dimensions =
    Tensor.ofDimensions tensor.id tensor.elementType tensor.shape.dimensions
  sameCheck : validate tensor = tensor.validate
  sameElements : (elementCount tensor.shape).toNat = tensor.elementCount
  sameBytes : (byteCount tensor).toNat = tensor.byteCount

theorem faithful (tensor : Tensor) : Faithful tensor where
  sameShape := shapeOf_eq _
  sameTensor := tensorOf_eq _ _ _
  sameCheck := validate_eq tensor
  sameElements := toNat_elementCount tensor.shape
  sameBytes := toNat_byteCount tensor

end Checks

end Word

namespace Shape

variable {dimensions others : List UInt64}

theorem volume_of_perm (same : others.Perm dimensions) : volume others = volume dimensions :=
  (same.map UInt64.toNat).prod_eq

theorem Proper.of_perm (proper : Proper dimensions) (same : others.Perm dimensions) :
    Proper others where
  leastRank := by rw [same.length_eq]; exact proper.leastRank
  greatestRank := by rw [same.length_eq]; exact proper.greatestRank
  noneZero := fun zero => proper.noneZero (same.mem_iff.mp zero)

theorem volume_le_of_prefix (noneZero : 0 ∉ dimensions) (front : others <+: dimensions) :
    volume others ≤ volume dimensions := by
  obtain ⟨behind, split⟩ := front
  subst split
  have positive : 0 < volume behind := volume_pos fun zero =>
    noneZero (List.mem_append_right others zero)
  have multiplied : volume (others ++ behind) = volume others * volume behind := by
    simp [volume]
  rw [multiplied]
  exact Nat.le_mul_of_pos_right _ positive

end Shape

namespace Tensor

open Shape (Proper volume)

variable {tensor : Tensor}

def reshaped (tensor : Tensor) (dimensions : List UInt64) : Tensor :=
  { tensor with shape := ⟨dimensions⟩ }

structure SizedExactly (tensor : Tensor) (elements : Nat) : Prop where
  elementCount : tensor.elementCount = elements
  byteCount : tensor.byteCount = elements * tensor.elementType.byteSize
  products : ∀ front, front <+: tensor.shape.dimensions →
    ∃ product, Word.product? front = some product ∧ product.toNat = volume front
  bytes : ∃ bytes, Word.checkedMul (Word.elementCount tensor.shape)
    (Word.byteSize tensor.elementType) = some bytes ∧
      bytes.toNat = elements * tensor.elementType.byteSize

theorem ofDimensions_ok_iff {id : TensorId} {elementType : ElementType}
    {dimensions : List UInt64} :
    ofDimensions id elementType dimensions = .ok tensor ↔
      Proper dimensions ∧ volume dimensions * elementType.byteSize ≤ Limit.addressableBytes ∧
        tensor = ⟨id, elementType, ⟨dimensions⟩, .host, .rowMajor⟩ := by
  simp only [ofDimensions, bind_eq_ok_iff, Shape.ofDimensions_ok_iff]
  constructor
  · rintro ⟨_, ⟨_, _, rfl⟩, ⟨⟩, valid, same⟩
    obtain ⟨proper, fitting⟩ := validate_ok_iff.mp valid
    exact ⟨proper, fitting, (Except.ok.inj same).symm⟩
  · rintro ⟨proper, fitting, same⟩
    have valid := (@validate_ok_iff ⟨id, elementType, ⟨dimensions⟩, .host, .rowMajor⟩).mpr
      ⟨proper, fitting⟩
    have countable := Shape.volume_le_word fitting
    exact ⟨_, ⟨proper, countable, rfl⟩, (), valid, congrArg Except.ok same.symm⟩

theorem sizedExactly_of_validate (valid : tensor.validate = .ok ()) :
    tensor.SizedExactly (volume tensor.shape.dimensions) := by
  obtain ⟨proper, fitting⟩ := validate_ok_iff.mp valid
  have counted := elementCount_of_validate valid
  have countable := Shape.volume_le_word fitting
  have room : Limit.addressableBytes ≤ Limit.word := by decide
  constructor
  case elementCount => exact counted
  case byteCount => rw [byteCount, counted, saturatingMul, Nat.min_eq_left (by omega)]
  case products =>
    intro front isFront
    have smaller := Shape.volume_le_of_prefix proper.noneZero isFront
    obtain ⟨product, exact⟩ := Word.exists_word (Nat.le_trans smaller countable)
    have noneZero : 0 ∉ front := fun zero => proper.noneZero (isFront.subset zero)
    exact ⟨product, (Word.product?_eq_some_iff noneZero).mpr exact, exact⟩
  case bytes =>
    obtain ⟨bytes, exact⟩ := Word.exists_word (Nat.le_trans fitting room)
    refine ⟨bytes, Word.checkedMul_eq_some_iff.mpr ?_, exact⟩
    rw [Word.toNat_elementCount, Word.toNat_byteSize, exact]
    exact congrArg (· * _) counted.symm

theorem validate_reshaped (valid : tensor.validate = .ok ()) {dimensions : List UInt64}
    (same : dimensions.Perm tensor.shape.dimensions) :
    (tensor.reshaped dimensions).validate = .ok () := by
  obtain ⟨proper, fitting⟩ := validate_ok_iff.mp valid
  rw [← Shape.volume_of_perm same] at fitting
  exact validate_ok_iff.mpr ⟨proper.of_perm same, fitting⟩

/-- A shape is accepted exactly when it is proper and its elements can be counted, a tensor exactly
when its elements can also be addressed, whether it was described by dimensions or by a text. The
sizes of an accepted tensor are exact in any order of its dimensions, in words as in numbers. -/
theorem limits_exact :
    (∀ dimensions shape, Shape.ofDimensions dimensions = .ok shape ↔
      Proper dimensions ∧ volume dimensions ≤ Limit.word ∧ shape = ⟨dimensions⟩) ∧
    (∀ id elementType dimensions tensor, ofDimensions id elementType dimensions = .ok tensor ↔
      Proper dimensions ∧ volume dimensions * elementType.byteSize ≤ Limit.addressableBytes ∧
        tensor = ⟨id, elementType, ⟨dimensions⟩, .host, .rowMajor⟩) ∧
    ∀ tensor : Tensor,
      (∀ layout, (Json.read? (tensor.toJson.text layout)).bind ofJson? = some tensor) ∧
      Word.Faithful tensor ∧
      (tensor.validate = .ok () ↔ Proper tensor.shape.dimensions ∧
        volume tensor.shape.dimensions * tensor.elementType.byteSize ≤ Limit.addressableBytes) ∧
      (tensor.validate = .ok () → ∀ dimensions, dimensions.Perm tensor.shape.dimensions →
        (tensor.reshaped dimensions).validate = .ok () ∧
          (tensor.reshaped dimensions).SizedExactly (volume tensor.shape.dimensions)) := by
  refine ⟨fun _ _ => Shape.ofDimensions_ok_iff, fun _ _ _ _ => ofDimensions_ok_iff, fun tensor => ?_⟩
  refine ⟨?_, Word.faithful tensor, validate_ok_iff, ?_⟩
  · intro layout
    obtain ⟨writable, decoded⟩ := tensor.decodes
    rw [Json.read?_text writable, Option.bind_some, decoded]
  · intro valid dimensions same
    have reordered := validate_reshaped valid same
    rw [← Shape.volume_of_perm same]
    exact ⟨reordered, sizedExactly_of_validate reordered⟩

def brimful : Tensor :=
  ⟨0, .u8, ⟨[49, 9271, 337, 92737, 649657]⟩, .host, .rowMajor⟩

theorem limits_exact_brimful :
    brimful.validate = .ok () ∧
      (brimful.reshaped [649657, 9271, 49, 92737, 337]).byteCount = Limit.addressableBytes ∧
      { brimful with elementType := .u16 }.validate ≠ .ok () ∧
      (∃ shape, Shape.ofDimensions [0xFFFFFFFF, 0x100000001] = .ok shape ∧
        shape.elementCount = Limit.word) ∧
      ∀ shape, Shape.ofDimensions [0x100000000, 0x100000000] ≠ .ok shape := by
  obtain ⟨shapes, _, tensors⟩ := limits_exact
  obtain ⟨_, _, accepted, sized⟩ := tensors brimful
  have valid : brimful.validate = .ok () := accepted.mpr ⟨by decide, by decide⟩
  have reordered := (sized valid [649657, 9271, 49, 92737, 337] (by decide)).2
  refine ⟨valid, reordered.byteCount.trans (by decide), ?_, ?_, ?_⟩
  · intro doubled
    exact absurd ((tensors _).2.2.1.mp doubled).2 (by decide)
  · exact ⟨_, (shapes _ _).mpr ⟨by decide, by decide, rfl⟩, rfl⟩
  · intro shape found
    exact absurd ((shapes _ _).mp found).2.1 (by decide)

end Tensor

end TensorGraph
