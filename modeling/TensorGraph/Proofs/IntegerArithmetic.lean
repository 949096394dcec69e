import Mathlib.Algebra.Ring.Int.Defs
import TensorGraph.Kernel.Elementwise

/-!
Arithmetic of the integer types, in terms of the integers that their elements stand for. Sums,
differences and products wrap around; so would a quotient, if the one that leaves the range were not
undefined.
-/

namespace TensorGraph

namespace ElementType

/-- Some element of the type stands for the integer. -/
def InRange (elementType : ElementType) (value : Int) : Prop :=
  ∃ element, Element.toInt elementType element = value

theorem arithmetic_of_integer {elementType : ElementType}
    (isInteger : elementType.isFloat = false) :
    elementType.arithmetic =
      some (if elementType.isSigned then .signed elementType.bits
        else .unsigned elementType.bits) := by
  cases elementType with
  | f16 | f32 | f64 => cases isInteger
  | u8 | u16 | u32 | u64 | i8 | i16 | i32 | i64 => rfl

end ElementType

namespace Element

variable {elementType : ElementType}

theorem ofInt_toInt (element : Element elementType) :
    ofInt elementType (toInt elementType element) = element := by
  rw [toInt, ofInt]
  split
  · exact BitVec.ofInt_toInt
  · rw [BitVec.ofInt_natCast, BitVec.ofNat_toNat, BitVec.setWidth_eq]

theorem toInt_ofInt {value : Int} (inRange : elementType.InRange value) :
    toInt elementType (ofInt elementType value) = value := by
  obtain ⟨element, rfl⟩ := inRange
  rw [ofInt_toInt]

theorem ofInt_sub (left right : Int) :
    ofInt elementType (left - right) = ofInt elementType left - ofInt elementType right := by
  rw [ofInt, ofInt, ofInt, Int.sub_eq_add_neg, BitVec.ofInt_add, BitVec.ofInt_neg,
    BitVec.sub_eq_add_neg]

theorem toInt_zero (elementType : ElementType) : toInt elementType 0 = 0 := by
  cases elementType with
  | _ => rfl

theorem toInt_neg_one (isSigned : elementType.isSigned = true) : toInt elementType (-1) = -1 := by
  cases elementType with
  | u8 | u16 | u32 | u64 | f16 | f32 | f64 => cases isSigned
  | i8 | i16 | i32 | i64 => rfl

def quotient (left right : Element elementType) : Element elementType :=
  ofInt elementType ((toInt elementType left).tdiv (toInt elementType right))

def QuotientOverflows (left right : Element elementType) : Prop :=
  elementType.isSigned = true ∧ left = BitVec.intMin elementType.bits ∧ right = -1

instance (left right : Element elementType) : Decidable (QuotientOverflows left right) :=
  inferInstanceAs (Decidable (_ ∧ _))

theorem quotient_of_signed (isSigned : elementType.isSigned = true)
    (left right : Element elementType) : quotient left right = BitVec.sdiv left right := by
  rw [quotient, ofInt, toInt, toInt, if_pos isSigned, if_pos isSigned, ← BitVec.toInt_inj,
    BitVec.toInt_ofInt, BitVec.toInt_sdiv]

theorem quotient_of_unsigned (isUnsigned : elementType.isSigned = false)
    (left right : Element elementType) : quotient left right = left / right := by
  rw [quotient, ofInt, toInt, toInt, isUnsigned]
  simp only [Bool.false_eq_true, if_false]
  rw [← Int.ofNat_tdiv, BitVec.ofInt_natCast, ← BitVec.toNat_udiv, BitVec.ofNat_toNat,
    BitVec.setWidth_eq]

theorem toInt_quotient {left right : Element elementType}
    (fitting : ¬QuotientOverflows left right) :
    toInt elementType (quotient left right) =
      (toInt elementType left).tdiv (toInt elementType right) := by
  cases isSigned : elementType.isSigned with
  | true =>
      have unlike : left ≠ BitVec.intMin elementType.bits ∨ right ≠ -1 := by
        by_contra both
        rw [not_or, not_not, not_not] at both
        exact fitting ⟨isSigned, both⟩
      rw [quotient_of_signed isSigned, toInt, toInt, toInt, if_pos isSigned, if_pos isSigned,
        if_pos isSigned]
      exact BitVec.toInt_sdiv_of_ne_or_ne left right unlike
  | false =>
      rw [quotient_of_unsigned isSigned, toInt, toInt, toInt, isSigned]
      simp only [Bool.false_eq_true, if_false]
      rw [BitVec.toNat_udiv, Int.ofNat_tdiv]

theorem defined_of_pos {divisor : Element elementType} (positive : 0 < toInt elementType divisor)
    (dividend : Element elementType) :
    ¬(divisor = 0 ∨ QuotientOverflows dividend divisor) := by
  rintro (isZero | ⟨isSigned, _, isNegative⟩)
  · rw [isZero, toInt_zero] at positive
    omega
  · rw [isNegative, toInt_neg_one isSigned] at positive
    omega

end Element

namespace Arithmetic

open Element (toInt ofInt quotient QuotientOverflows)

/-- Arithmetic on the integers that elements stand for, with results wrapped around. -/
structure WrapsAround (elementType : ElementType)
    (arithmetic : Arithmetic (Element elementType)) : Prop where
  zero : arithmetic.zero = ofInt elementType 0
  add : ∀ left right,
    arithmetic.add (ofInt elementType left) (ofInt elementType right) =
      ofInt elementType (left + right)
  sub : ∀ left right,
    arithmetic.sub (ofInt elementType left) (ofInt elementType right) =
      ofInt elementType (left - right)
  mul : ∀ left right,
    arithmetic.mul (ofInt elementType left) (ofInt elementType right) =
      ofInt elementType (left * right)
  ofCount : ∀ count, arithmetic.ofCount count = ofInt elementType count
  divide? : ∀ left right, arithmetic.divide? left right =
    if right = 0 ∨ QuotientOverflows left right then none else some (quotient left right)

variable {elementType : ElementType} {arithmetic : Arithmetic (Element elementType)}

theorem wrapsAround_of_integer (isInteger : elementType.isFloat = false)
    (known : elementType.arithmetic = some arithmetic) : arithmetic.WrapsAround elementType := by
  rw [ElementType.arithmetic_of_integer isInteger] at known
  cases isSigned : elementType.isSigned with
  | true =>
      rw [if_pos isSigned] at known
      cases known
      constructor
      case zero => exact (BitVec.ofInt_natCast elementType.bits 0).symm
      case add => exact fun left right => (BitVec.ofInt_add left right).symm
      case sub => exact fun left right => (Element.ofInt_sub left right).symm
      case mul => exact fun left right => (BitVec.ofInt_mul left right).symm
      case ofCount => exact fun count => (BitVec.ofInt_natCast elementType.bits count).symm
      case divide? =>
        intro left right
        simp only [signed, QuotientOverflows, isSigned, true_and,
          Element.quotient_of_signed isSigned]
  | false =>
      rw [if_neg (by simp [isSigned])] at known
      cases known
      constructor
      case zero => exact (BitVec.ofInt_natCast elementType.bits 0).symm
      case add => exact fun left right => (BitVec.ofInt_add left right).symm
      case sub => exact fun left right => (Element.ofInt_sub left right).symm
      case mul => exact fun left right => (BitVec.ofInt_mul left right).symm
      case ofCount => exact fun count => (BitVec.ofInt_natCast elementType.bits count).symm
      case divide? =>
        intro left right
        simp only [unsigned, QuotientOverflows, isSigned, Bool.false_eq_true, false_and, or_false,
          Element.quotient_of_unsigned isSigned]

namespace WrapsAround

theorem foldl_add (wrapsAround : arithmetic.WrapsAround elementType) (start : Int)
    (elements : List (Element elementType)) :
    elements.foldl arithmetic.add (ofInt elementType start) =
      ofInt elementType (start + (elements.map (toInt elementType)).sum) := by
  induction elements generalizing start with
  | nil => rw [List.foldl_nil, List.map_nil, List.sum_nil, Int.add_zero]
  | cons element elements ih =>
      have step := wrapsAround.add start (toInt elementType element)
      rw [Element.ofInt_toInt] at step
      rw [List.foldl_cons, step, ih, List.map_cons, List.sum_cons, Int.add_assoc]

/-- However often a sum wraps around on the way, it ends where the exact sum does. -/
theorem sum_eq (wrapsAround : arithmetic.WrapsAround elementType)
    (elements : List (Element elementType)) :
    Kernel.sum arithmetic elements =
      ofInt elementType (elements.map (toInt elementType)).sum := by
  rw [Kernel.sum, wrapsAround.zero, wrapsAround.foldl_add, Int.zero_add]

theorem divide?_eq_none_iff (wrapsAround : arithmetic.WrapsAround elementType)
    {left right : Element elementType} :
    arithmetic.divide? left right = none ↔ right = 0 ∨ QuotientOverflows left right := by
  rw [wrapsAround.divide?]
  by_cases undefined : right = 0 ∨ QuotientOverflows left right
  · rw [if_pos undefined]
    exact iff_of_true rfl undefined
  · rw [if_neg undefined]
    exact iff_of_false (by simp) undefined

theorem eq_of_divide? (wrapsAround : arithmetic.WrapsAround elementType)
    {left right result : Element elementType}
    (divided : arithmetic.divide? left right = some result) :
    result = quotient left right ∧
      toInt elementType result = (toInt elementType left).tdiv (toInt elementType right) := by
  rw [wrapsAround.divide?] at divided
  split at divided
  · cases divided
  · rename_i defined
    cases divided
    exact ⟨rfl, Element.toInt_quotient (not_or.mp defined).2⟩

end WrapsAround

end Arithmetic

end TensorGraph
