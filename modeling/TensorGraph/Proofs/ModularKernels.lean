import Mathlib.Algebra.BigOperators.Group.List.Basic
import Mathlib.Algebra.Ring.Int.Defs
import Mathlib.Data.Int.ModEq
import TensorGraph.Proofs.IntegerArithmetic
import TensorGraph.Proofs.KernelFaults
import TensorGraph.Proofs.MatrixKernels

/-!
Integer kernels modulo the range of the element type. An element represents the integers of its
residue class, and what is computed with elements represents what is computed with the integers. So
it makes no difference where on the way a result wraps around.
-/

namespace TensorGraph

open Element (toInt ofInt)

namespace Element

variable {elementType : ElementType}

/-- The integer differs from the one that the element stands for by a multiple of the number of
elements. -/
def Represents (element : Element elementType) (value : Int) : Prop :=
  toInt elementType element ≡ value [ZMOD 2 ^ elementType.bits]

theorem ofInt_eq_ofInt_iff {left right : Int} :
    ofInt elementType left = ofInt elementType right ↔
      left ≡ right [ZMOD 2 ^ elementType.bits] := by
  have modulus : (2 : Int) ^ elementType.bits = ((2 ^ elementType.bits : Nat) : Int) := by simp
  have positive : ((2 ^ elementType.bits : Nat) : Int) ≠ 0 :=
    Int.natCast_ne_zero.mpr (Nat.two_pow_pos _).ne'
  have leftNonneg := Int.emod_nonneg left positive
  have rightNonneg := Int.emod_nonneg right positive
  rw [ofInt, ofInt, ← BitVec.toNat_inj, BitVec.toNat_ofInt, BitVec.toNat_ofInt, Int.ModEq, modulus]
  omega

theorem represents_iff {element : Element elementType} {value : Int} :
    element.Represents value ↔ element = ofInt elementType value := by
  rw [Represents, ← ofInt_eq_ofInt_iff, ofInt_toInt]

theorem Represents.unique {left right : Element elementType} {value : Int}
    (represents : left.Represents value) (alsoRepresents : right.Represents value) :
    left = right := by
  rw [represents_iff.mp represents, represents_iff.mp alsoRepresents]

theorem represents_toInt (element : Element elementType) :
    element.Represents (toInt elementType element) := Int.ModEq.refl _

theorem represents_zero : Represents (0 : Element elementType) 0 := by
  rw [Represents, toInt_zero]

end Element

open Element (Represents)

variable {elementType : ElementType}

namespace Arithmetic.WrapsAround

variable {arithmetic : Arithmetic (Element elementType)}

theorem zero_eq (wrapsAround : arithmetic.WrapsAround elementType) : arithmetic.zero = 0 :=
  wrapsAround.zero.trans (BitVec.ofInt_natCast elementType.bits 0)

section Pairs

variable {left right : Element elementType} {leftValue rightValue : Int}

theorem represents_add (wrapsAround : arithmetic.WrapsAround elementType)
    (leftRepresents : left.Represents leftValue) (rightRepresents : right.Represents rightValue) :
    Represents (arithmetic.add left right) (leftValue + rightValue) := by
  rw [Element.represents_iff] at *
  rw [leftRepresents, rightRepresents, wrapsAround.add]

theorem represents_sub (wrapsAround : arithmetic.WrapsAround elementType)
    (leftRepresents : left.Represents leftValue) (rightRepresents : right.Represents rightValue) :
    Represents (arithmetic.sub left right) (leftValue - rightValue) := by
  rw [Element.represents_iff] at *
  rw [leftRepresents, rightRepresents, wrapsAround.sub]

theorem represents_mul (wrapsAround : arithmetic.WrapsAround elementType)
    (leftRepresents : left.Represents leftValue) (rightRepresents : right.Represents rightValue) :
    Represents (arithmetic.mul left right) (leftValue * rightValue) := by
  rw [Element.represents_iff] at *
  rw [leftRepresents, rightRepresents, wrapsAround.mul]

end Pairs

end Arithmetic.WrapsAround

theorem Element.Represents.foldl {ι : Type}
    {function : Element elementType → Element elementType → Element elementType}
    {exact : Int → Int → Int}
    (agrees : ∀ {left right : Element elementType} {leftValue rightValue : Int},
      left.Represents leftValue → right.Represents rightValue →
        (function left right).Represents (exact leftValue rightValue))
    {element : ι → Element elementType} {value : ι → Int}
    (represents : ∀ item, (element item).Represents (value item))
    {start : Element elementType} {startValue : Int} (starts : start.Represents startValue)
    (items : List ι) :
    (items.foldl (fun total item => function total (element item)) start).Represents
      (items.foldl (fun total item => exact total (value item)) startValue) := by
  induction items generalizing start startValue with
  | nil => exact starts
  | cons item items ih => exact ih (agrees starts (represents item))

def difference : List Int → Int
  | [] => 0
  | first :: rest => first - rest.sum

theorem foldl_sub (first : Int) (rest : List Int) :
    rest.foldl (fun total value => total - value) first = difference (first :: rest) := by
  induction rest generalizing first with
  | nil => simp [difference]
  | cons value rest ih =>
      rw [List.foldl_cons, ih, difference, difference, List.sum_cons]
      omega

theorem foldl_add (first : Int) (rest : List Int) :
    rest.foldl (fun total value => total + value) first = (first :: rest).sum := by
  induction rest generalizing first with
  | nil => simp
  | cons value rest ih =>
      rw [List.foldl_cons, ih, List.sum_cons, List.sum_cons, List.sum_cons, Int.add_assoc]

theorem foldl_mul (first : Int) (rest : List Int) :
    rest.foldl (fun product value => product * value) first = (first :: rest).prod := by
  induction rest generalizing first with
  | nil => simp
  | cons value rest ih =>
      rw [List.foldl_cons, ih, List.prod_cons, List.prod_cons, List.prod_cons, Int.mul_assoc]

theorem Progress.eq_of_finished {α : Type} {progress other : Progress α}
    (finished : progress.fault = none) (otherFinished : other.fault = none)
    (same : progress.contents = other.contents) : progress = other := by
  cases progress
  cases other
  cases finished
  cases otherFinished
  cases same
  rfl

namespace MatrixForm

def integerAt (form : MatrixForm) (contents : List (Element elementType)) (row column : Nat) :
    Int :=
  toInt elementType (form.entry 0 contents row column)

def RepresentsEntries (form : MatrixForm) (contents : List (Element elementType))
    (value : Nat → Nat → Int) : Prop :=
  contents.length = form.rows * form.columns ∧
    ∀ row < form.rows, ∀ column < form.columns,
      (form.entry 0 contents row column).Represents (value row column)

theorem Holds.representsEntries {form : MatrixForm} {contents : List (Element elementType)}
    {entries : Nat → Nat → Element elementType} {value : Nat → Nat → Int}
    (holds : form.Holds 0 contents entries)
    (represents : ∀ row column, (entries row column).Represents (value row column)) :
    form.RepresentsEntries contents value := by
  refine ⟨holds.1, fun row rowBound column columnBound => ?_⟩
  rw [holds.2 row rowBound column columnBound]
  exact represents row column

end MatrixForm

namespace Kernel

section Integers

variable (scalar : Option (Element elementType)) (inputs : List Tensor) (output : Tensor)
  (operands : List (List (Element elementType))) (result : List (Element elementType))

def integersAt (position : Nat) : List Int :=
  (column operands position).map (toInt elementType)

def CombinesIntegers (value : List Int → Int) : Prop :=
  ∀ (position : Nat) (element : Element elementType), result[position]? = some element →
    element.Represents (value (integersAt operands position))

def MapsIntegers (value : Int → Int → Int) : Prop :=
  ∃ constant operand, scalar = some constant ∧ operands[0]? = some operand ∧
    List.Forall₂
      (fun element image => image.Represents
        (value (toInt elementType element) (toInt elementType constant)))
      operand result

def ScalesIntegers : Prop :=
  ∃ factor left right, scalar = some factor ∧ operands[0]? = some left ∧
    operands[1]? = some right ∧
    List.Forall₂
      (fun pair image => image.Represents
        (toInt elementType factor * toInt elementType pair.1 + toInt elementType pair.2))
      (left.zip right) result

def CombinesIntegerMatrices (value : Int → Int → Int) : Prop :=
  ∃ form leftForm rightForm left right, output.matrixForm = .ok form ∧
    IsMatrix inputs operands 0 leftForm left ∧ IsMatrix inputs operands 1 rightForm right ∧
    (leftForm.rows = form.rows ∧ leftForm.columns = form.columns) ∧
    (rightForm.rows = form.rows ∧ rightForm.columns = form.columns) ∧
    form.RepresentsEntries result fun row column =>
      value (leftForm.integerAt left row column) (rightForm.integerAt right row column)

def MultipliesIntegerMatrices : Prop :=
  ∃ form leftForm rightForm left right, output.matrixForm = .ok form ∧
    IsMatrix inputs operands 0 leftForm left ∧ IsMatrix inputs operands 1 rightForm right ∧
    leftForm.columns = rightForm.rows ∧ form.rows = leftForm.rows ∧
    form.columns = rightForm.columns ∧
    form.RepresentsEntries result fun row column =>
      ((List.range leftForm.columns).map fun position =>
        leftForm.integerAt left row position * rightForm.integerAt right position column).sum

def MultipliesIntegerArray : Prop :=
  ∃ form matrix array, IsMatrix inputs operands 0 form matrix ∧ operands[1]? = some array ∧
    array.length = form.columns ∧
    List.Forall₂
      (fun row image => image.Represents
        ((List.range form.columns).map fun column =>
          form.integerAt matrix row column * toInt elementType (array[column]?.getD 0)).sum)
      (List.range form.rows) result

def AddsIntegerArray : Prop :=
  ∃ form matrixForm matrix array, output.matrixForm = .ok form ∧
    IsMatrix inputs operands 0 matrixForm matrix ∧ operands[1]? = some array ∧
    array.length = matrixForm.columns ∧ form.rows = matrixForm.rows ∧
    form.columns = matrixForm.columns ∧
    form.RepresentsEntries result fun row column =>
      matrixForm.integerAt matrix row column + toInt elementType (array[column]?.getD 0)

/-- What an operation makes of the integers of its operands, up to multiples of the number of
elements. Nothing wraps around here. -/
def MeansOverIntegers : OperationKind → Prop
  | .elementAdd => CombinesIntegers operands result List.sum
  | .elementSub => CombinesIntegers operands result difference
  | .elementMul => CombinesIntegers operands result List.prod
  | .scalarAdd => MapsIntegers scalar operands result fun value constant => value + constant
  | .scalarSub => MapsIntegers scalar operands result fun value constant => value - constant
  | .scalarMul => MapsIntegers scalar operands result fun value constant => value * constant
  | .arrayAxpy => ScalesIntegers scalar operands result
  | .arraySum => ∃ operand total, operands[0]? = some operand ∧ result = [total] ∧
      total.Represents (operand.map (toInt elementType)).sum
  | .matrixAdd =>
      CombinesIntegerMatrices inputs output operands result fun left right => left + right
  | .matrixSub =>
      CombinesIntegerMatrices inputs output operands result fun left right => left - right
  | .matrixMul => MultipliesIntegerMatrices inputs output operands result
  | .matrixArrayMul => MultipliesIntegerArray inputs operands result
  | .matrixArrayAdd => AddsIntegerArray inputs output operands result
  | _ => False

end Integers

section Shapes

variable {α : Type}

def ShapesMatch (scalar : Option α) (inputs outputs : List Tensor) (operands : List (List α))
    (output : List α) : OperationKind → Prop
  | .elementAdd | .elementSub | .elementMul =>
      operands ≠ [] ∧ ∀ operand ∈ operands, operand.length = output.length
  | .scalarAdd | .scalarSub | .scalarMul =>
      scalar.isSome ∧ operands[0]?.map List.length = some output.length
  | .arrayAxpy =>
      scalar.isSome ∧ operands[0]?.map List.length = some output.length ∧
        operands[1]?.map List.length = some output.length
  | .arraySum => operands ≠ [] ∧ output.length = 1
  | .matrixAdd => DimensionsMatch inputs outputs ⟨operands, [output]⟩ .matrixAdd
  | .matrixSub => DimensionsMatch inputs outputs ⟨operands, [output]⟩ .matrixSub
  | .matrixMul => DimensionsMatch inputs outputs ⟨operands, [output]⟩ .matrixMul
  | .matrixArrayMul => DimensionsMatch inputs outputs ⟨operands, [output]⟩ .matrixArrayMul
  | .matrixArrayAdd => DimensionsMatch inputs outputs ⟨operands, [output]⟩ .matrixArrayAdd
  | _ => False

variable {arithmetic : Arithmetic α} {scalar : Option α} {inputs outputs : List Tensor}
  {operands : List (List α)} {output : List α} {kind : OperationKind}

theorem fold_finished (function : α → α → α) (listed : operands ≠ [])
    (lengths : ∀ operand ∈ operands, operand.length = output.length) :
    (fold (faultless function) operands output).fault = none := by
  by_contra stopped
  obtain ⟨fault, stopped⟩ := Option.ne_none_iff_exists'.mp stopped
  have held : 1 ≤ operands.length := List.length_pos_iff.mpr listed
  obtain ⟨_, operand, member, unlike⟩ := mismatch_of_faultless_fold held stopped
  exact unlike (lengths operand member)

theorem withScalar_finished (function : α → α → α) (given : scalar.isSome)
    (length : operands[0]?.map List.length = some output.length) :
    (withScalar (faultless function) scalar operands output).fault = none := by
  obtain ⟨constant, rfl⟩ := Option.isSome_iff_exists.mp given
  obtain ⟨operand, found, length⟩ := Option.map_eq_some_iff.mp length
  have held : 1 ≤ operands.length := (List.getElem?_eq_some_iff.mp found).1
  by_contra stopped
  obtain ⟨fault, stopped⟩ := Option.ne_none_iff_exists'.mp stopped
  rcases exists_of_mapOperand_fault held stopped with
    ⟨_, other, otherFound, unlike⟩ | ⟨_, _, _, _, ⟨⟩⟩
  rw [found] at otherFound
  cases otherFound
  exact unlike length

theorem axpy_finished (given : scalar.isSome)
    (leftLength : operands[0]?.map List.length = some output.length)
    (rightLength : operands[1]?.map List.length = some output.length) :
    (axpy arithmetic scalar operands output).fault = none := by
  obtain ⟨factor, rfl⟩ := Option.isSome_iff_exists.mp given
  obtain ⟨left, leftFound⟩ := Option.map_eq_some_iff.mp leftLength
  obtain ⟨right, rightFound⟩ := Option.map_eq_some_iff.mp rightLength
  refine ofExcept_finished ?_
  simp only [requireScalar, operandOfLength_ok_iff.mpr leftFound,
    operandOfLength_ok_iff.mpr rightFound, bind, Except.bind]
  exact ⟨_, rfl⟩

theorem sum_finished (listed : operands ≠ []) (single : output.length = 1) :
    (reduce (fun elements => .ok (sum arithmetic elements)) operands output).fault = none := by
  by_contra stopped
  obtain ⟨fault, stopped⟩ := Option.ne_none_iff_exists'.mp stopped
  have held : 1 ≤ operands.length := List.length_pos_iff.mpr listed
  rcases exists_of_reduce_fault held stopped with ⟨_, several⟩ | ⟨_, _, ⟨⟩⟩
  exact several single

theorem finished_of_shapesMatch (held : operands.length = inputs.length)
    (matching : ShapesMatch scalar inputs outputs operands output kind) :
    (primary arithmetic scalar kind inputs outputs operands output).fault = none := by
  have head : [output][0]? = some output := rfl
  cases kind with
  | elementAdd | elementSub | elementMul => exact fold_finished _ matching.1 matching.2
  | scalarAdd | scalarSub | scalarMul => exact withScalar_finished _ matching.1 matching.2
  | arrayAxpy => exact axpy_finished matching.1 matching.2.1 matching.2.2
  | arraySum => exact sum_finished matching.1 matching.2
  | matrixAdd | matrixSub | matrixMul | matrixArrayMul | matrixArrayAdd =>
      exact finished_of_dimensionsMatch held head matching
  | _ => exact matching.elim

end Shapes

section Representation

variable {arithmetic : Arithmetic (Element elementType)} {scalar : Option (Element elementType)}
  {inputs : List Tensor} {target : Tensor} {operands : List (List (Element elementType))}
  {result : List (Element elementType)} {kind : OperationKind}
  {function : Element elementType → Element elementType → Element elementType}
  {exact : Int → Int → Int}

theorem combinesIntegers_of_combinesTo {value : List Int → Int}
    (agrees : ∀ {left right : Element elementType} {leftValue rightValue : Int},
      left.Represents leftValue → right.Represents rightValue →
        (function left right).Represents (exact leftValue rightValue))
    (folds : ∀ first rest, rest.foldl exact first = value (first :: rest))
    (combines : CombinesTo (fun left right => some (function left right)) operands result) :
    CombinesIntegers operands result value := by
  intro position element found
  obtain ⟨first, rest, listed, folded⟩ := combines.2 position element found
  have finished : rest.foldlM (fun left right => some (function left right)) first =
      some (rest.foldl function first) := List.foldlM_pure
  rw [finished] at folded
  cases folded
  rw [integersAt, listed, List.map_cons, ← folds, List.foldl_map]
  exact Represents.foldl agrees Element.represents_toInt (Element.represents_toInt first) rest

theorem mapsIntegers_of_mapsTo
    (agrees : ∀ {left right : Element elementType} {leftValue rightValue : Int},
      left.Represents leftValue → right.Represents rightValue →
        (function left right).Represents (exact leftValue rightValue))
    (maps : ∃ constant, scalar = some constant ∧
      MapsTo (fun element => some (function element constant)) operands result) :
    MapsIntegers scalar operands result exact := by
  obtain ⟨constant, given, operand, found, related⟩ := maps
  refine ⟨constant, operand, given, found, related.imp fun element image computed => ?_⟩
  cases computed
  exact agrees (Element.represents_toInt element) (Element.represents_toInt constant)

theorem represents_sumOfProducts (wrapsAround : arithmetic.WrapsAround elementType) (count : Nat)
    (left right : Nat → Element elementType) :
    (sumOfProducts arithmetic count left right).Represents
      ((List.range count).map fun position =>
        toInt elementType (left position) * toInt elementType (right position)).sum := by
  have starts : arithmetic.zero.Represents 0 := wrapsAround.zero_eq ▸ Element.represents_zero
  have products (position : Nat) :
      (arithmetic.mul (left position) (right position)).Represents
        (toInt elementType (left position) * toInt elementType (right position)) :=
    wrapsAround.represents_mul (Element.represents_toInt _) (Element.represents_toInt _)
  rw [← Int.zero_add (List.sum _), ← List.sum_cons, ← foldl_add, List.foldl_map]
  exact Represents.foldl wrapsAround.represents_add products starts (List.range count)

theorem scalesIntegers_of_axpy (wrapsAround : arithmetic.WrapsAround elementType)
    (means : Means arithmetic scalar inputs target operands result .arrayAxpy) :
    ScalesIntegers scalar operands result := by
  obtain ⟨factor, left, right, given, leftFound, rightFound, _, rfl⟩ := means
  refine ⟨factor, left, right, given, leftFound, rightFound, ?_⟩
  rw [← List.map_uncurry_zip_eq_zipWith, List.forall₂_map_right_iff, List.forall₂_same]
  intro pair _
  exact wrapsAround.represents_add
    (wrapsAround.represents_mul (Element.represents_toInt _) (Element.represents_toInt _))
    (Element.represents_toInt _)

theorem combinesIntegerMatrices_of_means (zero : arithmetic.zero = 0)
    (agrees : ∀ {left right : Element elementType} {leftValue rightValue : Int},
      left.Represents leftValue → right.Represents rightValue →
        (function left right).Represents (exact leftValue rightValue))
    (combines : CombinesMatrices arithmetic inputs target operands result function) :
    CombinesIntegerMatrices inputs target operands result exact := by
  obtain ⟨form, leftForm, rightForm, left, right, isForm, isLeft, isRight, leftAlike, rightAlike,
    holds⟩ := combines
  rw [zero] at holds
  refine ⟨form, leftForm, rightForm, left, right, isForm, isLeft, isRight, leftAlike, rightAlike,
    holds.representsEntries fun row column => ?_⟩
  exact agrees (Element.represents_toInt _) (Element.represents_toInt _)

theorem multipliesIntegerMatrices_of_means (wrapsAround : arithmetic.WrapsAround elementType)
    (multiplies : MultipliesMatrices arithmetic inputs target operands result) :
    MultipliesIntegerMatrices inputs target operands result := by
  obtain ⟨form, leftForm, rightForm, left, right, isForm, isLeft, isRight, inner, rows, columns,
    holds⟩ := multiplies
  rw [wrapsAround.zero_eq] at holds
  refine ⟨form, leftForm, rightForm, left, right, isForm, isLeft, isRight, inner, rows, columns,
    holds.representsEntries fun row column => ?_⟩
  exact represents_sumOfProducts wrapsAround _ _ _

theorem multipliesIntegerArray_of_means (wrapsAround : arithmetic.WrapsAround elementType)
    (multiplies : MultipliesArray arithmetic inputs operands result) :
    MultipliesIntegerArray inputs operands result := by
  obtain ⟨form, matrix, array, isMatrix, found, length, rfl⟩ := multiplies
  refine ⟨form, matrix, array, isMatrix, found, length, ?_⟩
  rw [List.forall₂_map_right_iff, List.forall₂_same, wrapsAround.zero_eq]
  intro row _
  exact represents_sumOfProducts wrapsAround _ _ _

theorem addsIntegerArray_of_means (wrapsAround : arithmetic.WrapsAround elementType)
    (adds : AddsArray arithmetic inputs target operands result) :
    AddsIntegerArray inputs target operands result := by
  obtain ⟨form, matrixForm, matrix, array, isForm, isMatrix, found, length, rows, columns, holds⟩ :=
    adds
  rw [wrapsAround.zero_eq] at holds
  refine ⟨form, matrixForm, matrix, array, isForm, isMatrix, found, length, rows, columns,
    holds.representsEntries fun row column => ?_⟩
  exact wrapsAround.represents_add (Element.represents_toInt _) (Element.represents_toInt _)

theorem meansOverIntegers_of_means (wrapsAround : arithmetic.WrapsAround elementType)
    {outputs : List Tensor} {output : List (Element elementType)}
    (matching : ShapesMatch scalar inputs outputs operands output kind)
    (means : Means arithmetic scalar inputs target operands result kind) :
    MeansOverIntegers scalar inputs target operands result kind := by
  have zero := wrapsAround.zero_eq
  cases kind with
  | elementAdd => exact combinesIntegers_of_combinesTo wrapsAround.represents_add foldl_add means
  | elementSub => exact combinesIntegers_of_combinesTo wrapsAround.represents_sub foldl_sub means
  | elementMul => exact combinesIntegers_of_combinesTo wrapsAround.represents_mul foldl_mul means
  | scalarAdd => exact mapsIntegers_of_mapsTo wrapsAround.represents_add means
  | scalarSub => exact mapsIntegers_of_mapsTo wrapsAround.represents_sub means
  | scalarMul => exact mapsIntegers_of_mapsTo wrapsAround.represents_mul means
  | arrayAxpy => exact scalesIntegers_of_axpy wrapsAround means
  | arraySum =>
      obtain ⟨operand, found, computed⟩ := means
      exact ⟨operand, _, found, computed, Element.represents_iff.mpr (wrapsAround.sum_eq operand)⟩
  | matrixAdd => exact combinesIntegerMatrices_of_means zero wrapsAround.represents_add means
  | matrixSub => exact combinesIntegerMatrices_of_means zero wrapsAround.represents_sub means
  | matrixMul => exact multipliesIntegerMatrices_of_means wrapsAround means
  | matrixArrayMul => exact multipliesIntegerArray_of_means wrapsAround means
  | matrixArrayAdd => exact addsIntegerArray_of_means wrapsAround means
  | _ => exact matching.elim

end Representation

section Order

variable {arithmetic : Arithmetic (Element elementType)}
  {function : Element elementType → Element elementType → Element elementType}
  {exact : Int → Int → Int} {value : List Int → Int}
  {operands others : List (List (Element elementType))} {output : List (Element elementType)}

theorem integersAt_perm (permuted : others.Perm operands) (position : Nat) :
    (integersAt others position).Perm (integersAt operands position) :=
  (permuted.filterMap _).map _

theorem fold_eq_of_perm
    (agrees : ∀ {left right : Element elementType} {leftValue rightValue : Int},
      left.Represents leftValue → right.Represents rightValue →
        (function left right).Represents (exact leftValue rightValue))
    (folds : ∀ first rest, rest.foldl exact first = value (first :: rest))
    (symmetric : ∀ {left right : List Int}, left.Perm right → value left = value right)
    (listed : operands ≠ []) (lengths : ∀ operand ∈ operands, operand.length = output.length)
    (permuted : others.Perm operands) :
    fold (faultless function) others output = fold (faultless function) operands output := by
  have finished := fold_finished function listed lengths
  have otherFinished : (fold (faultless function) others output).fault = none :=
    fold_finished function (mt (fun empty => (empty ▸ permuted).nil_eq.symm) listed)
      fun operand member => lengths operand (permuted.mem_iff.mp member)
  have combines := combinesTo_of_fold eq_of_faultless finished
  have otherCombines := combinesTo_of_fold eq_of_faultless otherFinished
  have same : (fold (faultless function) others output).contents.length =
      (fold (faultless function) operands output).contents.length := by
    obtain ⟨operand, member⟩ := List.exists_mem_of_ne_nil _ listed
    rw [← combines.1 operand member, ← otherCombines.1 operand (permuted.mem_iff.mpr member)]
  refine Progress.eq_of_finished otherFinished finished (List.ext_getElem same ?_)
  intro position otherBound bound
  have represents := combinesIntegers_of_combinesTo agrees folds combines position _
    (List.getElem?_eq_getElem bound)
  have otherRepresents := combinesIntegers_of_combinesTo agrees folds otherCombines position _
    (List.getElem?_eq_getElem otherBound)
  rw [symmetric (integersAt_perm permuted position)] at otherRepresents
  exact otherRepresents.unique represents

end Order

end Kernel

namespace KernelCall

def withInputs (call : KernelCall elementType) (inputs : List Tensor)
    (operands : List (List (Element elementType))) : KernelCall elementType :=
  { call with inputs, contents := ⟨operands, call.contents.outputs⟩ }

variable {call : KernelCall elementType} {arithmetic : Arithmetic (Element elementType)}
  {first : Tensor} {output : List (Element elementType)}

theorem WritesFirst.withInputs (writes : call.WritesFirst first output) (inputs : List Tensor)
    (operands : List (List (Element elementType))) :
    (call.withInputs inputs operands).WritesFirst first output :=
  ⟨writes.tensor, writes.contents, writes.counted⟩

theorem course_withInputs_of_perm (wrapsAround : arithmetic.WrapsAround elementType)
    (commutes : call.kind = .elementAdd ∨ call.kind = .elementMul)
    (matching : Kernel.ShapesMatch (call.parameters.scalar? elementType) call.inputs call.outputs
      call.contents.inputs output call.kind)
    (inputs : List Tensor) {operands : List (List (Element elementType))}
    (permuted : operands.Perm call.contents.inputs) :
    (call.withInputs inputs operands).course arithmetic output = call.course arithmetic output := by
  rw [course, course, withInputs]
  rcases commutes with isSum | isProduct
  · rw [isSum] at matching ⊢
    exact Kernel.fold_eq_of_perm wrapsAround.represents_add foldl_add List.Perm.sum_eq matching.1
      matching.2 permuted
  · rw [isProduct] at matching ⊢
    exact Kernel.fold_eq_of_perm wrapsAround.represents_mul foldl_mul List.Perm.prod_eq matching.1
      matching.2 permuted

/-- Kernels that add, subtract and multiply finish on operands of the right shapes. Each element of
their results stands for what the operation makes of the integers, less some multiple of the number
of elements. So nothing is lost where an intermediate result wraps around, and sums and products do
not depend on the order of the operands. -/
theorem modular_outcome (isInteger : elementType.isFloat = false) (sized : call.Sized)
    (writes : call.WritesFirst first output) (mirrored : call.Mirrored)
    (matching : Kernel.ShapesMatch (call.parameters.scalar? elementType) call.inputs call.outputs
      call.contents.inputs output call.kind) :
    (KernelSet.standardExecute elementType call).error = none ∧
    (∃ result, (KernelSet.standardExecute elementType call).outputs =
        call.outputs.map (fun _ => result) ∧
      result.length = output.length ∧
      Kernel.MeansOverIntegers (call.parameters.scalar? elementType) call.inputs first
        call.contents.inputs result call.kind) ∧
    (call.kind = .elementAdd ∨ call.kind = .elementMul →
      ∀ (inputs : List Tensor) (operands : List (List (Element elementType))),
        operands.Perm call.contents.inputs →
        KernelSet.standardExecute elementType (call.withInputs inputs operands) =
          KernelSet.standardExecute elementType call) := by
  obtain ⟨arithmetic, known⟩ : ∃ arithmetic, elementType.arithmetic = some arithmetic :=
    ⟨_, ElementType.arithmetic_of_integer isInteger⟩
  have wrapsAround := Arithmetic.wrapsAround_of_integer isInteger known
  have course : (call.course arithmetic output).fault = none :=
    Kernel.finished_of_shapesMatch sized.inputs.length_eq.symm matching
  have finished := (error_eq_none_iff known writes).mpr ⟨course, mirrored⟩
  refine ⟨finished, ?_, fun commutes inputs operands permuted => ?_⟩
  · obtain ⟨length, means⟩ := course_of_finished sized writes course
    exact ⟨_, outputs_of_finished known writes finished, length,
      Kernel.meansOverIntegers_of_means wrapsAround matching means⟩
  · have same := course_withInputs_of_perm wrapsAround commutes matching inputs permuted
    have otherWrites := writes.withInputs inputs operands
    have otherFinished := (error_eq_none_iff known otherWrites).mpr ⟨same ▸ course, mirrored⟩
    have outputs := outputs_of_finished known otherWrites otherFinished
    rw [same] at outputs
    exact (KernelOutcome.mk.injEq ..).mpr
      ⟨outputs.trans (outputs_of_finished known writes finished).symm,
        otherFinished.trans finished.symm⟩

def wideProductsCall : KernelCall .i8 :=
  .ofArrays .i8 .elementMul .empty [[100, 7], [100, -3], [-2, 2]] [[0, 0]]

theorem modular_outcome_wide_products :
    (∃ result, (KernelSet.standardExecute .i8 wideProductsCall).outputs = [result] ∧
      Kernel.CombinesIntegers wideProductsCall.contents.inputs result List.prod) ∧
    ∀ inputs, KernelSet.standardExecute .i8
        (wideProductsCall.withInputs inputs [[-2, 2], [100, 7], [100, -3]]) =
      KernelSet.standardExecute .i8 wideProductsCall := by
  have sized : wideProductsCall.Sized := ⟨.cons rfl (.cons rfl (.cons rfl .nil)), .cons rfl .nil⟩
  have writes : wideProductsCall.WritesFirst (ofArrays.array .i8 [0, 0]) [0, 0] := ⟨rfl, rfl, rfl⟩
  have mirrored : wideProductsCall.Mirrored := by
    rintro first ⟨⟩
    decide
  have matching : Kernel.ShapesMatch (wideProductsCall.parameters.scalar? .i8)
      wideProductsCall.inputs wideProductsCall.outputs wideProductsCall.contents.inputs [0, 0]
      .elementMul := by
    refine ⟨List.cons_ne_nil _ _, ?_⟩
    decide
  obtain ⟨_, ⟨result, outputs, _, means⟩, reordered⟩ :=
    modular_outcome rfl sized writes mirrored matching
  refine ⟨⟨result, outputs, means⟩, fun inputs => reordered (Or.inr rfl) inputs _ ?_⟩
  decide

end KernelCall

end TensorGraph
