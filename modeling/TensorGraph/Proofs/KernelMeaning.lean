import Mathlib.Data.List.Basic
import TensorGraph.Kernel.Standard
import TensorGraph.Proofs.Results

/-!
What operations mean: what an output holds, position by position or entry by entry, in terms of the
kind of the operation, its scalar and its operands. The meaning leaves no choice.
-/

namespace TensorGraph

namespace Layout

theorem offset_coordinates (layout : Layout) {rows columns position : Nat}
    (bound : position < rows * columns) :
    ∃ row column, row < rows ∧ column < columns ∧
      layout.offset rows columns row column = position := by
  cases layout with
  | rowMajor =>
      have columnsPos : 0 < columns := Nat.pos_of_mul_pos_left (Nat.lt_of_le_of_lt (by omega) bound)
      refine ⟨position / columns, position % columns, ?_, Nat.mod_lt _ columnsPos, ?_⟩
      · rwa [Nat.div_lt_iff_lt_mul columnsPos]
      · rw [offset, Nat.mul_comm]
        exact Nat.div_add_mod _ _
  | colMajor =>
      have rowsPos : 0 < rows := Nat.pos_of_mul_pos_right (Nat.lt_of_le_of_lt (by omega) bound)
      refine ⟨position % rows, position / rows, Nat.mod_lt _ rowsPos, ?_, ?_⟩
      · rwa [Nat.div_lt_iff_lt_mul rowsPos, Nat.mul_comm]
      · rw [offset, Nat.mul_comm]
        exact Nat.div_add_mod _ _

end Layout

namespace MatrixForm

variable {α : Type}

def Holds (form : MatrixForm) (absent : α) (contents : List α) (value : Nat → Nat → α) : Prop :=
  contents.length = form.rows * form.columns ∧
    ∀ row < form.rows, ∀ column < form.columns,
      form.entry absent contents row column = value row column

theorem holds_fill (form : MatrixForm) (absent : α) (value : Nat → Nat → α) {before : List α}
    (length : before.length = form.rows * form.columns) :
    form.Holds absent (form.fill value before) value := by
  refine ⟨by rw [fill, List.length_mapIdx, length], ?_⟩
  intro row rowBound column columnBound
  have bound := form.layout.offset_lt rowBound columnBound
  have place := form.layout.coordinates_offset rowBound columnBound
  rw [entry, fill, List.getElem?_mapIdx, List.getElem?_eq_getElem (by rwa [length])]
  simp [bound, place]

theorem Holds.unique {form : MatrixForm} {absent : α} {contents others : List α}
    {value : Nat → Nat → α} (holds : form.Holds absent contents value)
    (othersHold : form.Holds absent others value) : contents = others := by
  refine List.ext_getElem (holds.1.trans othersHold.1.symm) fun position bound otherBound => ?_
  obtain ⟨row, column, rowBound, columnBound, same⟩ :=
    form.layout.offset_coordinates (holds.1 ▸ bound)
  have equal := (holds.2 row rowBound column columnBound).trans
    (othersHold.2 row rowBound column columnBound).symm
  rw [entry, entry, same, List.getElem?_eq_getElem bound, List.getElem?_eq_getElem otherBound]
    at equal
  exact equal

end MatrixForm

namespace Kernel

variable {α : Type}

def column (operands : List (List α)) (position : Nat) : List α :=
  operands.filterMap fun operand => operand[position]?

theorem column_cons {operand : List α} {operands : List (List α)} {position : Nat} {element : α}
    (found : operand[position]? = some element) :
    column (operand :: operands) position = element :: column operands position :=
  @List.filterMap_cons_some _ _ (fun operand : List α => operand[position]?) operand operands
    element found

def CombinesTo (function : α → α → Option α) (operands : List (List α)) (result : List α) : Prop :=
  (∀ operand ∈ operands, operand.length = result.length) ∧
    ∀ position element, result[position]? = some element →
      ∃ first rest, column operands position = first :: rest ∧
        rest.foldlM function first = some element

def MapsTo (function : α → Option α) (operands : List (List α)) (result : List α) : Prop :=
  ∃ operand, operands[0]? = some operand ∧
    List.Forall₂ (fun element value => function element = some value) operand result

def IsMatrix (inputs : List Tensor) (operands : List (List α)) (position : Nat) (form : MatrixForm)
    (contents : List α) : Prop :=
  ∃ tensor, inputs[position]? = some tensor ∧ tensor.matrixForm = .ok form ∧
    operands[position]? = some contents ∧ contents.length = form.rows * form.columns

section Yields

variable (arithmetic : Arithmetic α) (scalar : Option α) (inputs : List Tensor) (output : Tensor)
  (operands : List (List α)) (result : List α)

def CombinesMatrices (function : α → α → α) : Prop :=
  ∃ form leftForm rightForm left right, output.matrixForm = .ok form ∧
    IsMatrix inputs operands 0 leftForm left ∧ IsMatrix inputs operands 1 rightForm right ∧
    (leftForm.rows = form.rows ∧ leftForm.columns = form.columns) ∧
    (rightForm.rows = form.rows ∧ rightForm.columns = form.columns) ∧
    form.Holds arithmetic.zero result fun row column =>
      function (leftForm.entry arithmetic.zero left row column)
        (rightForm.entry arithmetic.zero right row column)

def Transposes : Prop :=
  ∃ form operandForm operand, output.matrixForm = .ok form ∧
    IsMatrix inputs operands 0 operandForm operand ∧ form.rows = operandForm.columns ∧
    form.columns = operandForm.rows ∧
    form.Holds arithmetic.zero result fun row column =>
      operandForm.entry arithmetic.zero operand column row

def MultipliesMatrices : Prop :=
  ∃ form leftForm rightForm left right, output.matrixForm = .ok form ∧
    IsMatrix inputs operands 0 leftForm left ∧ IsMatrix inputs operands 1 rightForm right ∧
    leftForm.columns = rightForm.rows ∧ form.rows = leftForm.rows ∧
    form.columns = rightForm.columns ∧
    form.Holds arithmetic.zero result fun row column =>
      sumOfProducts arithmetic leftForm.columns
        (fun position => leftForm.entry arithmetic.zero left row position)
        (fun position => rightForm.entry arithmetic.zero right position column)

def MultipliesArray : Prop :=
  ∃ form matrix array, IsMatrix inputs operands 0 form matrix ∧ operands[1]? = some array ∧
    array.length = form.columns ∧
    result = (List.range form.rows).map fun row =>
      sumOfProducts arithmetic form.columns
        (fun column => form.entry arithmetic.zero matrix row column)
        (fun column => array[column]?.getD arithmetic.zero)

def AddsArray : Prop :=
  ∃ form matrixForm matrix array, output.matrixForm = .ok form ∧
    IsMatrix inputs operands 0 matrixForm matrix ∧ operands[1]? = some array ∧
    array.length = matrixForm.columns ∧ form.rows = matrixForm.rows ∧
    form.columns = matrixForm.columns ∧
    form.Holds arithmetic.zero result fun row column =>
      arithmetic.add (matrixForm.entry arithmetic.zero matrix row column)
        (array[column]?.getD arithmetic.zero)

/-- What an operation of a kind makes of its operands for an output. -/
def Means : OperationKind → Prop
  | .elementAdd => CombinesTo (fun left right => some (arithmetic.add left right)) operands result
  | .elementSub => CombinesTo (fun left right => some (arithmetic.sub left right)) operands result
  | .elementMul => CombinesTo (fun left right => some (arithmetic.mul left right)) operands result
  | .elementDiv => CombinesTo arithmetic.divide? operands result
  | .fill => ∃ value, scalar = some value ∧ ∀ element ∈ result, element = value
  | .copy => operands[0]? = some result
  | .exp => MapsTo (arithmetic.unary? .exp) operands result
  | .sin => MapsTo (arithmetic.unary? .sin) operands result
  | .cos => MapsTo (arithmetic.unary? .cos) operands result
  | .abs => MapsTo (arithmetic.unary? .abs) operands result
  | .scalarAdd => ∃ value, scalar = some value ∧
      MapsTo (fun element => some (arithmetic.add element value)) operands result
  | .scalarSub => ∃ value, scalar = some value ∧
      MapsTo (fun element => some (arithmetic.sub element value)) operands result
  | .scalarMul => ∃ value, scalar = some value ∧
      MapsTo (fun element => some (arithmetic.mul element value)) operands result
  | .scalarDiv => ∃ value, scalar = some value ∧
      MapsTo (fun element => arithmetic.divide? element value) operands result
  | .arrayAxpy => ∃ factor left right, scalar = some factor ∧ operands[0]? = some left ∧
      operands[1]? = some right ∧ left.length = right.length ∧
      result = List.zipWith
        (fun element addend => arithmetic.add (arithmetic.mul factor element) addend) left right
  | .arraySum => ∃ operand, operands[0]? = some operand ∧ result = [sum arithmetic operand]
  | .arrayMean => ∃ operand quotient, operands[0]? = some operand ∧
      arithmetic.divide? (sum arithmetic operand) (arithmetic.ofCount operand.length) =
        some quotient ∧
      result = [quotient]
  | .matrixAdd => CombinesMatrices arithmetic inputs output operands result arithmetic.add
  | .matrixSub => CombinesMatrices arithmetic inputs output operands result arithmetic.sub
  | .matrixTranspose => Transposes arithmetic inputs output operands result
  | .matrixMul => MultipliesMatrices arithmetic inputs output operands result
  | .matrixArrayMul => MultipliesArray arithmetic inputs operands result
  | .matrixArrayAdd => AddsArray arithmetic inputs output operands result
  | .elementRandom | .matrixInverse | .group _ | .zero | .identity => False

def Yields (kind : OperationKind) : Prop :=
  result.length = output.elementCount ∧
    Means arithmetic scalar inputs output operands result kind

end Yields

section Uniqueness

variable {arithmetic : Arithmetic α} {scalar : Option α} {kind : OperationKind}
  {inputs : List Tensor} {output : Tensor} {operands : List (List α)} {result other : List α}

theorem CombinesTo.unique {function : α → α → Option α} (same : result.length = other.length)
    (combines : CombinesTo function operands result)
    (otherCombines : CombinesTo function operands other) : result = other := by
  refine List.ext_getElem same fun position bound otherBound => ?_
  obtain ⟨first, rest, listed, folded⟩ :=
    combines.2 position _ (List.getElem?_eq_getElem bound)
  obtain ⟨otherFirst, otherRest, otherListed, otherFolded⟩ :=
    otherCombines.2 position _ (List.getElem?_eq_getElem otherBound)
  rw [listed] at otherListed
  cases otherListed
  exact Option.some.inj (folded.symm.trans otherFolded)

theorem MapsTo.unique {function : α → Option α} (maps : MapsTo function operands result)
    (otherMaps : MapsTo function operands other) : result = other := by
  obtain ⟨operand, found, related⟩ := maps
  obtain ⟨_, otherFound, otherRelated⟩ := otherMaps
  rw [found] at otherFound
  cases otherFound
  have mapped := mapM_eq_some_iff.mpr related
  rw [mapM_eq_some_iff.mpr otherRelated] at mapped
  exact (Option.some.inj mapped).symm

theorem exists_mapsTo_unique {function : α → α → Option α}
    (maps : ∃ value, scalar = some value ∧ MapsTo (fun element => function element value)
      operands result)
    (otherMaps : ∃ value, scalar = some value ∧ MapsTo (fun element => function element value)
      operands other) : result = other := by
  obtain ⟨value, given, maps⟩ := maps
  obtain ⟨_, sameGiven, otherMaps⟩ := otherMaps
  rw [given] at sameGiven
  cases sameGiven
  exact maps.unique otherMaps

theorem IsMatrix.unique {position : Nat} {form otherForm : MatrixForm} {contents others : List α}
    (isMatrix : IsMatrix inputs operands position form contents)
    (otherIsMatrix : IsMatrix inputs operands position otherForm others) :
    form = otherForm ∧ contents = others := by
  obtain ⟨tensor, listed, isForm, found, _⟩ := isMatrix
  obtain ⟨_, otherListed, otherIsForm, otherFound, _⟩ := otherIsMatrix
  rw [listed] at otherListed
  cases otherListed
  rw [isForm] at otherIsForm
  rw [found] at otherFound
  exact ⟨Except.ok.inj otherIsForm, Option.some.inj otherFound⟩

theorem CombinesMatrices.unique {function : α → α → α}
    (combines : CombinesMatrices arithmetic inputs output operands result function)
    (otherCombines : CombinesMatrices arithmetic inputs output operands other function) :
    result = other := by
  obtain ⟨form, leftForm, rightForm, left, right, isForm, isLeft, isRight, _, _, holds⟩ := combines
  obtain ⟨_, _, _, _, _, otherForm, otherLeft, otherRight, _, _, otherHolds⟩ := otherCombines
  rw [isForm] at otherForm
  cases otherForm
  obtain ⟨rfl, rfl⟩ := isLeft.unique otherLeft
  obtain ⟨rfl, rfl⟩ := isRight.unique otherRight
  exact holds.unique otherHolds

theorem Transposes.unique (transposes : Transposes arithmetic inputs output operands result)
    (otherTransposes : Transposes arithmetic inputs output operands other) : result = other := by
  obtain ⟨form, operandForm, operand, isForm, isMatrix, _, _, holds⟩ := transposes
  obtain ⟨_, _, _, otherForm, otherMatrix, _, _, otherHolds⟩ := otherTransposes
  rw [isForm] at otherForm
  cases otherForm
  obtain ⟨rfl, rfl⟩ := isMatrix.unique otherMatrix
  exact holds.unique otherHolds

theorem MultipliesMatrices.unique
    (multiplies : MultipliesMatrices arithmetic inputs output operands result)
    (otherMultiplies : MultipliesMatrices arithmetic inputs output operands other) :
    result = other := by
  obtain ⟨form, leftForm, rightForm, left, right, isForm, isLeft, isRight, _, _, _, holds⟩ :=
    multiplies
  obtain ⟨_, _, _, _, _, otherForm, otherLeft, otherRight, _, _, _, otherHolds⟩ := otherMultiplies
  rw [isForm] at otherForm
  cases otherForm
  obtain ⟨rfl, rfl⟩ := isLeft.unique otherLeft
  obtain ⟨rfl, rfl⟩ := isRight.unique otherRight
  exact holds.unique otherHolds

theorem MultipliesArray.unique (multiplies : MultipliesArray arithmetic inputs operands result)
    (otherMultiplies : MultipliesArray arithmetic inputs operands other) : result = other := by
  obtain ⟨form, matrix, array, isMatrix, found, _, computed⟩ := multiplies
  obtain ⟨_, _, _, otherMatrix, sameFound, _, otherComputed⟩ := otherMultiplies
  obtain ⟨rfl, rfl⟩ := isMatrix.unique otherMatrix
  rw [found] at sameFound
  cases sameFound
  exact computed.trans otherComputed.symm

theorem AddsArray.unique (adds : AddsArray arithmetic inputs output operands result)
    (otherAdds : AddsArray arithmetic inputs output operands other) : result = other := by
  obtain ⟨form, matrixForm, matrix, array, isForm, isMatrix, found, _, _, _, holds⟩ := adds
  obtain ⟨_, _, _, _, otherForm, otherMatrix, sameFound, _, _, _, otherHolds⟩ := otherAdds
  rw [isForm] at otherForm
  cases otherForm
  obtain ⟨rfl, rfl⟩ := isMatrix.unique otherMatrix
  rw [found] at sameFound
  cases sameFound
  exact holds.unique otherHolds

def matrixKinds : List OperationKind :=
  [.matrixAdd, .matrixSub, .matrixTranspose, .matrixMul, .matrixArrayMul, .matrixArrayAdd]

theorem Means.unique_of_matrixKind (isMatrixKind : kind ∈ matrixKinds)
    (means : Means arithmetic scalar inputs output operands result kind)
    (otherMeans : Means arithmetic scalar inputs output operands other kind) : result = other := by
  cases kind with
  | matrixAdd | matrixSub => exact CombinesMatrices.unique means otherMeans
  | matrixTranspose => exact Transposes.unique means otherMeans
  | matrixMul => exact MultipliesMatrices.unique means otherMeans
  | matrixArrayMul => exact MultipliesArray.unique means otherMeans
  | matrixArrayAdd => exact AddsArray.unique means otherMeans
  | _ => exact absurd isMatrixKind (by simp [matrixKinds])

theorem Yields.unique (yields : Yields arithmetic scalar inputs output operands result kind)
    (otherYields : Yields arithmetic scalar inputs output operands other kind) :
    result = other := by
  obtain ⟨length, means⟩ := yields
  obtain ⟨otherLength, otherMeans⟩ := otherYields
  have same := length.trans otherLength.symm
  cases kind with
  | elementAdd | elementSub | elementMul | elementDiv =>
      exact CombinesTo.unique same means otherMeans
  | fill =>
      obtain ⟨value, given, all⟩ := means
      obtain ⟨_, sameGiven, otherAll⟩ := otherMeans
      rw [given] at sameGiven
      cases sameGiven
      rw [List.eq_replicate_of_mem all, List.eq_replicate_of_mem otherAll, same]
  | copy => exact Option.some.inj (means.symm.trans otherMeans)
  | exp | sin | cos | abs => exact MapsTo.unique means otherMeans
  | scalarAdd | scalarSub | scalarMul | scalarDiv => exact exists_mapsTo_unique means otherMeans
  | arrayAxpy =>
      obtain ⟨factor, left, right, given, leftFound, rightFound, _, computed⟩ := means
      obtain ⟨_, _, _, sameGiven, sameLeft, sameRight, _, otherComputed⟩ := otherMeans
      rw [given] at sameGiven
      rw [leftFound] at sameLeft
      rw [rightFound] at sameRight
      cases sameGiven
      cases sameLeft
      cases sameRight
      exact computed.trans otherComputed.symm
  | arraySum =>
      obtain ⟨operand, found, computed⟩ := means
      obtain ⟨_, sameFound, otherComputed⟩ := otherMeans
      rw [found] at sameFound
      cases sameFound
      exact computed.trans otherComputed.symm
  | arrayMean =>
      obtain ⟨operand, quotient, found, divided, computed⟩ := means
      obtain ⟨_, _, sameFound, sameDivided, otherComputed⟩ := otherMeans
      rw [found] at sameFound
      cases sameFound
      rw [divided] at sameDivided
      cases sameDivided
      exact computed.trans otherComputed.symm
  | matrixAdd | matrixSub | matrixTranspose | matrixMul | matrixArrayMul | matrixArrayAdd =>
      exact Means.unique_of_matrixKind (by decide) means otherMeans
  | elementRandom | matrixInverse | group | zero | identity => exact means.elim

end Uniqueness

end Kernel

end TensorGraph
