import TensorGraph.Graph.Dot
import TensorGraph.Proofs.JsonTokens

/-!
Names in drawings. A name is put together from parts with an underscore between them. No part has an
underscore inside, so that a name tells its parts, and what it stands for, apart from all others.
-/

namespace TensorGraph

theorem toDigits_injective {first second : Nat}
    (same : Nat.toDigits 10 first = Nat.toDigits 10 second) : first = second := by
  rw [← @Nat.ofDigitChars_ten_toDigits first, same, Nat.ofDigitChars_ten_toDigits]

theorem toList_toString_id (id : UInt32) : (toString id).toList = Nat.toDigits 10 id.toNat := by
  change (toString id.toNat).toList = _
  simp

theorem intercalate_snoc (separator : Char) (parts : List (List Char)) (last : List Char) :
    [separator].intercalate (parts ++ [last]) =
      parts.flatMap (fun part => part ++ [separator]) ++ last := by
  induction parts with
  | nil => simp
  | cons part rest ih =>
      obtain ⟨next, others, same⟩ := List.exists_cons_of_ne_nil
        (List.append_ne_nil_of_right_ne_nil rest (List.cons_ne_nil last []))
      rw [List.cons_append, same, List.intercalate_cons_cons, ← same, ih, List.flatMap_cons,
        List.append_assoc _ _ last]

theorem intercalate_injective {separator : Char} {parts others : List (List Char)}
    (clean : ∀ part ∈ parts, separator ∉ part) (othersClean : ∀ part ∈ others, separator ∉ part)
    (filled : parts ≠ []) (othersFilled : others ≠ [])
    (same : [separator].intercalate parts = [separator].intercalate others) : parts = others := by
  rw [← List.splitOn_intercalate separator clean filled, same,
    List.splitOn_intercalate separator othersClean othersFilled]

theorem isAlphanum_of_mem_toDigits {number : Nat} {char : Char}
    (listed : char ∈ Nat.toDigits 10 number) : char.isAlphanum = true := by
  rw [Char.isAlphanum, Json.isDigit_of_mem_toDigits char listed, Bool.or_true]

theorem not_mem_of_isAlphanum {part : List Char} {char : Char} (other : char.isAlphanum = false)
    (plain : ∀ char ∈ part, char.isAlphanum = true) : char ∉ part := by
  intro inside
  rw [plain char inside] at other
  cases other

theorem not_mem_intercalate {separator char : Char} {parts : List (List Char)}
    (other : char ≠ separator) (outside : ∀ part ∈ parts, char ∉ part) :
    char ∉ [separator].intercalate parts := by
  induction parts with
  | nil => simp
  | cons part rest ih =>
      obtain ⟨notHere, notBehind⟩ := List.forall_mem_cons.mp outside
      cases rest with
      | nil => rwa [List.intercalate_singleton]
      | cons next rest =>
          rw [List.intercalate_cons_cons, List.mem_append, List.mem_append, List.mem_singleton]
          rintro ((inside | separates) | behind)
          · exact notHere inside
          · exact other separates
          · exact ih notBehind behind

namespace Graph

variable {graph other : Graph}

def tensorParts (id : TensorId) (position : Nat) : List (List Char) :=
  ['T' :: Nat.toDigits 10 id.toNat, Nat.toDigits 10 position]

def operationParts (id : OperationId) (position : Nat) : Slot → Option (List (List Char))
  | .free rank =>
      some ['O' :: 'P' :: Nat.toDigits 10 id.toNat, Nat.toDigits 10 position, Nat.toDigits 10 rank]
  | .member header pinned =>
      some ['O' :: 'P' :: Nat.toDigits 10 id.toNat, Nat.toDigits 10 position,
        Nat.toDigits 10 header, [if pinned then 't' else 'f']]
  | .header _ _ => none

theorem toList_tensorLabel (graph : Graph) (tensor : Nat) :
    (graph.tensorLabel tensor).toList =
      ['_'].intercalate (tensorParts (graph.tensorId tensor) tensor) := by
  have letter : (toString "T").toList = ['T'] := rfl
  have separator : (toString "_").toList = ['_'] := rfl
  simp [tensorLabel, tensorParts, letter, separator, toList_toString_id, List.intercalate]

theorem toList_operationLabel? (graph : Graph) (operation : Nat) :
    (graph.operationLabel? operation).map String.toList =
      (graph.slots[operation]?.bind (operationParts (graph.operationId operation) operation)).map
        ['_'].intercalate := by
  have letters : (toString "OP").toList = ['O', 'P'] := rfl
  have separator : (toString "_").toList = ['_'] := rfl
  have pinned : (toString "_t").toList = ['_', 't'] := rfl
  have movable : (toString "_f").toList = ['_', 'f'] := rfl
  rw [operationLabel?]
  cases graph.slots[operation]? with
  | none => rfl
  | some slot =>
      cases slot with
      | free rank =>
          simp [operationParts, letters, separator, toList_toString_id, List.intercalate]
      | header _ _ => rfl
      | member header isPinned =>
          cases isPinned with
          | true =>
              simp [operationParts, letters, separator, pinned, toList_toString_id,
                List.intercalate]
          | false =>
              simp [operationParts, letters, separator, movable, toList_toString_id,
                List.intercalate]

theorem exists_parts_of_operationLabel? {operation : Nat} {label : String}
    (named : graph.operationLabel? operation = some label) :
    ∃ slot parts, graph.slots[operation]? = some slot ∧
      operationParts (graph.operationId operation) operation slot = some parts ∧
      label.toList = ['_'].intercalate parts := by
  have listed := graph.toList_operationLabel? operation
  rw [named, Option.map_some, eq_comm, Option.map_eq_some_iff] at listed
  obtain ⟨parts, found, same⟩ := listed
  obtain ⟨slot, slotFound, made⟩ := Option.bind_eq_some_iff.mp found
  exact ⟨slot, parts, slotFound, made, same.symm⟩

section Characters

theorem isAlphanum_of_mem_tensorParts {id : TensorId} {position : Nat} {part : List Char}
    (listed : part ∈ tensorParts id position) : ∀ char ∈ part, char.isAlphanum = true := by
  have letter : 'T'.isAlphanum = true := by decide
  simp only [tensorParts, List.mem_cons, List.not_mem_nil, or_false] at listed
  rcases listed with rfl | rfl
  · exact List.forall_mem_cons.mpr ⟨letter, fun _ => isAlphanum_of_mem_toDigits⟩
  · exact fun _ => isAlphanum_of_mem_toDigits

theorem isAlphanum_of_mem_operationParts {id : OperationId} {position : Nat} {slot : Slot}
    {parts : List (List Char)} (made : operationParts id position slot = some parts)
    {part : List Char} (listed : part ∈ parts) : ∀ char ∈ part, char.isAlphanum = true := by
  have head : ∀ char ∈ 'O' :: 'P' :: Nat.toDigits 10 id.toNat, char.isAlphanum = true :=
    List.forall_mem_cons.mpr ⟨by decide, List.forall_mem_cons.mpr
      ⟨by decide, fun _ => isAlphanum_of_mem_toDigits⟩⟩
  cases slot with
  | header _ _ => cases made
  | free rank =>
      cases made
      simp only [List.mem_cons, List.not_mem_nil, or_false] at listed
      rcases listed with rfl | rfl | rfl
      · exact head
      · exact fun _ => isAlphanum_of_mem_toDigits
      · exact fun _ => isAlphanum_of_mem_toDigits
  | member header pinned =>
      cases made
      simp only [List.mem_cons, List.not_mem_nil, or_false] at listed
      rcases listed with rfl | rfl | rfl | rfl
      · exact head
      · exact fun _ => isAlphanum_of_mem_toDigits
      · exact fun _ => isAlphanum_of_mem_toDigits
      · intro char isSuffix
        rw [List.mem_singleton.mp isSuffix]
        cases pinned <;> decide

theorem not_mem_tensorParts {char : Char} (other : char.isAlphanum = false) {id : TensorId}
    {position : Nat} : ∀ part ∈ tensorParts id position, char ∉ part :=
  fun _ listed => not_mem_of_isAlphanum other (isAlphanum_of_mem_tensorParts listed)

theorem not_mem_operationParts {char : Char} (other : char.isAlphanum = false) {id : OperationId}
    {position : Nat} {slot : Slot} {parts : List (List Char)}
    (made : operationParts id position slot = some parts) : ∀ part ∈ parts, char ∉ part :=
  fun _ listed => not_mem_of_isAlphanum other (isAlphanum_of_mem_operationParts made listed)

theorem not_mem_tensorLabel {char : Char} (other : char.isAlphanum = false)
    (notSeparator : char ≠ '_') (tensor : Nat) : char ∉ (graph.tensorLabel tensor).toList := by
  rw [toList_tensorLabel]
  exact not_mem_intercalate notSeparator (not_mem_tensorParts other)

theorem not_mem_operationLabel {char : Char} (other : char.isAlphanum = false)
    (notSeparator : char ≠ '_') {operation : Nat} {label : String}
    (named : graph.operationLabel? operation = some label) : char ∉ label.toList := by
  obtain ⟨_, parts, _, made, same⟩ := exists_parts_of_operationLabel? named
  rw [same]
  exact not_mem_intercalate notSeparator (not_mem_operationParts other made)

end Characters

section Injectivity

theorem tensorParts_injective {id otherId : TensorId} {position place : Nat}
    (same : tensorParts id position = tensorParts otherId place) :
    id = otherId ∧ position = place := by
  simp only [tensorParts, List.cons.injEq, true_and, and_true] at same
  exact ⟨UInt32.toNat_inj.mp (toDigits_injective same.1), toDigits_injective same.2⟩

theorem operationParts_injective {id otherId : OperationId} {position place : Nat}
    {slot otherSlot : Slot} {parts : List (List Char)}
    (made : operationParts id position slot = some parts)
    (otherMade : operationParts otherId place otherSlot = some parts) :
    id = otherId ∧ position = place ∧ slot = otherSlot := by
  cases slot with
  | header _ _ => cases made
  | free rank =>
      cases made
      cases otherSlot with
      | header _ _ => cases otherMade
      | member _ _ => simp [operationParts] at otherMade
      | free otherRank =>
          simp only [operationParts, Option.some.injEq, List.cons.injEq, true_and, and_true]
            at otherMade
          obtain ⟨sameId, samePosition, sameRank⟩ := otherMade
          rw [toDigits_injective samePosition, toDigits_injective sameRank]
          exact ⟨UInt32.toNat_inj.mp (toDigits_injective sameId.symm), rfl, rfl⟩
  | member header pinned =>
      cases made
      cases otherSlot with
      | header _ _ => cases otherMade
      | free _ => simp [operationParts] at otherMade
      | member otherHeader otherPinned =>
          simp only [operationParts, Option.some.injEq, List.cons.injEq, true_and, and_true]
            at otherMade
          obtain ⟨sameId, samePosition, sameHeader, sameSuffix⟩ := otherMade
          have samePinned : otherPinned = pinned := by
            cases pinned <;> cases otherPinned <;> simp at sameSuffix ⊢
          rw [toDigits_injective samePosition, toDigits_injective sameHeader, samePinned]
          exact ⟨UInt32.toNat_inj.mp (toDigits_injective sameId.symm), rfl, rfl⟩

theorem tensorLabel_injective {tensor place : Nat}
    (same : graph.tensorLabel tensor = other.tensorLabel place) :
    graph.tensorId tensor = other.tensorId place ∧ tensor = place := by
  have lists := congrArg String.toList same
  rw [toList_tensorLabel, toList_tensorLabel] at lists
  have separator : '_'.isAlphanum = false := by decide
  exact tensorParts_injective (intercalate_injective (not_mem_tensorParts separator)
    (not_mem_tensorParts separator) (List.cons_ne_nil _ _) (List.cons_ne_nil _ _) lists)

theorem operationLabel?_injective {operation place : Nat} {label : String}
    (named : graph.operationLabel? operation = some label)
    (otherNamed : other.operationLabel? place = some label) :
    graph.operationId operation = other.operationId place ∧ operation = place ∧
      graph.slots[operation]? = other.slots[place]? := by
  obtain ⟨slot, parts, found, made, lists⟩ := exists_parts_of_operationLabel? named
  obtain ⟨otherSlot, otherParts, otherFound, otherMade, otherLists⟩ :=
    exists_parts_of_operationLabel? otherNamed
  have filled : ∀ {id position slot parts}, operationParts id position slot = some parts →
      parts ≠ [] := by
    rintro _ _ slot _ made rfl
    cases slot <;> simp [operationParts] at made
  have separator : '_'.isAlphanum = false := by decide
  obtain rfl : parts = otherParts := intercalate_injective (not_mem_operationParts separator made)
    (not_mem_operationParts separator otherMade) (filled made) (filled otherMade)
    (lists.symm.trans otherLists)
  obtain ⟨sameId, samePosition, sameSlot⟩ := operationParts_injective made otherMade
  exact ⟨sameId, samePosition, by rw [found, otherFound, sameSlot]⟩

theorem tensorLabel_ne_operationLabel {tensor operation : Nat} {label : String}
    (named : other.operationLabel? operation = some label) : graph.tensorLabel tensor ≠ label := by
  rintro rfl
  obtain ⟨slot, parts, _, made, lists⟩ := exists_parts_of_operationLabel? named
  rw [toList_tensorLabel] at lists
  have heads := congrArg List.head? lists
  cases slot with
  | free _ => cases made; simp [tensorParts, List.intercalate] at heads
  | member _ _ => cases made; simp [tensorParts, List.intercalate] at heads
  | header _ _ => cases made

end Injectivity

end Graph

end TensorGraph
