import TensorGraph.Json.Reader
import TensorGraph.Json.Writer

/-!
Strings and numbers in documents. What is written is read back, up to where it ends: a string at its
quote, a number before anything that cannot continue it.
-/

namespace TensorGraph

namespace Json

section Strings

theorem isHighSurrogate_toNat (char : Char) : isHighSurrogate char.toNat = false := by
  have valid : char.toNat < 0xD800 ∨ 0xDFFF < char.toNat ∧ char.toNat < 0x110000 := char.valid
  simp only [isHighSurrogate, Bool.and_eq_false_iff, decide_eq_false_iff_not]
  omega

theorem isLowSurrogate_toNat (char : Char) : isLowSurrogate char.toNat = false := by
  have valid : char.toNat < 0xD800 ∨ 0xDFFF < char.toNat ∧ char.toNat < 0x110000 := char.valid
  simp only [isLowSurrogate, Bool.and_eq_false_iff, decide_eq_false_iff_not]
  omega

theorem joinUnits_map_toNat (chars : List Char) :
    joinUnits (chars.map Char.toNat) = some chars := by
  induction chars with
  | nil => rfl
  | cons char rest ih =>
      cases rest with
      | nil =>
          simp [joinUnits, isHighSurrogate_toNat, isLowSurrogate_toNat]
      | cons next rest =>
          rw [List.map_cons, List.map_cons, joinUnits, ← List.map_cons, ih]
          simp [isHighSurrogate_toNat, isLowSurrogate_toNat]

theorem codeUnit?_of_control :
    ∀ code < 32, codeUnit? '0' '0' (hexDigit (code / 16)) (hexDigit code) = some code := by
  decide

theorem readUnits_of_plain {char : Char} (notQuote : char ≠ '"') (notEscape : char ≠ '\\')
    (printable : ¬char.toNat < 32) (input : List Char) :
    readUnits (char :: input) =
      (readUnits input).map fun found => (char.toNat :: found.1, found.2) := by
  rw [readUnits]
  · rw [if_neg printable]
    cases readUnits input <;> rfl
  · exact notQuote
  · exact fun _ _ _ _ _ same _ => notEscape same
  · exact fun _ _ same _ => notEscape same

theorem readUnits_of_escape {letter char : Char} (notUnicode : letter ≠ 'u')
    (known : escape? letter = some char) (input : List Char) :
    readUnits ('\\' :: letter :: input) =
      (readUnits input).map fun found => (char.toNat :: found.1, found.2) := by
  rw [readUnits, known]
  · cases readUnits input <;> rfl
  · exact fun _ _ _ _ _ same _ => notUnicode same

theorem readUnits_writeChar (char : Char) (input : List Char) :
    readUnits (writeChar char ++ input) =
      (readUnits input).map fun found => (char.toNat :: found.1, found.2) := by
  unfold writeChar
  split
  case h_8 notQuote notEscape _ _ _ _ _ =>
    split
    · rename_i control
      simp only [List.cons_append, List.nil_append, readUnits, codeUnit?_of_control _ control]
      cases readUnits input <;> rfl
    · rename_i printable
      exact readUnits_of_plain notQuote notEscape printable input
  all_goals exact readUnits_of_escape (by decide) rfl input

theorem readUnits_flatMap (chars rest : List Char) :
    readUnits (chars.flatMap writeChar ++ '"' :: rest) = some (chars.map Char.toNat, rest) := by
  induction chars with
  | nil => rw [List.flatMap_nil, List.nil_append, readUnits, List.map_nil]
  | cons char chars ih =>
      rw [List.flatMap_cons, List.append_assoc, readUnits_writeChar, ih, Option.map_some,
        List.map_cons]

theorem readString_flatMap (text : String) (rest : List Char) :
    readString (text.toList.flatMap writeChar ++ '"' :: rest) = some (some text, rest) := by
  rw [readString, readUnits_flatMap, Option.map_some, joinUnits_map_toNat, Option.map_some,
    String.ofList_toList]

end Strings

section Numbers

def Ends (rest : List Char) : Prop := ∀ next ∈ rest.head?, next ∈ [',', ']', '}', '\n']

theorem ends_nil : Ends [] := by simp [Ends]

theorem ends_cons {next : Char} (listed : next ∈ [',', ']', '}', '\n']) (rest : List Char) :
    Ends (next :: rest) := by
  simpa [Ends] using listed

theorem Ends.stops {rest : List Char} (ends : Ends rest) :
    ∀ next ∈ rest.head?, next.isDigit = false ∧ next ≠ '.' ∧ next ≠ 'e' ∧ next ≠ 'E' := by
  intro next listed
  have allowed := ends next listed
  simp only [List.mem_cons, List.not_mem_nil, or_false] at allowed
  rcases allowed with rfl | rfl | rfl | rfl <;> decide

theorem spanDigits_append {digits rest : List Char} (allDigits : ∀ digit ∈ digits, digit.isDigit)
    (ends : ∀ next ∈ rest.head?, next.isDigit = false) :
    spanDigits (digits ++ rest) = (digits, rest) := by
  have nothing : rest.takeWhile Char.isDigit = [] ∧ rest.dropWhile Char.isDigit = rest := by
    cases rest with
    | nil => exact ⟨rfl, rfl⟩
    | cons next rest =>
        have stops := ends next rfl
        exact ⟨by rw [List.takeWhile_cons, stops]; rfl, by rw [List.dropWhile_cons, stops]; rfl⟩
  rw [spanDigits, List.takeWhile_append_of_pos allDigits, List.dropWhile_append_of_pos allDigits,
    nothing.1, nothing.2, List.append_nil]

theorem isDigit_of_mem_toDigits {number : Nat} :
    ∀ digit ∈ Nat.toDigits 10 number, digit.isDigit := fun _ listed =>
  Nat.isDigit_of_mem_toDigits (by decide) (by decide) listed

/-- Only zero is written with a zero in front. -/
theorem head?_toDigits {number : Nat} (positive : 0 < number) :
    (Nat.toDigits 10 number).head? ≠ some '0' := by
  induction number using Nat.strongRecOn with
  | ind number ih =>
      rw [Nat.toDigits_eq_if (by decide)]
      split
      · rename_i small
        have notZero : ∀ digit < 10, 0 < digit → Nat.digitChar digit ≠ '0' := by decide
        simpa using notZero number small positive
      · have front := ih (number / 10) (by omega) (by omega)
        obtain ⟨first, digits, same⟩ :=
          List.exists_cons_of_ne_nil (@Nat.toDigits_ne_nil (number / 10) 10)
        rw [same] at front ⊢
        exact front

theorem readWhole_toDigits (number : Nat) {rest : List Char}
    (ends : ∀ next ∈ rest.head?, next.isDigit = false) :
    readWhole (Nat.toDigits 10 number ++ rest) = some (number, rest) := by
  have value := @Nat.ofDigitChars_ten_toDigits number
  rw [readWhole, spanDigits_append isDigit_of_mem_toDigits ends]
  split
  · rename_i same
    exact absurd (Prod.mk.inj same).1 Nat.toDigits_ne_nil
  · rename_i same
    rw [Prod.mk.injEq] at same
    rcases Nat.eq_zero_or_pos number with zero | positive
    · rw [zero, Nat.toDigits_zero] at same
      cases same.1
    · exact absurd (by rw [same.1]; rfl) (head?_toDigits positive)
  · rename_i same
    cases same
    rw [value]

theorem readFraction_append {fraction rest : List Char}
    (allDigits : ∀ digit ∈ fraction, digit.isDigit)
    (ends : ∀ next ∈ rest.head?, next.isDigit = false ∧ next ≠ '.') :
    readFraction ((if fraction.isEmpty then [] else '.' :: fraction) ++ rest) =
      some (fraction, rest) := by
  cases fraction with
  | nil =>
      cases rest with
      | nil => rfl
      | cons next rest =>
          rw [List.isEmpty_nil, if_pos rfl, List.nil_append, readFraction]
          exact fun _ same => (ends next rfl).2 (List.cons.inj same).1
  | cons digit fraction =>
      rw [List.isEmpty_cons, if_neg (by decide), List.cons_append, readFraction,
        spanDigits_append allDigits fun next listed => (ends next listed).1]

def exponentText : Option (Bool × Nat) → List Char
  | none => []
  | some (negative, digits) => 'e' :: (if negative then '-' else '+') :: Nat.toDigits 10 digits

theorem readExponent_append (exponent : Option (Bool × Nat)) {rest : List Char} (ends : Ends rest) :
    readExponent (exponentText exponent ++ rest) = some (exponent, rest) := by
  cases exponent with
  | none =>
      cases rest with
      | nil => rfl
      | cons next rest =>
          obtain ⟨_, _, notSmall, notLarge⟩ := ends.stops next rfl
          simp [exponentText, readExponent, notSmall, notLarge]
  | some exponent =>
      obtain ⟨negative, digits⟩ := exponent
      have value := @Nat.ofDigitChars_ten_toDigits digits
      have sign : readSign ((if negative then '-' else '+') :: (Nat.toDigits 10 digits ++ rest)) =
          (negative, Nat.toDigits 10 digits ++ rest) := by
        cases negative <;> rfl
      have spanned := spanDigits_append (@isDigit_of_mem_toDigits digits)
        fun next listed => (ends.stops next listed).1
      rw [exponentText, List.cons_append, List.cons_append, readExponent, if_pos (by decide), sign]
      simp only [spanned]
      split
      · rename_i same
        exact absurd (Prod.mk.inj same).1 Nat.toDigits_ne_nil
      · rename_i same
        cases same
        rw [value]

theorem head?_exponentText {exponent : Option (Bool × Nat)} {rest : List Char} (ends : Ends rest) :
    ∀ next ∈ (exponentText exponent ++ rest).head?, next.isDigit = false ∧ next ≠ '.' := by
  intro next listed
  cases exponent with
  | none =>
      obtain ⟨noDigit, notPoint, _⟩ := ends.stops next listed
      exact ⟨noDigit, notPoint⟩
  | some exponent =>
      cases listed
      decide

theorem readUnsigned_append {whole : Nat} {fraction : List Char} {exponent : Option (Bool × Nat)}
    {rest : List Char} (negative : Bool) (allDigits : ∀ digit ∈ fraction, digit.isDigit)
    (ends : Ends rest) :
    readUnsigned negative (Nat.toDigits 10 whole ++
        ((if fraction.isEmpty then [] else '.' :: fraction) ++ (exponentText exponent ++ rest))) =
      some (⟨negative, whole, fraction, exponent⟩, rest) := by
  have behind := @head?_exponentText exponent rest ends
  have front : ∀ next ∈ ((if fraction.isEmpty then [] else '.' :: fraction) ++
      (exponentText exponent ++ rest)).head?, next.isDigit = false := by
    intro next listed
    cases fraction with
    | nil => exact (behind next listed).1
    | cons digit fraction =>
        cases listed
        rfl
  rw [readUnsigned, readWhole_toDigits whole front]
  simp only [Option.bind_eq_bind, Option.bind_some, readFraction_append allDigits behind,
    readExponent_append exponent ends]
  rfl

theorem exists_cons_numeral (numeral : Numeral) :
    ∃ first rest, numeral.write = first :: rest ∧ (first = '-' ∨ first.isDigit) := by
  obtain ⟨first, digits, same⟩ :=
    List.exists_cons_of_ne_nil (@Nat.toDigits_ne_nil numeral.whole 10)
  cases negative : numeral.negative with
  | true => exact ⟨'-', _, by rw [Numeral.write, negative]; rfl, Or.inl rfl⟩
  | false =>
      refine ⟨first, _, by rw [Numeral.write, negative, same]; rfl, Or.inr ?_⟩
      exact @isDigit_of_mem_toDigits numeral.whole first (by simp [same])

theorem readNumeral_write {numeral : Numeral} (allDigits : ∀ digit ∈ numeral.fraction, digit.isDigit)
    {rest : List Char} (ends : Ends rest) :
    readNumeral (numeral.write ++ rest) = some (numeral, rest) := by
  obtain ⟨negative, whole, fraction, exponent⟩ := numeral
  have unsigned := fun sign => @readUnsigned_append whole fraction exponent rest sign allDigits ends
  have text : (⟨negative, whole, fraction, exponent⟩ : Numeral).write ++ rest =
      (if negative then ['-'] else []) ++ (Nat.toDigits 10 whole ++
        ((if fraction.isEmpty then [] else '.' :: fraction) ++ (exponentText exponent ++ rest))) := by
    simp only [Numeral.write, List.append_assoc]
    rfl
  rw [text]
  cases negative with
  | true => exact unsigned true
  | false =>
      obtain ⟨first, digits, same⟩ := List.exists_cons_of_ne_nil (@Nat.toDigits_ne_nil whole 10)
      have isDigit : first.isDigit := @isDigit_of_mem_toDigits whole first (by simp [same])
      rw [if_neg (by decide), List.nil_append, ← unsigned false, same, List.cons_append, readNumeral]
      rintro _ equal
      cases equal
      exact absurd isDigit (by decide)

end Numbers

end Json

end TensorGraph
