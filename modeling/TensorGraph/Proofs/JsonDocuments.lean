import TensorGraph.Proofs.JsonTokens

/-!
Reading is the inverse of writing: a document that is written in either layout is read back as it
was, with its members in their order.
-/

namespace TensorGraph

namespace Json

/-- Documents that can be written down: their strings are known, and what stands behind the point of a
number are digits. -/
inductive Writable : Json → Prop
  | null : Writable .null
  | boolean (value : Bool) : Writable (.boolean value)
  | number {numeral : Numeral} : (∀ digit ∈ numeral.fraction, digit.isDigit) →
      Writable (.number numeral)
  | string (text : String) : Writable (.string (some text))
  | array {items : List Json} : (∀ item ∈ items, Writable item) → Writable (.array items)
  | object {members : List (Option String × Json)} :
      (∀ member ∈ members, ∃ name, member.1 = some name) →
      (∀ member ∈ members, Writable member.2) → Writable (.object members)

section Blanks

theorem skipBlanks_append {blanks : List Char} (allBlank : ∀ char ∈ blanks, isBlank char)
    (input : List Char) : skipBlanks (blanks ++ input) = skipBlanks input :=
  List.dropWhile_append_of_pos allBlank

theorem skipBlanks_cons {first : Char} (notBlank : isBlank first = false) (rest : List Char) :
    skipBlanks (first :: rest) = first :: rest := by
  rw [skipBlanks, List.dropWhile_cons, notBlank]
  rfl

theorem isBlank_of_mem_lineBreak {layout : JsonLayout} {level : Nat} :
    ∀ char ∈ layout.lineBreak level, isBlank char := by
  intro char listed
  cases layout with
  | compact => cases listed
  | indented =>
      rcases List.mem_cons.mp listed with newline | space
      · rw [newline]
        decide
      · rw [List.eq_of_mem_replicate space]
        decide

theorem readValue_append {blanks : List Char} (allBlank : ∀ char ∈ blanks, isBlank char)
    (fuel : Nat) (input : List Char) : readValue fuel (blanks ++ input) = readValue fuel input := by
  cases fuel with
  | zero => rfl
  | succ fuel => rw [readValue, readValue, skipBlanks_append allBlank]

theorem readItems_append {blanks : List Char} (allBlank : ∀ char ∈ blanks, isBlank char)
    (fuel : Nat) (input : List Char) : readItems fuel (blanks ++ input) = readItems fuel input := by
  cases fuel with
  | zero => rfl
  | succ fuel => rw [readItems, readItems, readValue_append allBlank]

theorem readName_append {blanks : List Char} (allBlank : ∀ char ∈ blanks, isBlank char)
    (input : List Char) : readName (blanks ++ input) = readName input := by
  rw [readName, readName, skipBlanks_append allBlank]

theorem readMembers_append {blanks : List Char} (allBlank : ∀ char ∈ blanks, isBlank char)
    (fuel : Nat) (input : List Char) :
    readMembers fuel (blanks ++ input) = readMembers fuel input := by
  cases fuel with
  | zero => rfl
  | succ fuel => rw [readMembers, readMembers, readName_append allBlank]

theorem skipBlanks_lineBreak {next : Char} (notBlank : isBlank next = false) (layout : JsonLayout)
    (level : Nat) (rest : List Char) :
    skipBlanks (layout.lineBreak level ++ next :: rest) = next :: rest := by
  rw [skipBlanks_append isBlank_of_mem_lineBreak, skipBlanks_cons notBlank]

theorem ends_lineBreak {next : Char} (listed : next ∈ [',', ']', '}', '\n']) (layout : JsonLayout)
    (level : Nat) (rest : List Char) : Ends (layout.lineBreak level ++ next :: rest) := by
  cases layout with
  | compact => exact ends_cons listed rest
  | indented => exact ends_cons (by decide) _

end Blanks

section Steps

variable {fuel : Nat} {first : Char} {input left rest : List Char} {item value : Json}
  {name : Option String}

theorem readValue_of_scalar (notBlank : isBlank first = false)
    (notArray : first ≠ '[') (notObject : first ≠ '{') :
    readValue (fuel + 1) (first :: rest) = readScalar (first :: rest) := by
  rw [readValue, skipBlanks_cons notBlank]
  split
  · rename_i same
    exact absurd (List.cons.inj same).1 notArray
  · rename_i same
    exact absurd (List.cons.inj same).1 notObject
  · rfl

theorem readScalar_of_number (numeric : first = '-' ∨ first.isDigit) :
    readScalar (first :: rest) =
      (readNumeral (first :: rest)).map fun found => (.number found.1, found.2) := by
  rw [readScalar]
  all_goals
    intro _ same
    cases same
    rcases numeric with minus | digit
    · cases minus
    · cases digit

theorem readItems_of_last (found : readValue fuel input = some (item, left))
    (closed : skipBlanks left = ']' :: rest) :
    readItems (fuel + 1) input = some ([item], rest) := by
  simp [readItems, found, closed]

theorem readItems_of_more (found : readValue fuel input = some (item, left))
    (continued : skipBlanks left = ',' :: rest) :
    readItems (fuel + 1) input =
      (readItems fuel rest).map fun others => (item :: others.1, others.2) := by
  simp [readItems, found, continued]

theorem readMembers_of_last (named : readName input = some (name, left))
    (found : readValue fuel left = some (value, rest)) {behind : List Char}
    (closed : skipBlanks rest = '}' :: behind) :
    readMembers (fuel + 1) input = some ([(name, value)], behind) := by
  simp [readMembers, named, found, closed]

theorem readMembers_of_more (named : readName input = some (name, left))
    (found : readValue fuel left = some (value, rest)) {behind : List Char}
    (continued : skipBlanks rest = ',' :: behind) :
    readMembers (fuel + 1) input =
      (readMembers fuel behind).map fun others => ((name, value) :: others.1, others.2) := by
  simp [readMembers, named, found, continued]

theorem readValue_of_items (opened : skipBlanks rest = first :: left) (notClosed : first ≠ ']') :
    readValue (fuel + 1) ('[' :: rest) =
      (readItems fuel rest).map fun found => (.array found.1, found.2) := by
  rw [readValue, skipBlanks_cons (by decide)]
  simp only
  rw [opened]
  split
  · rename_i same
    exact absurd (List.cons.inj same).1 notClosed
  · rfl

theorem readValue_of_noItems (closed : skipBlanks rest = ']' :: left) :
    readValue (fuel + 1) ('[' :: rest) = some (.array [], left) := by
  rw [readValue, skipBlanks_cons (by decide)]
  simp only
  rw [closed]
  rfl

theorem readValue_of_noMembers (closed : skipBlanks rest = '}' :: left) :
    readValue (fuel + 1) ('{' :: rest) = some (.object [], left) := by
  rw [readValue, skipBlanks_cons (by decide)]
  simp only
  rw [closed]
  rfl

theorem readValue_of_members (opened : skipBlanks rest = '"' :: left) :
    readValue (fuel + 1) ('{' :: rest) =
      (readMembers fuel rest).map fun found => (.object found.1, found.2) := by
  rw [readValue, skipBlanks_cons (by decide)]
  simp only
  rw [opened]
  rfl

end Steps

section Starts

theorem apart_of_numeric {first : Char} (numeric : first = '-' ∨ first.isDigit) :
    isBlank first = false ∧ first ≠ '[' ∧ first ≠ ']' ∧ first ≠ '{' := by
  simp only [isBlank, Bool.or_eq_false_iff, decide_eq_false_iff_not]
  refine ⟨⟨⟨⟨?_, ?_⟩, ?_⟩, ?_⟩, ?_, ?_, ?_⟩
  all_goals
    rintro rfl
    rcases numeric with minus | digit
    · cases minus
    · cases digit

/-- A written document starts with neither a blank nor the end of an array. -/
theorem exists_cons_write {document : Json} (writable : document.Writable) (layout : JsonLayout)
    (level : Nat) :
    ∃ first rest, write layout level document = first :: rest ∧ isBlank first = false ∧
      first ≠ ']' := by
  cases writable with
  | null => exact ⟨'n', ['u', 'l', 'l'], by simp [write], by decide, by decide⟩
  | boolean value =>
      cases value with
      | true => exact ⟨'t', ['r', 'u', 'e'], by simp [write], by decide, by decide⟩
      | false => exact ⟨'f', ['a', 'l', 's', 'e'], by simp [write], by decide, by decide⟩
  | @number numeral _ =>
      obtain ⟨first, rest, same, numeric⟩ := exists_cons_numeral numeral
      obtain ⟨notBlank, _, notClosed, _⟩ := apart_of_numeric numeric
      exact ⟨first, rest, by rw [write, same], notBlank, notClosed⟩
  | string text => exact ⟨'"', _, by rw [write, writeString]; rfl, by decide, by decide⟩
  | @array items _ =>
      cases items with
      | nil => exact ⟨'[', [']'], by simp [write], by decide, by decide⟩
      | cons item items => exact ⟨'[', _, by rw [write]; rfl, by decide, by decide⟩
  | @object members _ _ =>
      cases members with
      | nil => exact ⟨'{', ['}'], by simp [write], by decide, by decide⟩
      | cons member members => exact ⟨'{', _, by rw [write]; rfl, by decide, by decide⟩

end Starts

section Texts

variable (layout : JsonLayout) (level : Nat) (behind : List Char)

theorem writeString_append (text : String) :
    writeString text ++ behind = '"' :: (text.toList.flatMap writeChar ++ '"' :: behind) := by
  simp [writeString]

theorem writeItems_append (next : Json) (items : List Json) :
    writeItems layout level (next :: items) ++ behind =
      ',' :: (layout.lineBreak level ++ (write layout level next ++
        (writeItems layout level items ++ behind))) := by
  simp [writeItems]

theorem writeMembers_append (name : String) (value : Json) (members : List (Option String × Json)) :
    writeMembers layout level ((some name, value) :: members) ++ behind =
      ',' :: (layout.lineBreak level ++ (writeString name ++ (layout.separator ++
        (write layout level value ++ (writeMembers layout level members ++ behind))))) := by
  simp [writeMembers]

theorem write_array_append (item : Json) (items : List Json) :
    write layout level (.array (item :: items)) ++ behind =
      '[' :: (layout.lineBreak (level + 1) ++ (write layout (level + 1) item ++
        (writeItems layout (level + 1) items ++ (layout.lineBreak level ++ ']' :: behind)))) := by
  simp [write]

theorem write_object_append (name : String) (value : Json)
    (members : List (Option String × Json)) :
    write layout level (.object ((some name, value) :: members)) ++ behind =
      '{' :: (layout.lineBreak (level + 1) ++ (writeString name ++ (layout.separator ++
        (write layout (level + 1) value ++ (writeMembers layout (level + 1) members ++
          (layout.lineBreak level ++ '}' :: behind)))))) := by
  simp [write]

end Texts

section RoundTrip

def ReadsBack (document : Json) : Prop :=
  ∀ layout level fuel rest, 2 * (write layout level document).length ≤ fuel → Ends rest →
    readValue fuel (write layout level document ++ rest) = some (document, rest)

theorem readsBack_of_scalar {document : Json} {first : Char} {tail : List Char}
    (written : ∀ layout level, write layout level document = first :: tail)
    (notBlank : isBlank first = false) (notArray : first ≠ '[') (notObject : first ≠ '{')
    (scalar : ∀ rest, Ends rest → readScalar (first :: (tail ++ rest)) = some (document, rest)) :
    document.ReadsBack := by
  intro layout level fuel rest enough ends
  rw [written, List.length_cons] at enough
  obtain ⟨fuel, rfl⟩ := Nat.exists_eq_succ_of_ne_zero (by omega : fuel ≠ 0)
  rw [written, List.cons_append, readValue_of_scalar notBlank notArray notObject, scalar rest ends]

theorem readsBack_number {numeral : Numeral} (allDigits : ∀ digit ∈ numeral.fraction, digit.isDigit) :
    (number numeral).ReadsBack := by
  obtain ⟨first, tail, same, numeric⟩ := exists_cons_numeral numeral
  obtain ⟨notBlank, notArray, _, notObject⟩ := apart_of_numeric numeric
  refine readsBack_of_scalar (fun _ _ => by rw [write, same]) notBlank notArray notObject
    fun rest ends => ?_
  rw [readScalar_of_number numeric, ← List.cons_append, ← same, readNumeral_write allDigits ends]
  rfl

theorem readsBack_string (text : String) : (string (some text)).ReadsBack := by
  refine @readsBack_of_scalar _ '"' (text.toList.flatMap writeChar ++ ['"'])
    (fun _ _ => by rw [write]; rfl) (by decide) (by decide) (by decide) fun rest _ => ?_
  rw [List.append_assoc, List.singleton_append, readScalar, readString_flatMap]
  rfl

variable {layout : JsonLayout} {level : Nat}

theorem readItems_write {item : Json} {items : List Json} (itemReads : item.ReadsBack)
    (allRead : ∀ item ∈ items, item.ReadsBack) {fuel : Nat}
    (enough : 2 * ((write layout level item).length + (writeItems layout level items).length) < fuel)
    (outer : Nat) (rest : List Char) :
    readItems fuel (write layout level item ++ (writeItems layout level items ++
        (layout.lineBreak outer ++ ']' :: rest))) = some (item :: items, rest) := by
  obtain ⟨fuel, rfl⟩ := Nat.exists_eq_succ_of_ne_zero (by omega : fuel ≠ 0)
  induction items generalizing item fuel with
  | nil =>
      rw [writeItems, List.nil_append]
      exact readItems_of_last
        (itemReads layout level fuel _ (by omega) (ends_lineBreak (by decide) layout outer rest))
        (skipBlanks_lineBreak (by decide) layout outer rest)
  | cons next items ih =>
      obtain ⟨nextReads, othersRead⟩ := List.forall_mem_cons.mp allRead
      simp only [writeItems, List.length_append, List.length_cons] at enough
      obtain ⟨fuel, rfl⟩ := Nat.exists_eq_succ_of_ne_zero (by omega : fuel ≠ 0)
      rw [writeItems_append, readItems_of_more
        (itemReads layout level (fuel + 1) _ (by omega) (ends_cons (by decide) _))
        (skipBlanks_cons (by decide) _), readItems_append isBlank_of_mem_lineBreak,
        ih nextReads othersRead fuel (by omega)]
      rfl

theorem readsBack_array {items : List Json} (allRead : ∀ item ∈ items, item.ReadsBack)
    (writable : ∀ item ∈ items, item.Writable) : (array items).ReadsBack := by
  intro layout level fuel rest enough _
  cases items with
  | nil =>
      rw [write, List.length_cons] at enough
      obtain ⟨fuel, rfl⟩ := Nat.exists_eq_succ_of_ne_zero (by omega : fuel ≠ 0)
      rw [write]
      exact readValue_of_noItems (skipBlanks_cons (by decide) rest)
  | cons item items =>
      obtain ⟨itemReads, othersRead⟩ := List.forall_mem_cons.mp allRead
      simp only [write, List.length_append, List.length_cons] at enough
      obtain ⟨fuel, rfl⟩ := Nat.exists_eq_succ_of_ne_zero (by omega : fuel ≠ 0)
      obtain ⟨first, tail, same, notBlank, notClosed⟩ :=
        exists_cons_write (writable item (by simp)) layout (level + 1)
      have opened : ∀ behind, skipBlanks (layout.lineBreak (level + 1) ++
          (write layout (level + 1) item ++ behind)) = first :: (tail ++ behind) := by
        intro behind
        rw [same, List.cons_append, skipBlanks_lineBreak notBlank]
      rw [write_array_append, readValue_of_items (opened _) notClosed,
        readItems_append isBlank_of_mem_lineBreak,
        readItems_write itemReads othersRead (by omega) level rest]
      rfl

theorem exists_readName (name : String) (layout : JsonLayout) (input : List Char) :
    ∃ blanks : List Char, (∀ char ∈ blanks, isBlank char) ∧
      readName (writeString name ++ (layout.separator ++ input)) =
        some (some name, blanks ++ input) := by
  rw [writeString_append, readName, skipBlanks_cons (by decide)]
  simp only [readString_flatMap, Option.bind_eq_bind, Option.bind_some]
  cases layout with
  | compact => exact ⟨[], by simp, rfl⟩
  | indented => exact ⟨[' '], by simp [isBlank], rfl⟩

theorem readMembers_of_close {name : String} {value : Json} (valueReads : value.ReadsBack)
    {fuel : Nat} (enough : 2 * (write layout level value).length ≤ fuel) (outer : Nat)
    (rest : List Char) :
    readMembers (fuel + 1) (writeString name ++ (layout.separator ++ (write layout level value ++
        (layout.lineBreak outer ++ '}' :: rest)))) = some ([(some name, value)], rest) := by
  obtain ⟨blanks, allBlank, nameRead⟩ := exists_readName name layout
    (write layout level value ++ (layout.lineBreak outer ++ '}' :: rest))
  refine readMembers_of_last nameRead ?_ (skipBlanks_lineBreak (by decide) layout outer rest)
  rw [readValue_append allBlank]
  exact valueReads layout level fuel _ enough (ends_lineBreak (by decide) layout outer rest)

theorem readMembers_of_comma {name : String} {value : Json} (valueReads : value.ReadsBack)
    {fuel : Nat} (enough : 2 * (write layout level value).length ≤ fuel) (behind : List Char) :
    readMembers (fuel + 1) (writeString name ++ (layout.separator ++ (write layout level value ++
        ',' :: behind))) =
      (readMembers fuel behind).map fun others => ((some name, value) :: others.1, others.2) := by
  obtain ⟨blanks, allBlank, nameRead⟩ := exists_readName name layout
    (write layout level value ++ ',' :: behind)
  refine readMembers_of_more nameRead ?_ (skipBlanks_cons (by decide) behind)
  rw [readValue_append allBlank]
  exact valueReads layout level fuel _ enough (ends_cons (by decide) behind)

theorem readMembers_write {name : String} {value : Json} {members : List (Option String × Json)}
    (valueReads : value.ReadsBack) (named : ∀ member ∈ members, ∃ name, member.1 = some name)
    (allRead : ∀ member ∈ members, member.2.ReadsBack) {fuel : Nat}
    (enough :
      2 * ((write layout level value).length + (writeMembers layout level members).length) < fuel)
    (outer : Nat) (rest : List Char) :
    readMembers fuel (writeString name ++ (layout.separator ++ (write layout level value ++
        (writeMembers layout level members ++ (layout.lineBreak outer ++ '}' :: rest))))) =
      some ((some name, value) :: members, rest) := by
  obtain ⟨fuel, rfl⟩ := Nat.exists_eq_succ_of_ne_zero (by omega : fuel ≠ 0)
  induction members generalizing name value fuel with
  | nil =>
      rw [writeMembers, List.nil_append]
      exact readMembers_of_close valueReads (by omega) outer rest
  | cons member members ih =>
      obtain ⟨nextName, next⟩ := member
      obtain ⟨⟨nextText, sameName⟩, othersNamed⟩ := List.forall_mem_cons.mp named
      obtain ⟨nextReads, othersRead⟩ : next.ReadsBack ∧ ∀ member ∈ members, member.2.ReadsBack :=
        List.forall_mem_cons.mp allRead
      cases sameName
      simp only [writeMembers, List.length_append, List.length_cons] at enough
      obtain ⟨fuel, rfl⟩ := Nat.exists_eq_succ_of_ne_zero (by omega : fuel ≠ 0)
      rw [writeMembers_append, readMembers_of_comma valueReads (by omega),
        readMembers_append isBlank_of_mem_lineBreak,
        ih nextReads othersNamed othersRead fuel (by omega)]
      rfl

theorem readsBack_object {members : List (Option String × Json)}
    (named : ∀ member ∈ members, ∃ name, member.1 = some name)
    (allRead : ∀ member ∈ members, member.2.ReadsBack) : (object members).ReadsBack := by
  intro layout level fuel rest enough _
  cases members with
  | nil =>
      rw [write, List.length_cons] at enough
      obtain ⟨fuel, rfl⟩ := Nat.exists_eq_succ_of_ne_zero (by omega : fuel ≠ 0)
      rw [write]
      exact readValue_of_noMembers (skipBlanks_cons (by decide) rest)
  | cons member members =>
      obtain ⟨name, value⟩ := member
      obtain ⟨⟨text, sameName⟩, othersNamed⟩ := List.forall_mem_cons.mp named
      obtain ⟨valueReads, othersRead⟩ : value.ReadsBack ∧ ∀ member ∈ members, member.2.ReadsBack :=
        List.forall_mem_cons.mp allRead
      cases sameName
      simp only [write, List.length_append, List.length_cons] at enough
      obtain ⟨fuel, rfl⟩ := Nat.exists_eq_succ_of_ne_zero (by omega : fuel ≠ 0)
      have opened : ∀ behind, skipBlanks (layout.lineBreak (level + 1) ++
          (writeString text ++ behind)) = '"' :: (text.toList.flatMap writeChar ++ '"' :: behind) := by
        intro behind
        rw [writeString_append, skipBlanks_lineBreak (by decide)]
      rw [write_object_append, readValue_of_members (opened _),
        readMembers_append isBlank_of_mem_lineBreak,
        readMembers_write valueReads othersNamed othersRead (by omega) level rest]
      rfl

theorem Writable.readsBack {document : Json} (writable : document.Writable) :
    document.ReadsBack := by
  induction writable with
  | null =>
      exact readsBack_of_scalar (fun _ _ => by rw [write]) (by decide) (by decide) (by decide)
        fun _ _ => rfl
  | boolean value =>
      cases value
      all_goals
        exact readsBack_of_scalar (fun _ _ => by rw [write]) (by decide) (by decide) (by decide)
          fun _ _ => rfl
  | number allDigits => exact readsBack_number allDigits
  | string text => exact readsBack_string text
  | array writable allRead => exact readsBack_array allRead writable
  | object named _ allRead => exact readsBack_object named allRead

/-- Whatever the layout, a text is read as the document that it was written for. -/
theorem read?_text {document : Json} (writable : document.Writable) (layout : JsonLayout) :
    read? (document.text layout) = some document := by
  have found := writable.readsBack layout 0 (2 * (write layout 0 document).length + 1) []
    (by omega) ends_nil
  rw [List.append_nil] at found
  rw [read?, text, String.toList_ofList]
  simp only [found]
  rfl

end RoundTrip

end Json

end TensorGraph
