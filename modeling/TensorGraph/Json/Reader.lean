import TensorGraph.Json

/-!
Reading JSON documents. The grammar is strict: no comments, no trailing commas, no leading zeros
and no control characters inside strings. Every reader returns what it read and what is left.
-/

namespace TensorGraph

namespace Json

def isBlank (char : Char) : Bool :=
  char = ' ' || char = '\t' || char = '\n' || char = '\r'

def skipBlanks (input : List Char) : List Char := input.dropWhile isBlank

def hexValue? (char : Char) : Option Nat :=
  if char.isDigit then some (char.toNat - '0'.toNat)
  else if 'a' ≤ char ∧ char ≤ 'f' then some (char.toNat - 'a'.toNat + 10)
  else if 'A' ≤ char ∧ char ≤ 'F' then some (char.toNat - 'A'.toNat + 10)
  else none

def codeUnit? (first second third fourth : Char) : Option Nat := do
  let first ← hexValue? first
  let second ← hexValue? second
  let third ← hexValue? third
  let fourth ← hexValue? fourth
  return ((first * 16 + second) * 16 + third) * 16 + fourth

def escape? : Char → Option Char
  | '"' => some '"'
  | '\\' => some '\\'
  | '/' => some '/'
  | 'b' => some '\x08'
  | 'f' => some '\x0c'
  | 'n' => some '\n'
  | 'r' => some '\r'
  | 't' => some '\t'
  | _ => none

/-- Reads the rest of a string as code points, some of which may be halves of surrogate pairs. -/
def readUnits : List Char → Option (List Nat × List Char)
  | [] => none
  | '"' :: rest => some ([], rest)
  | '\\' :: 'u' :: first :: second :: third :: fourth :: rest => do
      let unit ← codeUnit? first second third fourth
      let (units, left) ← readUnits rest
      return (unit :: units, left)
  | '\\' :: letter :: rest => do
      let char ← escape? letter
      let (units, left) ← readUnits rest
      return (char.toNat :: units, left)
  | char :: rest => do
      if char.toNat < 32 then none
      let (units, left) ← readUnits rest
      return (char.toNat :: units, left)

def isHighSurrogate (unit : Nat) : Bool := 0xD800 ≤ unit && unit ≤ 0xDBFF

def isLowSurrogate (unit : Nat) : Bool := 0xDC00 ≤ unit && unit ≤ 0xDFFF

def joinUnits : List Nat → Option (List Char)
  | [] => some []
  | [unit] =>
      if isHighSurrogate unit || isLowSurrogate unit then none else some [Char.ofNat unit]
  | unit :: next :: rest =>
      if isHighSurrogate unit then
        if isLowSurrogate next then
          (joinUnits rest).map
            (Char.ofNat (0x10000 + (unit - 0xD800) * 0x400 + (next - 0xDC00)) :: ·)
        else none
      else if isLowSurrogate unit then none
      else (joinUnits (next :: rest)).map (Char.ofNat unit :: ·)

def readString (input : List Char) : Option (Option String × List Char) :=
  (readUnits input).map fun found => ((joinUnits found.1).map String.ofList, found.2)

def spanDigits (input : List Char) : List Char × List Char :=
  (input.takeWhile Char.isDigit, input.dropWhile Char.isDigit)

/-- Reads the digits before the point; a leading zero stands alone. -/
def readWhole (input : List Char) : Option (Nat × List Char) :=
  match spanDigits input with
  | ([], _) => none
  | ('0' :: _ :: _, _) => none
  | (digits, left) => some (Nat.ofDigitChars 10 digits 0, left)

def readFraction : List Char → Option (List Char × List Char)
  | '.' :: rest =>
      match spanDigits rest with
      | ([], _) => none
      | (digits, left) => some (digits, left)
  | input => some ([], input)

def readSign : List Char → Bool × List Char
  | '-' :: rest => (true, rest)
  | '+' :: rest => (false, rest)
  | input => (false, input)

def readExponent (input : List Char) : Option (Option (Bool × Nat) × List Char) :=
  match input with
  | [] => some (none, [])
  | letter :: rest =>
      if letter = 'e' ∨ letter = 'E' then
        let (negative, unsigned) := readSign rest
        match spanDigits unsigned with
        | ([], _) => none
        | (digits, left) => some (some (negative, Nat.ofDigitChars 10 digits 0), left)
      else some (none, input)

def readUnsigned (negative : Bool) (input : List Char) : Option (Numeral × List Char) := do
  let (whole, left) ← readWhole input
  let (fraction, left) ← readFraction left
  let (exponent, left) ← readExponent left
  return (⟨negative, whole, fraction, exponent⟩, left)

def readNumeral : List Char → Option (Numeral × List Char)
  | '-' :: rest => readUnsigned true rest
  | input => readUnsigned false input

def readScalar : List Char → Option (Json × List Char)
  | 'n' :: 'u' :: 'l' :: 'l' :: rest => some (.null, rest)
  | 't' :: 'r' :: 'u' :: 'e' :: rest => some (.boolean true, rest)
  | 'f' :: 'a' :: 'l' :: 's' :: 'e' :: rest => some (.boolean false, rest)
  | '"' :: rest => (readString rest).map fun found => (.string found.1, found.2)
  | input => (readNumeral input).map fun found => (.number found.1, found.2)

def readName (input : List Char) : Option (Option String × List Char) :=
  match skipBlanks input with
  | '"' :: rest => do
      let (name, left) ← readString rest
      match skipBlanks left with
      | ':' :: left => return (name, left)
      | _ => none
  | _ => none

mutual

/-- Reads a value. Of any two steps in a row one takes a character, so twice the number of
characters is enough fuel. -/
def readValue : Nat → List Char → Option (Json × List Char)
  | 0, _ => none
  | fuel + 1, input =>
      match skipBlanks input with
      | '[' :: rest =>
          match skipBlanks rest with
          | ']' :: left => some (.array [], left)
          | _ => (readItems fuel rest).map fun found => (.array found.1, found.2)
      | '{' :: rest =>
          match skipBlanks rest with
          | '}' :: left => some (.object [], left)
          | _ => (readMembers fuel rest).map fun found => (.object found.1, found.2)
      | scalar => readScalar scalar

def readItems : Nat → List Char → Option (List Json × List Char)
  | 0, _ => none
  | fuel + 1, input => do
      let (item, left) ← readValue fuel input
      match skipBlanks left with
      | ',' :: rest => (readItems fuel rest).map fun found => (item :: found.1, found.2)
      | ']' :: rest => some ([item], rest)
      | _ => none

def readMembers : Nat → List Char → Option (List (Option String × Json) × List Char)
  | 0, _ => none
  | fuel + 1, input => do
      let (name, left) ← readName input
      let (value, left) ← readValue fuel left
      match skipBlanks left with
      | ',' :: rest => (readMembers fuel rest).map fun found => ((name, value) :: found.1, found.2)
      | '}' :: rest => some ([(name, value)], rest)
      | _ => none

end

def read? (text : String) : Option Json :=
  let input := text.toList
  match readValue (2 * input.length + 1) input with
  | some (document, left) => if (skipBlanks left).isEmpty then some document else none
  | none => none

end Json

end TensorGraph
