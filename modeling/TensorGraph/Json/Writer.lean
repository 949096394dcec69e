import TensorGraph.Json

/-!
Writing JSON documents, either without any blanks or with one item per line, indented by two blanks
for each level. Empty arrays and objects stay on one line.
-/

namespace TensorGraph

inductive JsonLayout
  | compact
  | indented
  deriving DecidableEq, Repr

namespace JsonLayout

def lineBreak (layout : JsonLayout) (level : Nat) : List Char :=
  match layout with
  | .compact => []
  | .indented => '\n' :: List.replicate (2 * level) ' '

def separator : JsonLayout → List Char
  | .compact => [':']
  | .indented => [':', ' ']

end JsonLayout

/-- The digits of a numeral. An exponent always has its sign in front. -/
def Numeral.write (numeral : Numeral) : List Char :=
  (if numeral.negative then ['-'] else []) ++
  Nat.toDigits 10 numeral.whole ++
  (if numeral.fraction.isEmpty then [] else '.' :: numeral.fraction) ++
  match numeral.exponent with
  | none => []
  | some (negative, digits) => 'e' :: (if negative then '-' else '+') :: Nat.toDigits 10 digits

namespace Json

def hexDigit (value : Nat) : Char := Nat.digitChar (value % 16)

/-- A character inside a string. Only quotes, backslashes and control characters are escaped. -/
def writeChar (char : Char) : List Char :=
  match char with
  | '"' => ['\\', '"']
  | '\\' => ['\\', '\\']
  | '\x08' => ['\\', 'b']
  | '\t' => ['\\', 't']
  | '\n' => ['\\', 'n']
  | '\x0c' => ['\\', 'f']
  | '\r' => ['\\', 'r']
  | _ =>
      if char.toNat < 32 then
        ['\\', 'u', '0', '0', hexDigit (char.toNat / 16), hexDigit char.toNat]
      else [char]

def writeString (text : String) : List Char :=
  '"' :: text.toList.flatMap writeChar ++ ['"']

mutual

/-- Writes a document whose items are at the level after the given one. -/
def write (layout : JsonLayout) (level : Nat) : Json → List Char
  | .null => ['n', 'u', 'l', 'l']
  | .boolean true => ['t', 'r', 'u', 'e']
  | .boolean false => ['f', 'a', 'l', 's', 'e']
  | .number numeral => numeral.write
  | .string text => writeString (text.getD "")
  | .array [] => ['[', ']']
  | .array (first :: rest) =>
      '[' :: layout.lineBreak (level + 1) ++ write layout (level + 1) first ++
        writeItems layout (level + 1) rest ++ layout.lineBreak level ++ [']']
  | .object [] => ['{', '}']
  | .object ((name, value) :: rest) =>
      '{' :: layout.lineBreak (level + 1) ++ writeString (name.getD "") ++ layout.separator ++
        write layout (level + 1) value ++ writeMembers layout (level + 1) rest ++
        layout.lineBreak level ++ ['}']

def writeItems (layout : JsonLayout) (level : Nat) : List Json → List Char
  | [] => []
  | item :: rest =>
      ',' :: layout.lineBreak level ++ write layout level item ++ writeItems layout level rest

def writeMembers (layout : JsonLayout) (level : Nat) : List (Option String × Json) → List Char
  | [] => []
  | (name, value) :: rest =>
      ',' :: layout.lineBreak level ++ writeString (name.getD "") ++ layout.separator ++
        write layout level value ++ writeMembers layout level rest

end

def text (layout : JsonLayout) (document : Json) : String :=
  String.ofList (document.write layout 0)

end Json

end TensorGraph
