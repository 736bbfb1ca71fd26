import Dataflow.Text.Unseen

/-!
Text in double quotes. The quote, the backslash and the usual controls have short escapes; any
other character without a glyph is written by its number.
-/

namespace Dataflow.Text

/-- The number of a character, as `\\u{…}` with lower-case hexadecimal digits. -/
def escapeByNumber (c : Char) : List Char :=
  ['\\', 'u', '\x7b'] ++ Nat.toDigits 16 c.toNat ++ ['\x7d']

def escape (c : Char) : List Char :=
  match c with
  | '"' => ['\\', '"']
  | '\\' => ['\\', '\\']
  | '\n' => ['\\', 'n']
  | '\r' => ['\\', 'r']
  | '\t' => ['\\', 't']
  | '\x00' => ['\\', '0']
  | c => if isUnseen c then escapeByNumber c else [c]

def quoted (s : String) : String :=
  String.ofList ('"' :: s.toList.flatMap escape ++ ['"'])

/-- Items in brackets, with commas between them. -/
def bracketed (items : List String) : String :=
  "[" ++ String.intercalate ", " items ++ "]"

/-- Items in braces, with commas between them. -/
def braced (items : List String) : String :=
  "\x7b" ++ String.intercalate ", " items ++ "\x7d"

/-- A name and named fields in braces, on one line. -/
def record (name : String) (fields : List (String × String)) : String :=
  let items := fields.map fun (f, text) => f ++ ": " ++ text
  name ++ " " ++ "\x7b " ++ String.intercalate ", " items ++ " \x7d"

end Dataflow.Text
