import Dataflow.Document.Reading
import Dataflow.Text.Hex

/-!
The small parts of TOML texts: what a line is made of, strings and keys.

Every scanner takes what it recognises from the front of a text. A carriage return belongs to the
end of a line and nowhere else, so texts are scanned without those that do.
-/

namespace Dataflow.Document.Toml

abbrev Scan := StateT (List Char) Option

/-- A text whose lines all end in the same way. -/
def withoutReturns : List Char → List Char
  | '\r' :: '\n' :: rest => '\n' :: withoutReturns rest
  | c :: rest => c :: withoutReturns rest
  | [] => []

namespace Scan

/-- The next character. -/
def next? : Scan (Option Char) := do return (← get).head?

def take : Scan Char := do
  match ← get with
  | [] => failure
  | c :: rest => set rest; return c

def expect (c : Char) : Scan Unit := do
  if (← take) ≠ c then failure

/-- Takes a character if it is the next one. -/
def skip (c : Char) : Scan Bool := do
  match ← get with
  | d :: rest => if c = d then set rest; return true else return false
  | [] => return false

/-- Takes a text if it comes next. -/
def skipText (word : String) : Scan Bool := do
  let cs ← get
  if word.toList.isPrefixOf cs then set (cs.drop word.length); return true
  else return false

def span (p : Char → Bool) : Scan (List Char) := do
  let (taken, rest) := (← get).span p
  set rest
  return taken

/-- A scanner that works on the text as a function. -/
def ofFunction {α : Type} (f : List Char → Option (α × List Char)) : Scan α := f

end Scan

open Scan

/-- A character that may stand in a comment, or in a string that is not escaped. -/
def isPlain (c : Char) : Bool := c = '\t' || (0x20 ≤ c.toNat && c.toNat ≠ 0x7f)

def isBlank (c : Char) : Bool := c = ' ' || c = '\t'

def blanks : Scan Unit := do let _ ← span isBlank

/-- A comment, if there is one. -/
def comment : Scan Unit := do
  if ← skip '#' then
    let _ ← span isPlain

/-- The end of a line, with a comment in front of it, or the end of the text. -/
def endOfLine : Scan Unit := do
  blanks
  comment
  match ← get with
  | [] => return
  | _ => expect '\n'

/-- What follows blanks, ends of lines and comments. -/
def gap (cs : List Char) : List Char := go false cs
where
  go (inComment : Bool) : List Char → List Char
    | [] => []
    | c :: rest =>
      if c = '\n' then go false rest
      else if inComment then if isPlain c then go true rest else c :: rest
      else if isBlank c then go false rest
      else if c = '#' then go true rest
      else c :: rest

def skipGap : Scan Unit := modify gap

/-! ### Strings -/

/-- What a letter after a backslash stands for. -/
def escaped? : Char → Option Char
  | '"' => some '"'
  | '\\' => some '\\'
  | 'b' => some '\x08'
  | 'f' => some '\x0c'
  | 'n' => some '\n'
  | 'r' => some '\r'
  | 't' => some '\t'
  | _ => none

/-- The character with the number that is written in hexadecimal. -/
def numbered? (cs : List Char) : Option Char := do
  let n ← Text.hexNumber? cs
  if n.isValidChar then some (Char.ofNat n) else none

/-- A character in front of a result. -/
def consTo (c : Char) : Option (List Char × List Char) → Option (List Char × List Char) :=
  Option.map fun (cs, rest) => (c :: cs, rest)

/-- A string up to its quote. -/
def basic? : List Char → Option (List Char × List Char)
  | [] => none
  | '"' :: rest => some ([], rest)
  | '\\' :: 'u' :: a :: b :: c :: d :: rest => do
    consTo (← numbered? [a, b, c, d]) (basic? rest)
  | '\\' :: 'U' :: a :: b :: c :: d :: e :: f :: g :: h :: rest => do
    consTo (← numbered? [a, b, c, d, e, f, g, h]) (basic? rest)
  | '\\' :: e :: rest => do consTo (← escaped? e) (basic? rest)
  | c :: rest => if isPlain c ∧ c ≠ '\\' then consTo c (basic? rest) else none

/-- A string between single quotes, up to the second one. -/
def literal? : List Char → Option (List Char × List Char)
  | [] => none
  | '\'' :: rest => some ([], rest)
  | c :: rest => if isPlain c then consTo c (literal? rest) else none

/-- Whether a text goes on with the end of a line that is not visible. -/
def foldsHere (cs : List Char) : Bool := (cs.dropWhile isBlank).head? = some '\n'

/-- A string of several lines, up to three quotes; two more may stand in front of them. After a
backslash at the end of a line, everything up to the next visible character is left out; this is
what `folding` is for. -/
def longBasic? (folding : Bool) : List Char → Option (List Char × List Char)
  | [] => none
  | '"' :: '"' :: '"' :: '"' :: '"' :: rest => some (['"', '"'], rest)
  | '"' :: '"' :: '"' :: '"' :: rest => some (['"'], rest)
  | '"' :: '"' :: '"' :: rest => some ([], rest)
  | '\\' :: 'u' :: a :: b :: c :: d :: rest => do
    consTo (← numbered? [a, b, c, d]) (longBasic? false rest)
  | '\\' :: 'U' :: a :: b :: c :: d :: e :: f :: g :: h :: rest => do
    consTo (← numbered? [a, b, c, d, e, f, g, h]) (longBasic? false rest)
  | '\\' :: e :: rest =>
    if foldsHere (e :: rest) then longBasic? true rest
    else do consTo (← escaped? e) (longBasic? false rest)
  | c :: rest =>
    if folding ∧ (isBlank c ∨ c = '\n') then longBasic? true rest
    else if c = '\n' ∨ (isPlain c ∧ c ≠ '\\') then consTo c (longBasic? false rest)
    else none

/-- A string of several lines between single quotes. -/
def longLiteral? : List Char → Option (List Char × List Char)
  | [] => none
  | '\'' :: '\'' :: '\'' :: '\'' :: '\'' :: rest => some (['\'', '\''], rest)
  | '\'' :: '\'' :: '\'' :: '\'' :: rest => some (['\''], rest)
  | '\'' :: '\'' :: '\'' :: rest => some ([], rest)
  | c :: rest => if c = '\n' ∨ isPlain c then consTo c (longLiteral? rest) else none

/-- A string on one line. -/
def shortString : Scan String := do
  let cs ← match ← take with
    | '"' => ofFunction basic?
    | '\'' => ofFunction literal?
    | _ => failure
  return String.ofList cs

/-- A string on one line or on several; an end of line right after the quotes is not part of it. -/
def string : Scan String := do
  if ← skipText "\"\"\"" then
    let _ ← skip '\n'
    return String.ofList (← ofFunction (longBasic? false))
  else if ← skipText "'''" then
    let _ ← skip '\n'
    return String.ofList (← ofFunction longLiteral?)
  else shortString

/-! ### Keys -/

def isKeyChar (c : Char) : Bool := c.isAlphanum || c = '_' || c = '-'

def simpleKey : Scan String := do
  match ← next? with
  | some '"' | some '\'' => shortString
  | _ =>
    match ← span isKeyChar with
    | [] => failure
    | cs => return String.ofList cs

/-- How many lists and tables may be inside each other, and how many keys may be joined. -/
def limit : Nat := 79

/-- The keys that are joined by points, with blanks around them. -/
def keysUpTo : Nat → Scan (List String)
  | 0 => failure
  | n + 1 => do
    blanks
    let key ← simpleKey
    blanks
    if ← skip '.' then return key :: (← keysUpTo n) else return [key]

def keys : Scan (List String) := keysUpTo limit

end Dataflow.Document.Toml
