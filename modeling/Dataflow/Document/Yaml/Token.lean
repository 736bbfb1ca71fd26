import Dataflow.Document.Yaml.Meaning
import Dataflow.Document.Yaml.Spot

/-!
The tokens of YAML texts that have content: scalars in all styles, anchors, tags and directives.
-/

namespace Dataflow.Document.Yaml

inductive Token where
  | version (major minor : Nat)
  | handle (name expansion : String)
  | documentStart
  | documentEnd
  | blockSequence
  | blockMapping
  | blockEnd
  | flowSequence
  | flowSequenceEnd
  | flowMapping
  | flowMappingEnd
  | blockEntry
  | flowEntry
  | key
  | value
  | alias (name : String)
  | anchor (name : String)
  | tag (handle suffix : String)
  | scalar (style : Style) (text : String)
deriving DecidableEq

/-! ### Gaps inside a scalar -/

/-- Blanks and breaks that stand between two visible characters of a scalar. -/
inductive Gap where
  /-- Blanks, from the last to the first. -/
  | blanks (cs : List Char)
  /-- A break, then others from the last to the first. Blanks do not count. -/
  | breaks (first : Char) (more : List Char)
  /-- After a break that was escaped. -/
  | continued (more : List Char)

namespace Gap

def none : Gap := blanks []

def add (c : Char) : Gap → Gap
  | blanks cs => if isBreak c then breaks c [] else blanks (c :: cs)
  | breaks f more => if isBreak c then breaks f (c :: more) else breaks f more
  | continued more => if isBreak c then continued (c :: more) else continued more

/-- A single break becomes a space; of several, the first is left out. -/
def text : Gap → List Char
  | blanks cs => cs.reverse
  | breaks '\n' [] => [' ']
  | breaks '\n' more => more.reverse
  | breaks c more => c :: more.reverse
  | continued more => more.reverse

def isEmpty : Gap → Bool
  | blanks cs => cs.isEmpty
  | _ => false

/-- The gap goes over the end of a line. -/
def crossesLines : Gap → Bool
  | blanks _ => false
  | _ => true

end Gap

/-! ### Plain scalars -/

def isFlowMark (c : Char) : Bool :=
  c = ',' || c = '[' || c = ']' || c = '\x7b' || c = '\x7d'

/-- Whether a plain scalar ends in front of a character; none where it may not go on like that. -/
def plainEnds? (flow : Bool) (c : Char) (rest : List Spot) : Option Bool :=
  if flow ∧ c = ':' ∧ (first? rest).any fun d => isFlowMark d || d = '?' then none
  else some ((c = ':' && endsHere rest) || (flow && isFlowMark c))

/-- The rest of a plain scalar after a gap, whether it ended after a break, and what follows. Its
lines are indented by at least `indent`. -/
def plain? (flow : Bool) (indent : Int) : Gap → List Spot → Option (List Char × Bool × List Spot)
  | gap, [] => some ([], gap.crossesLines, [])
  | gap, s :: rest =>
    if isBlank s.char ∨ isBreak s.char then
      if gap.crossesLines ∧ s.char = '\t' ∧ s.column < indent then none
      else plain? flow indent (gap.add s.char) rest
    else if ¬ gap.isEmpty ∧
        ((¬ flow ∧ s.column < indent) ∨ atMarker (s :: rest) ∨ s.char = '#') then
      some ([], gap.crossesLines, s :: rest)
    else
      match plainEnds? flow s.char rest with
      | none => none
      | some true => some ([], gap.crossesLines, s :: rest)
      | some false => do
        let (cs, crossed, rest) ← plain? flow indent .none rest
        return (gap.text ++ s.char :: cs, crossed, rest)

/-! ### Quoted scalars -/

/-- A scalar between single quotes, where two of them stand for one. -/
def singleQuoted? : Gap → List Spot → Option (List Char × List Spot)
  | _, [] => none
  | gap, s :: rest =>
    if isBlank s.char ∨ isBreak s.char then singleQuoted? (gap.add s.char) rest
    else if atMarker (s :: rest) then none
    else if s.char = '\'' then
      match rest with
      | q :: rest' =>
        if q.char = '\'' then do
          let (cs, rest) ← singleQuoted? .none rest'
          return (gap.text ++ '\'' :: cs, rest)
        else some (gap.text, rest)
      | [] => some (gap.text, [])
    else do
      let (cs, rest) ← singleQuoted? .none rest
      return (gap.text ++ s.char :: cs, rest)

/-- What a letter after a backslash stands for. -/
def escaped? : Char → Option Char
  | '0' => some '\x00'
  | 'a' => some '\x07'
  | 'b' => some '\x08'
  | 't' => some '\t'
  | '\t' => some '\t'
  | 'n' => some '\n'
  | 'v' => some '\x0b'
  | 'f' => some '\x0c'
  | 'r' => some '\r'
  | 'e' => some '\x1b'
  | ' ' => some ' '
  | '"' => some '"'
  | '/' => some '/'
  | '\\' => some '\\'
  | 'N' => some '\u0085'
  | '_' => some '\u00a0'
  | 'L' => some '\u2028'
  | 'P' => some '\u2029'
  | _ => none

/-- How many hexadecimal digits follow a letter after a backslash. -/
def hexWidth? : Char → Option Nat
  | 'x' => some 2
  | 'u' => some 4
  | 'U' => some 8
  | _ => none

/-- Where the reader of a scalar between double quotes stands. -/
inductive Reader where
  | between (gap : Gap)
  /-- After a backslash. -/
  | escape
  /-- So many digits are to come for a number that has begun. -/
  | number (digits value : Nat)

/-- The rest of a scalar between double quotes. -/
def doubleQuoted? : Reader → List Spot → Option (List Char × List Spot)
  | _, [] => none
  | .between gap, s :: rest =>
    if isBlank s.char ∨ isBreak s.char then doubleQuoted? (.between (gap.add s.char)) rest
    else if atMarker (s :: rest) then none
    else if s.char = '"' then some (gap.text, rest)
    else if s.char = '\\' then do
      let (cs, rest) ← doubleQuoted? .escape rest
      return (gap.text ++ cs, rest)
    else do
      let (cs, rest) ← doubleQuoted? (.between .none) rest
      return (gap.text ++ s.char :: cs, rest)
  | .escape, s :: rest =>
    if isBreak s.char then doubleQuoted? (.between (.continued [])) rest
    else
      match hexWidth? s.char with
      | some width => doubleQuoted? (.number width 0) rest
      | none => do
        let c ← escaped? s.char
        let (cs, rest) ← doubleQuoted? (.between .none) rest
        return (c :: cs, rest)
  | .number digits value, s :: rest => do
    let d ← Text.hexValue? s.char
    let value := 16 * value + d
    if 1 < digits then doubleQuoted? (.number (digits - 1) value) rest
    else if value.isValidChar then
      let (cs, rest) ← doubleQuoted? (.between .none) rest
      return (Char.ofNat value :: cs, rest)
    else none

/-! ### Block scalars -/

/-- What happens to the breaks at the end of a block scalar. -/
inductive Chomping where
  | strip
  | clip
  | keep

/-- The breaks in front of the next line that has content, the largest indentation seen, and what
follows. As long as no indentation is known, that of the text is taken. -/
def blockBreaks? (indent : Option Nat) : (widest : Nat) → List Spot →
    Option (List Char × Nat × List Spot)
  | widest, [] => some ([], widest, [])
  | widest, s :: rest =>
    let inside := indent.any fun n => n ≤ s.column
    if s.char = ' ' ∧ ¬ inside then blockBreaks? indent widest rest
    else if s.char = '\t' ∧ ¬ inside then none
    else
      let widest := max widest s.column
      if isBreak s.char then do
        let (cs, widest, rest) ← blockBreaks? indent widest rest
        return (s.char :: cs, widest, rest)
      else some ([], widest, s :: rest)

/-- A line of a block scalar, with its break and the breaks after it. -/
structure BlockLine where
  content : List Char
  ending : List Char
  more : List Char

/-- The lines of a block scalar, and what follows them. -/
def blockLines? (indent : Nat) : (count : Nat) → List Spot → Option (List BlockLine × List Spot)
  | 0, ss => some ([], ss)
  | count + 1, ss =>
    if (ss.head?.map Spot.column) ≠ some indent then some ([], ss)
    else do
      let (content, rest) := ss.span fun s => ¬ isBreak s.char
      let ending := (first? rest).toList
      let (more, _, rest) ← blockBreaks? (some indent) 0 rest.tail
      let (lines, rest) ← blockLines? indent count rest
      return (⟨content.map Spot.char, ending, more⟩ :: lines, rest)

/-- The text of the lines, after a line with the given breaks. Between two folded lines that do
not begin with a blank, a single break becomes a space. -/
def blockText (fold : Bool) (chomping : Chomping) (ending more : List Char) (afterBlank : Bool) :
    List BlockLine → List Char
  | [] =>
    match chomping with
    | .strip => []
    | .clip => ending
    | .keep => ending ++ more
  | l :: rest =>
    let startsBlank := l.content.head?.any isBlank
    let joint :=
      if fold && ending.head? = some '\n' && !afterBlank && !startsBlank then
        if more = [] then [' '] else []
      else ending
    joint ++ more ++ l.content ++ blockText fold chomping l.ending l.more startsBlank rest

def chomping? : Char → Option Chomping
  | '+' => some .keep
  | '-' => some .strip
  | _ => none

/-- An indentation that is written out; zero is none. -/
def increment? (c : Char) : Option Nat :=
  if c.isDigit ∧ c ≠ '0' then some (c.toNat - '0'.toNat) else none

/-- The marks in front of a block scalar, in any order. -/
def blockHeader (ss : List Spot) : Chomping × Option Nat × List Spot :=
  match ss with
  | [] => (.clip, none, [])
  | s :: rest =>
    match chomping? s.char with
    | some ch =>
      match (first? rest).bind increment? with
      | some n => (ch, some n, rest.tail)
      | none => (ch, none, rest)
    | none =>
      match increment? s.char with
      | none => (.clip, none, ss)
      | some n =>
        match (first? rest).bind chomping? with
        | some ch => (ch, some n, rest.tail)
        | none => (.clip, some n, rest)

/-- What follows the blanks and the comment at the end of a line, if nothing else is there. -/
def lineEnd? (ss : List Spot) : Option (List Spot) :=
  let ss := ss.dropWhile fun s => isBlank s.char
  let ss := if first? ss = some '#' then ss.dropWhile fun s => ¬ isBreak s.char else ss
  match ss with
  | [] => some []
  | s :: rest => if isBreak s.char then some rest else none

/-- A block scalar after its first mark, inside something that is indented by `parent`. -/
def block? (fold : Bool) (parent : Int) (ss : List Spot) : Option (String × List Spot) := do
  let (chomping, increment, ss) := blockHeader ss
  let ss ← lineEnd? ss
  let outer := parent.toNat
  let given := increment.map fun n => outer + n
  let (breaks, widest, ss) ← blockBreaks? given 0 ss
  let indent := given.getD (max widest (max (parent + 1).toNat 1))
  let (lines, ss) ← blockLines? indent ss.length ss
  return (String.ofList (blockText fold chomping [] breaks false lines), ss)

/-! ### Anchors, tags and directives -/

/-- The name of an anchor, and what follows it. -/
def anchorName? (ss : List Spot) : Option (String × List Spot) :=
  let (name, rest) := ss.span fun s => isWordChar s.char
  let closed := endsHere rest ||
    (first? rest).any fun c => "?:,]\x7d%@`".toList.contains c
  if name = [] ∨ ¬ closed then none else some (text name, rest)

def isUriChar (verbatim : Bool) (c : Char) : Bool :=
  isWordChar c || ";/?:@&=+$.!~*'()".toList.contains c ||
    (verbatim && (c = ',' || c = '[' || c = ']'))

/-- The octets of an address, some of them escaped. -/
def uriOctets (verbatim : Bool) : List Spot → List UInt8 × List Spot
  | [] => ([], [])
  | s :: rest =>
    if s.char = '%' then
      match rest with
      | a :: b :: rest' =>
        match Text.hexNumber? [a.char, b.char] with
        | some n =>
          let (octets, rest) := uriOctets verbatim rest'
          (n.toUInt8 :: octets, rest)
        | none => ([], s :: rest)
      | _ => ([], s :: rest)
    else if isUriChar verbatim s.char then
      let (octets, rest) := uriOctets verbatim rest
      (s.char.toNat.toUInt8 :: octets, rest)
    else ([], s :: rest)

/-- An address, and what follows it. A percent sign that escapes nothing is an error. -/
def uri? (verbatim : Bool) (ss : List Spot) : Option (String × List Spot) := do
  let (octets, rest) := uriOctets verbatim ss
  if first? rest = some '%' then none
  else return (← String.fromUTF8? ⟨octets.toArray⟩, rest)

/-- The letters after an exclamation mark, if another one follows them. -/
def handle? (ss : List Spot) : Option (String × List Spot) :=
  let (letters, rest) := ss.span fun s => isWordChar s.char
  if first? rest = some '!' then some ("!" ++ text letters ++ "!", rest.tail) else none

/-- A tag, after its exclamation mark. -/
def tag? (flow : Bool) (ss : List Spot) : Option (Token × List Spot) := do
  let (tag, rest) ←
    if first? ss = some '<' then do
      let (suffix, rest) ← uri? true ss.tail
      if suffix = "" ∨ first? rest ≠ some '>' then none
      else some (Token.tag "" suffix, rest.tail)
    else
      match handle? ss with
      | some (handle, rest) => do
        let (suffix, rest) ← uri? false rest
        if suffix = "" then none else some (Token.tag handle suffix, rest)
      | none => do
        let (suffix, rest) ← uri? false ss
        return (if suffix = "" then Token.tag "" "!" else Token.tag "!" suffix, rest)
  if endsHere rest ∨ (flow ∧ first? rest = some ',') then some (tag, rest) else none

/-- A number of at most nine digits. -/
def versionNumber? (ss : List Spot) : Option (Nat × List Spot) :=
  let (digits, rest) := ss.span fun s => s.char.isDigit
  if digits = [] ∨ 9 < digits.length then none
  else some (Decimal.ofDigits (digits.map Spot.char), rest)

def skipBlanks (ss : List Spot) : List Spot := ss.dropWhile fun s => isBlank s.char

/-- A directive, after its percent sign; there are two kinds. -/
def directive? (ss : List Spot) : Option (Token × List Spot) := do
  let (name, rest) := ss.span fun s => isWordChar s.char
  if ¬ endsHere rest then none
  let (token, rest) ←
    if text name = "YAML" then do
      let (major, rest) ← versionNumber? (skipBlanks rest)
      if first? rest ≠ some '.' then none
      let (minor, rest) ← versionNumber? rest.tail
      return (Token.version major minor, rest)
    else if text name = "TAG" then do
      let rest := skipBlanks rest
      if first? rest ≠ some '!' then none
      let (handle, rest) ← handle? rest.tail <|> some ("!", rest.tail)
      if ¬ (first? rest).any isBlank then none
      let (expansion, rest) ← uri? true (skipBlanks rest)
      if expansion = "" ∨ ¬ endsHere rest then none
      return (Token.handle handle expansion, rest)
    else none
  return (token, ← lineEnd? rest)

end Dataflow.Document.Yaml
