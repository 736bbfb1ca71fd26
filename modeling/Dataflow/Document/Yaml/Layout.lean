import Dataflow.Document.Yaml.Token

/-!
From the text of a YAML document to its tokens.

Indentation stands for brackets, and that something is the key of a mapping shows only at the
colon after it. Therefore every token that may begin a key gets a slot in front, which is filled
when the colon comes. Outside of brackets, what stands at the indentation of its mapping has to
be a key.
-/

namespace Dataflow.Document.Yaml

/-- A place where a key may have begun. -/
structure Candidate where
  slot : Nat
  start : Spot
  required : Bool

structure Layout where
  /-- The tokens so far. Each place may get more than one, or none. -/
  slots : Array (List Token) := #[]
  indent : Int := -1
  /-- The indentations outside of the innermost one. -/
  outer : List Int := []
  keyAllowed : Bool := true
  candidate : Option Candidate := none
  /-- The candidates outside of each open bracket. -/
  suspended : List (Option Candidate) := []

namespace Layout

def inFlow (l : Layout) : Bool := !l.suspended.isEmpty

def push (l : Layout) (t : Token) : Layout := { l with slots := l.slots.push [t] }

/-- Gives up a candidate, unless it had to become a key. -/
def forget : Option Candidate → Option (Option Candidate)
  | some c => if c.required then none else some none
  | none => some none

def dropCandidate (l : Layout) : Option Layout := do
  return { l with candidate := ← forget l.candidate }

/-- A key is on one line and not longer than 1024 characters. -/
def refresh (here : Spot) : Option Candidate → Option (Option Candidate)
  | some c =>
    if c.start.line < here.line ∨ c.start.index + 1024 < here.index then forget (some c)
    else some (some c)
  | none => some none

def refreshAll (here : Spot) (l : Layout) : Option Layout := do
  return { l with
    candidate := ← refresh here l.candidate
    suspended := ← l.suspended.mapM (refresh here) }

/-- What begins here may be a key. -/
def mayBeKey (here : Spot) (l : Layout) : Option Layout :=
  if ¬ l.keyAllowed then some l
  else do
    let l ← l.dropCandidate
    let required := !l.inFlow && l.indent = here.column
    return { l with
      candidate := some ⟨l.slots.size, here, required⟩
      slots := l.slots.push [] }

/-- Closes everything that is indented by more than `column`. -/
def closeTo (column : Int) (l : Layout) : Layout :=
  if l.inFlow then l
  else
    let (slots, indent, outer) := go l.slots l.indent l.outer
    { l with slots := slots, indent := indent, outer := outer }
where
  go (slots : Array (List Token)) (indent : Int) : List Int → Array (List Token) × Int × List Int
    | [] => (slots, indent, [])
    | next :: rest =>
      if column < indent then go (slots.push [.blockEnd]) next rest
      else (slots, indent, next :: rest)

/-- Whether something at `column` is inside of all that is open. -/
def opensAt (column : Nat) (l : Layout) : Bool := !l.inFlow && l.indent < column

def indentTo (column : Nat) (l : Layout) : Layout :=
  { l with indent := column, outer := l.indent :: l.outer }

/-- Begins a collection at `column` if none has begun there. -/
def openAt (column : Nat) (t : Token) (l : Layout) : Layout :=
  if l.opensAt column then (l.push t).indentTo column else l

/-! ### Marks -/

def openFlow (here : Spot) (t : Token) (l : Layout) : Option Layout := do
  let l ← l.mayBeKey here
  return { l.push t with
    suspended := l.candidate :: l.suspended, candidate := none, keyAllowed := true }

def closeFlow (t : Token) (l : Layout) : Option Layout := do
  let l ← l.dropCandidate
  let l := { l.push t with keyAllowed := false }
  match l.suspended with
  | [] => return l
  | c :: rest => return { l with candidate := c, suspended := rest }

def flowEntry (l : Layout) : Option Layout := do
  let l ← l.dropCandidate
  return { l.push .flowEntry with keyAllowed := true }

def blockEntry (here : Spot) (l : Layout) : Option Layout := do
  if ¬ l.inFlow ∧ ¬ l.keyAllowed then none
  let l ← (l.openAt here.column .blockSequence).dropCandidate
  return { l.push .blockEntry with keyAllowed := true }

def key (here : Spot) (l : Layout) : Option Layout := do
  if ¬ l.inFlow ∧ ¬ l.keyAllowed then none
  let l ← (l.openAt here.column .blockMapping).dropCandidate
  return { l.push .key with keyAllowed := !l.inFlow }

/-- A colon makes a key of the candidate; without one, the key is empty. -/
def value (here : Spot) (l : Layout) : Option Layout :=
  match l.candidate with
  | some c =>
    let opens := l.opensAt c.start.column
    let tokens := if opens then [Token.blockMapping, .key] else [.key]
    let l := if opens then l.indentTo c.start.column else l
    some { l with
      slots := (l.slots.setIfInBounds c.slot tokens).push [.value]
      candidate := none
      keyAllowed := false }
  | none =>
    if ¬ l.inFlow ∧ ¬ l.keyAllowed then none
    else
      let l := l.openAt here.column .blockMapping
      some { l.push .value with keyAllowed := !l.inFlow }

/-- A mark of a document, or a directive, closes everything. -/
def outside (t : Token) (l : Layout) : Option Layout := do
  let l ← (l.closeTo (-1)).dropCandidate
  return { l.push t with keyAllowed := false }

def named (here : Spot) (t : Token) (l : Layout) : Option Layout := do
  let l ← l.mayBeKey here
  return { l.push t with keyAllowed := false }

end Layout

/-- Goes to the next token. Outside of brackets, a new line may begin with a key; where a key may
come, tabs are no blanks. -/
def skipGap (flow : Bool) : (keyAllowed inComment : Bool) → List Spot → Bool × List Spot
  | keyAllowed, _, [] => (keyAllowed, [])
  | keyAllowed, inComment, s :: rest =>
    if isBreak s.char then skipGap flow (keyAllowed || !flow) false rest
    else if inComment then skipGap flow keyAllowed true rest
    else if s.char = ' ' ∨ (s.char = '\t' ∧ (flow ∨ ¬ keyAllowed)) then
      skipGap flow keyAllowed false rest
    else if s.char = '#' then skipGap flow keyAllowed true rest
    else (keyAllowed, s :: rest)

/-- Whether a plain scalar begins here, after all other tokens have been looked for. -/
def beginsPlain (flow : Bool) (c : Char) (rest : List Spot) : Bool :=
  if c = '-' then !(first? rest).any isBlank
  else if c = '?' ∨ c = ':' then !flow && !endsHere rest
  else !"-?:,[]\x7b\x7d#&*!|>'\"%@`\t".toList.contains c

/-- The token that begins at `s`. -/
def Layout.token? (l : Layout) (s : Spot) (rest : List Spot) : Option (Layout × List Spot) :=
  let flow := l.inFlow
  let c := s.char
  if c = '%' ∧ s.column = 0 then do
    let (t, rest) ← directive? rest
    return (← l.outside t, rest)
  else if isMarker '-' (s :: rest) then do return (← l.outside .documentStart, rest.drop 2)
  else if isMarker '.' (s :: rest) then do return (← l.outside .documentEnd, rest.drop 2)
  else if c = '[' then do return (← l.openFlow s .flowSequence, rest)
  else if c = '\x7b' then do return (← l.openFlow s .flowMapping, rest)
  else if c = ']' then do return (← l.closeFlow .flowSequenceEnd, rest)
  else if c = '\x7d' then do return (← l.closeFlow .flowMappingEnd, rest)
  else if c = ',' then do return (← l.flowEntry, rest)
  else if c = '-' ∧ endsHere rest then do return (← l.blockEntry s, rest)
  else if c = '?' ∧ (flow ∨ endsHere rest) then do return (← l.key s, rest)
  else if c = ':' ∧ (flow ∨ endsHere rest) then do return (← l.value s, rest)
  else if c = '*' then do
    let (name, rest) ← anchorName? rest
    return (← l.named s (.alias name), rest)
  else if c = '&' then do
    let (name, rest) ← anchorName? rest
    return (← l.named s (.anchor name), rest)
  else if c = '!' then do
    let (t, rest) ← tag? flow rest
    return (← l.named s t, rest)
  else if (c = '|' ∨ c = '>') ∧ ¬ flow then do
    let l ← l.dropCandidate
    let (text, rest) ← block? (c = '>') l.indent rest
    return ({ l.push (.scalar (if c = '>' then .folded else .literal) text) with
      keyAllowed := true }, rest)
  else if c = '\'' then do
    let (cs, rest) ← singleQuoted? .none rest
    return (← l.named s (.scalar .quoted (String.ofList cs)), rest)
  else if c = '"' then do
    let (cs, rest) ← doubleQuoted? (.between .none) rest
    return (← l.named s (.scalar .quoted (String.ofList cs)), rest)
  else if beginsPlain flow c rest then do
    let (cs, crossed, rest) ← plain? flow (l.indent + 1) .none (s :: rest)
    let l ← l.named s (.scalar .plain (String.ofList cs))
    return ({ l with keyAllowed := crossed }, rest)
  else none

/-- All tokens from here on, of which there are at most `count`. -/
def Layout.tokens? : (count : Nat) → Layout → List Spot → Option (List Token)
  | 0, _, _ => none
  | count + 1, l, ss =>
    match skipGap l.inFlow l.keyAllowed false ss with
    | (_, []) => do
      let l ← (l.closeTo (-1)).dropCandidate
      return l.slots.toList.flatten
    | (keyAllowed, s :: rest) => do
      let l ← { l with keyAllowed := keyAllowed }.refreshAll s
      let (l, rest) ← (l.closeTo s.column).token? s rest
      Layout.tokens? count l rest

def tokens? (text : String) : Option (List Token) := do
  let ss ← spots? text
  Layout.tokens? (ss.length + 1) {} ss

end Dataflow.Document.Yaml
