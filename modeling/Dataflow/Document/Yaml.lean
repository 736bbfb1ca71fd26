import Dataflow.Document.Yaml.Layout
import Dataflow.Document.Yaml.Node

/-!
YAML documents. A text holds at most one document; if it holds none, it is that of nothing.
-/

namespace Dataflow.Document.Yaml

open Building

/-- The directives in front of a document. Each may be given once for what it is about. -/
def directives : (count : Nat) → (versionGiven : Bool) → (names : List String) → Building Unit
  | 0, _, _ => failure
  | count + 1, versionGiven, names => do
    match ← next? with
    | some (.version major minor) =>
      if versionGiven ∨ major ≠ 1 ∨ (minor ≠ 1 ∧ minor ≠ 2) then failure
      advance
      directives count true names
    | some (.handle name expansion) =>
      if name ∈ names then failure
      advance
      modify fun d => { d with handles := (name, expansion) :: d.handles }
      directives count versionGiven (name :: names)
    | _ => return

/-- Nothing follows the document but marks for its end. -/
def endOfText : Building Unit := do
  let d ← get
  unless d.tokens.all (· = .documentEnd) do failure

/-- The content of a document that was announced. -/
def content (fuel : Nat) : Building Tree := do
  match ← next? with
  | none | some .documentEnd | some .documentStart => nothing
  | some (.version ..) | some (.handle ..) => nothing
  | _ => node fuel true false

/-- The only document. A text may begin with its content, or with directives and a mark. -/
def document (fuel : Nat) : Building Tree := do
  match ← next? with
  | none => nothing
  | some .documentStart | some (.version ..) | some (.handle ..) =>
    directives fuel false []
    expect .documentStart
    let t ← content fuel
    endOfText
    return t
  | _ =>
    let t ← node fuel true false
    endOfText
    return t

/-- References may be followed a hundred times as often as there are parts of the document. -/
def source? (text : String) : Option Source := do
  let tokens ← tokens? text
  let (root, d) ← (document (4 * tokens.length + 8)).run { tokens := tokens }
  return { root := root, depth := 128, targets := d.targets, references := 100 * d.events }

end Dataflow.Document.Yaml
