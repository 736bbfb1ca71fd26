import Dataflow.Graph.Supply
import Dataflow.Graph.Wiring
import Dataflow.Text.Quoted

/-!
How a pipeline becomes a single node. The inputs of the node are exactly the channels that the
pipeline reads and does not write; each output is written inside and not read there; channels of
the same name agree on their type; and every inner node is sure to run once the inputs are in.
-/

namespace Dataflow

inductive BoundaryFault where
  | alreadyRun (inner : String)
  | inputsDiffer (inner : String) (expected missing unexpected : List String)
  | notProduced (output inner : String)
  | consumedInside (output inner : String)
  | typesDiffer (channel : String) (outside inside : ValueType)
  | starved (error : GraphError)
deriving DecidableEq

def BoundaryFault.message : BoundaryFault → String
  | alreadyRun inner => s!"inner pipeline '{inner}' has already been run"
  | inputsDiffer inner expected missing unexpected =>
    let inBraces := Text.braced (expected.map Text.quoted)
    let lacking := Text.bracketed (missing.map Text.quoted)
    let extra := Text.bracketed (unexpected.map Text.quoted)
    s!"inner pipeline '{inner}' expects inputs {inBraces}; missing {lacking}, unexpected {extra}"
  | notProduced output inner => s!"output '{output}' is not produced inside '{inner}'"
  | consumedInside output inner =>
    s!"output '{output}' is consumed inside '{inner}' and would never reach the outer pipeline"
  | typesDiffer channel outside inside =>
    s!"channel '{channel}' is {outside.name} outside but {inside.name} inside"
  | starved error => error.message

namespace Pipeline

def inputsFault? (inner : Pipeline) (inputs : List Channel) : Option BoundaryFault :=
  let expected := inner.boundaryInputs
  let declared := (inputs.map (·.name)).eraseDups.mergeSort (· ≤ ·)
  if expected = declared then none
  else
    some (.inputsDiffer inner.name expected (expected.filter (· ∉ declared))
      (declared.filter (· ∉ expected)))

def outputFault? (inner : Pipeline) (output : Channel) : Option BoundaryFault :=
  if output.name ∉ inner.produced then some (.notProduced output.name inner.name)
  else if output.name ∈ inner.consumed then some (.consumedInside output.name inner.name)
  else none

def typeFault? (inner : Pipeline) (outer : Channel) : Option BoundaryFault :=
  match inner.channel? outer.name with
  | none => none
  | some c => if c.type = outer.type then none else some (.typesDiffer outer.name outer.type c.type)

/-- The first thing that keeps `inner` from standing behind these inputs and outputs. -/
def boundaryFault? (inner : Pipeline) (queued : Channel → Nat) (started : Bool)
    (inputs outputs : List Channel) : Option BoundaryFault :=
  if started then some (.alreadyRun inner.name)
  else
    (inner.inputsFault? inputs).or <|
    (outputs.findSome? inner.outputFault?).or <|
    ((inputs ++ outputs).findSome? inner.typeFault?).or <|
    match inner.checkSatisfiable queued (inputs.map (·.name)) with
    | .error e => some (.starved e)
    | .ok _ => none

end Pipeline

/-- A node that runs `inner`, given how many values wait on its channels and whether it has been
started. -/
def Node.composite (name : String) (inputs outputs : List Channel) (inner : Pipeline)
    (queued : Channel → Nat) (started : Bool) : Except GraphError Node :=
  match inner.boundaryFault? queued started inputs outputs with
  | some fault => .error (.compositeMismatch name fault.message)
  | none => Node.checked ⟨name, inputs, outputs, .composite inner⟩

end Dataflow
