import Dataflow.Graph.Pipeline
import Dataflow.Text.Blank

/-!
How a node may be wired. Its name is not blank, the number of its inputs and outputs fits its
kind, no channel name is listed twice, and none is both an input and an output.
-/

namespace Dataflow

inductive WiringFault where
  | blankName
  | sourceWithInputs
  | sourceWithoutOutputs
  | sinkWithOutputs
  | sinkWithoutInputs
  | transformOneSided
  | repeatedInput (channel : String)
  | repeatedOutput (channel : String)
  | loop (channel : String)
  | logicForComposite
  | shapeMismatch (kind : NodeKind) (shape : Shape)
deriving DecidableEq

def WiringFault.message : WiringFault → String
  | blankName => "node name must not be empty"
  | sourceWithInputs => "a source node takes no inputs"
  | sourceWithoutOutputs => "a source node needs at least one output"
  | sinkWithOutputs => "a sink node has no outputs"
  | sinkWithoutInputs => "a sink node needs at least one input"
  | transformOneSided => "a transform node needs at least one input and one output"
  | repeatedInput channel => s!"input channel '{channel}' is listed twice"
  | repeatedOutput channel => s!"output channel '{channel}' is listed twice"
  | loop channel => s!"channel '{channel}' is both an input and an output"
  | logicForComposite => "composite nodes are built from a pipeline, not logic"
  | shapeMismatch kind shape => s!"{kind.name} nodes cannot run {shape.name} logic"

/-- The first name that occurred before. -/
def firstRepeated? : List String → Option String
  | names => go [] names
where
  go (seen : List String) : List String → Option String
    | [] => none
    | n :: rest => if n ∈ seen then some n else go (n :: seen) rest

namespace Node

/-- What the kind of a node asks of the number of its channels. -/
def cardinalityFault? (kind : NodeKind) (inputs outputs : List Channel) : Option WiringFault :=
  match kind with
  | .source =>
    if inputs ≠ [] then some .sourceWithInputs
    else if outputs = [] then some .sourceWithoutOutputs
    else none
  | .sink =>
    if outputs ≠ [] then some .sinkWithOutputs
    else if inputs = [] then some .sinkWithoutInputs
    else none
  | .transform => if inputs = [] ∨ outputs = [] then some .transformOneSided else none
  | .composite => none

/-- The first fault in the wiring of a node, in the order name, numbers, repetitions, loops. -/
def wiringFault? (n : Node) : Option WiringFault :=
  if Text.trim n.name = "" then some .blankName
  else
    match cardinalityFault? n.kind n.inputs n.outputs with
    | some fault => some fault
    | none =>
      match firstRepeated? (n.inputs.map (·.name)) with
      | some c => some (.repeatedInput c)
      | none =>
        match firstRepeated? (n.outputs.map (·.name)) with
        | some c => some (.repeatedOutput c)
        | none =>
          (n.inputs.find? fun i => n.outputs.any fun o => o.name = i.name).map (.loop ·.name)

/-- The node itself, if its wiring is sound. -/
def checked (n : Node) : Except GraphError Node :=
  match n.wiringFault? with
  | some fault => .error (.invalidNode n.name fault.message)
  | none => .ok n

/-- The body that runs `logic` as a node of the given kind. -/
def bodyOf (kind : NodeKind) (logic : Logic) : Except WiringFault Body :=
  match kind, logic.shape with
  | .source, .producer => .ok (.source logic)
  | .sink, .function => .ok (.sink logic)
  | .transform, .function => .ok (.transform logic)
  | .composite, _ => .error .logicForComposite
  | kind, shape => .error (.shapeMismatch kind shape)

/-- A node of the given kind that runs `logic`. -/
def ofLogic (kind : NodeKind) (name : String) (inputs outputs : List Channel) (logic : Logic) :
    Except GraphError Node :=
  match bodyOf kind logic with
  | .error fault => .error (.invalidNode name fault.message)
  | .ok body => checked ⟨name, inputs, outputs, body⟩

def source (name : String) (outputs : List Channel) (logic : Logic) : Except GraphError Node :=
  checked ⟨name, [], outputs, .source logic⟩

def sink (name : String) (inputs : List Channel) (logic : Logic) : Except GraphError Node :=
  checked ⟨name, inputs, [], .sink logic⟩

def transform (name : String) (inputs outputs : List Channel) (logic : Logic) :
    Except GraphError Node :=
  checked ⟨name, inputs, outputs, .transform logic⟩

end Node

end Dataflow
