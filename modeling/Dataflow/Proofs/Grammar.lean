import Dataflow.Definition.Load
import Mathlib.Tactic.Lemma

/-!
Which definitions describe a pipeline, in terms of what is written in them and of the registry
alone: the names and types of channels, the wiring and the kind of each node, the logic that its
key stands for, and how a nested definition fits behind its node. Identities, counts and the order
of checks do not occur.
-/

namespace Dataflow

/-- The channel gives itself this name and this type. -/
def ChannelDefinition.Declares (c : ChannelDefinition) (name : String) (type : ValueType) : Prop :=
  c.name = some name ∧
    ∃ text, c.type = some text ∧ ((Text.trim text).toLower, type) ∈ ValueType.names

/-- How many inputs and outputs go with a kind. -/
def NodeKind.Admits : NodeKind → List String → List String → Prop
  | source, inputs, outputs => inputs = [] ∧ outputs ≠ []
  | sink, inputs, outputs => inputs ≠ [] ∧ outputs = []
  | transform, inputs, outputs => inputs ≠ [] ∧ outputs ≠ []
  | composite, _, _ => True

namespace NodeDefinition

/-- Every pair of a reading node and an input of it, by channel name. -/
def reads (nodes : List NodeDefinition) : List String := nodes.flatMap (·.inputs)

def writes (nodes : List NodeDefinition) : List String := nodes.flatMap (·.outputs)

/-- The kind of the node, written out or left to what else is written. -/
inductive HasKind (n : NodeDefinition) : NodeKind → Prop
  | explicit {text : String} {kind : NodeKind} (given : n.kind = some text)
      (same : (Text.trim text).toLower = kind.name) : HasKind n kind
  | composite (unsaid : n.kind = none) (nested : n.pipeline ≠ none) : HasKind n .composite
  | source (unsaid : n.kind = none) (simple : n.pipeline = none) (inputs : n.inputs = []) :
      HasKind n .source
  | sink (unsaid : n.kind = none) (simple : n.pipeline = none) (inputs : n.inputs ≠ [])
      (outputs : n.outputs = []) : HasKind n .sink
  | transform (unsaid : n.kind = none) (simple : n.pipeline = none) (inputs : n.inputs ≠ [])
      (outputs : n.outputs ≠ []) : HasKind n .transform

/-- The node is named, and is wired to channels of the level, each at most once. -/
structure Wired (channels : List ChannelDefinition) (n : NodeDefinition) : Prop where
  named : ∃ name, n.name = some name ∧ Text.trim name ≠ ""
  declared : ∀ x ∈ n.inputs ++ n.outputs, ∃ c ∈ channels, c.name = some x
  inputs : n.inputs.Nodup
  outputs : n.outputs.Nodup
  disjoint : ∀ x ∈ n.inputs, x ∉ n.outputs

/-- The node runs logic that the registry has, in the shape that its kind needs, and has as many
inputs and outputs as go with the kind. -/
def Runs (registry : Registry) (n : NodeDefinition) : Prop :=
  ∃ kind key logic, n.HasKind kind ∧ kind ≠ .composite ∧ n.logic = some key ∧
    registry.get? key = some logic ∧ logic.shape = kind.shape ∧ kind.Admits n.inputs n.outputs

/-- The nodes can take their turns in some order so that each finds, on every input, a value for
every node that reads the channel: one if the channel is among those given, and one from each node
before it that writes the channel. -/
def Satisfiable (given : List String) (nodes : List NodeDefinition) : Prop :=
  ∃ order : List NodeDefinition, order.Perm nodes ∧
    ∀ pre n post, order = pre ++ n :: post → ∀ x ∈ n.inputs,
      (reads nodes).count x ≤ (writes pre).count x + if x ∈ given then 1 else 0

/-- The node wraps the pipeline `inner`, and the two agree on what passes between them. -/
structure Wraps (channels : List ChannelDefinition) (n : NodeDefinition)
    (inner : PipelineDefinition) : Prop where
  kind : n.HasKind .composite
  plain : n.logic = none
  unseeded : inner.initialData = none
  inputs : ∀ x, x ∈ n.inputs ↔
    x ∈ reads (inner.nodes.getD []) ∧ x ∉ writes (inner.nodes.getD [])
  outputs : ∀ x ∈ n.outputs, x ∈ writes (inner.nodes.getD []) ∧ x ∉ reads (inner.nodes.getD [])
  types : ∀ x ∈ n.inputs ++ n.outputs, ∀ c ∈ channels, ∀ d ∈ inner.channels.getD [],
    ∀ outside inside, c.Declares x outside → d.Declares x inside → inside = outside
  satisfiable : Satisfiable n.inputs (inner.nodes.getD [])

end NodeDefinition

namespace PipelineDefinition

/-- The level has these channels and nodes, each of them with a name of its own. -/
structure Level (d : PipelineDefinition) (channels : List ChannelDefinition)
    (nodes : List NodeDefinition) : Prop where
  named : d.name ≠ none
  channels_eq : d.channels = some channels
  nodes_eq : d.nodes = some nodes
  typed : ∀ c ∈ channels, ∃ name type, c.Declares name type
  names : (channels.map (·.name)).Nodup
  labels : (nodes.map (·.name)).Nodup
  wired : ∀ n ∈ nodes, n.Wired channels

/-- The definition is complete and consistent, down to the innermost level. -/
inductive WellFormed (registry : Registry) : PipelineDefinition → Prop
  | intro {d : PipelineDefinition} {channels : List ChannelDefinition}
      {nodes : List NodeDefinition} (level : d.Level channels nodes)
      (simple : ∀ n ∈ nodes, n.pipeline = none → n.Runs registry)
      (nested : ∀ n ∈ nodes, ∀ inner, n.pipeline = some inner → n.Wraps channels inner)
      (below : ∀ n ∈ nodes, ∀ inner, n.pipeline = some inner → inner.WellFormed registry) :
      WellFormed registry d

end PipelineDefinition

/-- What may be written where values of a type are expected. -/
inductive Literal.Suits : ValueType → Literal → Prop
  | any (l : Literal) : Suits .any l
  | boolean (b : Bool) : Suits .boolean (.boolean b)
  | integer (n : Int64) : Suits .integer (.integer n)
  | float (x : Float) : Suits .float (.float x)
  | widened (n : Int64) : Suits .float (.integer n)
  | text (s : String) : Suits .text (.text s)
  | sequence (items : List Literal) : Suits .sequence (.sequence items)
  | mapping (fields : List (String × Literal)) : Suits .mapping (.mapping fields)
  | encoded {s : String} {data : List UInt8} (h : Base64.decode s.toUTF8.toList = .ok data) :
      Suits .bytes (.text s)
  | listed {items : List Literal}
      (h : ∀ l ∈ items, ∃ n, l = .integer n ∧ 0 ≤ n.toInt ∧ n.toInt < 256) :
      Suits .bytes (.sequence items)

/-- Every seed is for a channel of the outermost level and suits its type. -/
def PipelineDefinition.Seeded (d : PipelineDefinition) : Prop :=
  ∀ e ∈ d.initialData.getD [], ∃ c ∈ d.channels.getD [], ∃ type,
    c.Declares e.1 type ∧ e.2.Suits type

end Dataflow
