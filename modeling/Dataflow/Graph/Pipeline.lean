import Dataflow.Channel
import Dataflow.Graph.Error
import Dataflow.Logic
import Dataflow.Run.Options

/-!
Pipelines and their nodes. A node runs once in a run: it takes one value from each input, acts,
and publishes to its outputs. Its body is logic, or a pipeline of its own.

A pipeline is built step by step. Both `declare` and `addNode` give a new pipeline or refuse, and
every node is wired to channels that are declared in its own pipeline, by identity.
-/

namespace Dataflow

mutual

inductive Body where
  | source (logic : Logic)
  | sink (logic : Logic)
  | transform (logic : Logic)
  | composite (inner : Pipeline)

structure Node where
  name : String
  inputs : List Channel
  outputs : List Channel
  body : Body

structure Pipeline where
  /-- Tells pipelines of the same name apart. -/
  id : Nat
  name : String
  options : RunOptions
  /-- In the order of declaration. -/
  channels : List Channel
  /-- In the order of registration. -/
  nodes : List Node

end

inductive NodeKind where
  | source
  | sink
  | transform
  | composite
deriving DecidableEq, Inhabited

namespace NodeKind

def name : NodeKind → String
  | source => "source"
  | sink => "sink"
  | transform => "transform"
  | composite => "composite"

def tag : NodeKind → String
  | source => "Source"
  | sink => "Sink"
  | transform => "Transform"
  | composite => "Composite"

/-- The shape of logic that a node of this kind runs. -/
def shape : NodeKind → Shape
  | source => .producer
  | _ => .function

end NodeKind

def Body.kind : Body → NodeKind
  | .source _ => .source
  | .sink _ => .sink
  | .transform _ => .transform
  | .composite _ => .composite

namespace Node

def kind (n : Node) : NodeKind := n.body.kind

/-- The pipeline that a composite wraps. -/
def inner? (n : Node) : Option Pipeline :=
  match n.body with
  | .composite p => some p
  | _ => none

/-- Inputs, then outputs. -/
def channels (n : Node) : List Channel := n.inputs ++ n.outputs

end Node

namespace Pipeline

def new (id : Nat) (name : String) (options : RunOptions := {}) : Pipeline :=
  ⟨id, name, options, [], []⟩

def channel? (p : Pipeline) (name : String) : Option Channel :=
  p.channels.find? fun c => c.name = name

def node? (p : Pipeline) (name : String) : Option Node :=
  p.nodes.find? fun n => n.name = name

/-- Declares the channel `name`, which gets the identity `id`. -/
def declare (p : Pipeline) (id : Nat) (name : String) (type : ValueType) :
    Except GraphError (Pipeline × Channel) :=
  if (p.channel? name).isSome then .error (.duplicateChannel p.name name)
  else
    let c : Channel := ⟨id, name, type⟩
    .ok ({ p with channels := p.channels ++ [c] }, c)

/-- The first channel of a node that is not the one declared here under its name. -/
def foreign? (p : Pipeline) (n : Node) : Option Channel :=
  n.channels.find? fun c => p.channel? c.name ≠ some c

def addNode (p : Pipeline) (n : Node) : Except GraphError Pipeline :=
  if (p.node? n.name).isSome then .error (.duplicateNode p.name n.name)
  else
    match p.foreign? n with
    | some c => .error (.unknownChannel p.name c.name s!"node '{n.name}'")
    | none => .ok { p with nodes := p.nodes ++ [n] }

@[simp] theorem channels_new (id : Nat) (name : String) (o : RunOptions) :
    (new id name o).channels = [] := rfl

@[simp] theorem nodes_new (id : Nat) (name : String) (o : RunOptions) :
    (new id name o).nodes = [] := rfl

end Pipeline

end Dataflow
