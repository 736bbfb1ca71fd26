import Dataflow.Definition.Literal
import Dataflow.Graph.Boundary
import Dataflow.Registry

/-!
From definitions to pipelines. A definition is checked in the order in which it is written, and
the first entry that is wrong is what gets reported: in a pipeline its name, then its channels,
then its nodes; in a node its name, the channels it names, its kind, and what it runs.

Every pipeline and channel gets an identity of its own. `fresh` stands for the first number that
is not an identity yet.
-/

namespace Dataflow

/-- A field that the entry `item` cannot do without. -/
def required {α : Type} (field : Option α) (item name : String) : Except DefinitionError α :=
  match field with
  | some a => .ok a
  | none => .error (.missingField item name)

namespace ChannelDefinition

/-- Declares the channel, which is described at the given position. -/
def declareIn (p : Pipeline) (fresh position : Nat) (c : ChannelDefinition) :
    Except DefinitionError (Pipeline × Nat) := do
  let name ← required c.name s!"channel #{position}" "name"
  let typeName ← required c.type s!"channel '{name}'" "type"
  match ValueType.ofName? typeName with
  | none => .error (.unknownType name typeName)
  | some type =>
    let (p, _) ← (p.declare fresh name type).mapError .graph
    return (p, fresh + 1)

def declareAllIn (p : Pipeline) (fresh : Nat) :
    Nat → List ChannelDefinition → Except DefinitionError (Pipeline × Nat)
  | _, [] => .ok (p, fresh)
  | position, c :: rest => do
    let (p, fresh) ← c.declareIn p fresh position
    declareAllIn p fresh (position + 1) rest

end ChannelDefinition

namespace NodeKind

def ofName? (s : String) : Option NodeKind :=
  match s with
  | "source" => some source
  | "sink" => some sink
  | "transform" => some transform
  | "composite" => some composite
  | _ => none

end NodeKind

namespace NodeDefinition

/-- The declared channels with the given names. -/
def resolve (p : Pipeline) (node : String) (names : List String) :
    Except DefinitionError (List Channel) :=
  names.mapM fun name =>
    match p.channel? name with
    | some c => .ok c
    | none => .error (.graph (.unknownChannel p.name name s!"node '{node}'"))

/-- The kind that a node says it is, up to case and blanks around it; if it does not say, the
kind that its channels and its pipeline show. -/
def resolvedKind (item : String) (n : NodeDefinition) : Except DefinitionError NodeKind :=
  match n.kind with
  | some text =>
    let name := (Text.trim text).toLower
    match NodeKind.ofName? name with
    | some kind => .ok kind
    | none => .error (.invalid item
        s!"unknown kind '{name}' (expected source, sink, transform or composite)")
  | none =>
    .ok <|
      if n.pipeline.isSome then .composite
      else if n.inputs.isEmpty then .source
      else if n.outputs.isEmpty then .sink
      else .transform

/-- The logic under `key`, if it has the shape that the node needs. -/
def resolveLogic (registry : Registry) (node key : String) (kind : NodeKind) :
    Except DefinitionError Logic :=
  match registry.get? key with
  | none => .error (.unknownLogic node key)
  | some logic =>
    if logic.shape = kind.shape then .ok logic else .error (.logicShape node key kind.shape)

end NodeDefinition

mutual

/-- The pipeline that a definition describes, with the next unused identity. `item` names the
definition in messages. -/
def PipelineDefinition.build (registry : Registry) (item : String) :
    PipelineDefinition → Nat → Except DefinitionError (Pipeline × Nat)
  | ⟨name, channels, nodes, _, options⟩, fresh => do
    let name ← required name item "name"
    let options := (options.map OptionsDefinition.toRunOptions).getD {}
    let channels ← required channels item "channels"
    let (p, fresh) ←
      ChannelDefinition.declareAllIn (Pipeline.new fresh name options) (fresh + 1) 1 channels
    match nodes with
    | none => .error (.missingField item "nodes")
    | some nodes => NodeDefinition.addAllTo registry p fresh 1 nodes

def NodeDefinition.addAllTo (registry : Registry) (p : Pipeline) (fresh : Nat) :
    Nat → List NodeDefinition → Except DefinitionError (Pipeline × Nat)
  | _, [] => .ok (p, fresh)
  | position, n :: rest => do
    let name ← required n.name s!"node #{position}" "name"
    let (node, fresh) ← n.build registry p name fresh
    let p ← (p.addNode node).mapError .graph
    NodeDefinition.addAllTo registry p fresh (position + 1) rest

/-- The node that a definition describes, wired to the channels of `p`. -/
def NodeDefinition.build (registry : Registry) (p : Pipeline) (name : String) :
    NodeDefinition → Nat → Except DefinitionError (Node × Nat)
  | ⟨given, kindText, inputNames, outputNames, logic, pipeline⟩, fresh => do
    let item := s!"node '{name}'"
    let inputs ← NodeDefinition.resolve p name inputNames
    let outputs ← NodeDefinition.resolve p name outputNames
    let kind ←
      NodeDefinition.resolvedKind item ⟨given, kindText, inputNames, outputNames, logic, pipeline⟩
    match logic, pipeline with
    | some _, some _ =>
      .error (.invalid item "give either 'logic' or a nested 'pipeline', not both")
    | none, some inner =>
      if kind ≠ .composite then
        .error (.invalid item s!"a {kind.name} node cannot wrap a nested pipeline")
      else if inner.initialData.isSome then
        .error (.invalid item "a nested pipeline cannot declare initial_data")
      else do
        let (inner, fresh) ← inner.build registry s!"{item} pipeline" fresh
        let node ← (Node.composite name inputs outputs inner (fun _ => 0) false).mapError .graph
        return (node, fresh)
    | logic, none =>
      if kind = .composite then .error (.missingField item "pipeline")
      else
        match logic with
        | none => .error (.missingField item "logic")
        | some key => do
          let logic ← NodeDefinition.resolveLogic registry name key kind
          let node ← (Node.ofLogic kind name inputs outputs logic).mapError .graph
          return (node, fresh)

end

/-- The seeds that `entries` give to the channels of `p`. -/
def Literal.seeds (p : Pipeline) :
    List (String × Literal) → Payload → Except DefinitionError Payload
  | [], seeds => .ok seeds
  | (name, l) :: rest, seeds =>
    match p.channel? name with
    | none => .error (.graph (.unknownChannel p.name name "initial data"))
    | some c => do
      let v ← l.forChannel c
      Literal.seeds p rest (seeds.insert name v)

/-- The pipeline of a definition and the seeds for a run of it, with the next unused identity. -/
def PipelineDefinition.interpret (registry : Registry) (d : PipelineDefinition) (fresh : Nat) :
    Except DefinitionError (Pipeline × Payload × Nat) := do
  let (p, fresh) ← d.build registry "pipeline" fresh
  let seeds ← Literal.seeds p (d.initialData.getD []) .empty
  return (p, seeds, fresh)

/-- The outermost pipeline of a document. -/
def Definition.root (d : Definition) : Except DefinitionError PipelineDefinition :=
  required d.pipeline "definition" "pipeline"

end Dataflow
