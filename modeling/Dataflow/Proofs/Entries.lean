import Dataflow.Definition.Build
import Mathlib.Tactic.Lemma

/-!
The entries of a definition, in the order in which they are checked, and what is wrong with an
entry. Whether something is, depends on what stands before it: a reader goes through the entries
and keeps the names, types and kinds that it has come across.

Definitions are read block by block: a pipeline is a block, and a nested one is read within the
node that it belongs to. Identities, logic and options are nothing that an entry could offend
against, so the reader leaves them out.
-/

namespace Dataflow

/-! ### Entries -/

/-- Something that a definition says or leaves out. -/
inductive Definition.Entry where
  /-- A block begins, under this name. -/
  | block (name : Option String)
  /-- Whether channels are given. -/
  | channels (given : Bool)
  | channel (c : ChannelDefinition)
  /-- Whether nodes are given. -/
  | nodes (given : Bool)
  | node (name : Option String)
  | input (channel : String)
  | output (channel : String)
  | kind (text : Option String)
  /-- Whether there is logic, a nested pipeline, and initial data in that pipeline. -/
  | body (logic nested seeded : Bool)
  | logic (key : String)
  /-- The nested pipeline is complete and has to fit the node. -/
  | boundary
  | wiring
  /-- The node is complete and takes its place among the others. -/
  | listed
  | seed (channel : String) (l : Literal)

mutual

/-- A block: its name, its channels, its nodes. -/
def PipelineDefinition.entries : PipelineDefinition → List Definition.Entry
  | ⟨name, channels, nodes, _, _⟩ =>
    .block name :: .channels channels.isSome :: ((channels.getD []).map .channel ++
      match nodes with
      | none => [.nodes false]
      | some nodes => .nodes true :: NodeDefinition.allEntries nodes)

/-- Each node has its name before it and takes its place after it. -/
def NodeDefinition.allEntries : List NodeDefinition → List Definition.Entry
  | [] => []
  | n :: rest => .node n.name :: (n.entries ++ .listed :: NodeDefinition.allEntries rest)

/-- A node: its channels, its kind, what it runs, and then the rules for the whole. -/
def NodeDefinition.entries : NodeDefinition → List Definition.Entry
  | ⟨_, kind, inputs, outputs, logic, pipeline⟩ =>
    let seeded := (pipeline.bind (·.initialData)).isSome
    inputs.map .input ++ (outputs.map .output ++
      (.kind kind :: .body logic.isSome pipeline.isSome seeded :: ((logic.map .logic).toList ++
        ((match pipeline with
          | none => []
          | some inner => inner.entries ++ [.boundary]) ++ [.wiring]))))

end

/-- The entries of a whole document. The seeds come last, in key order like the initial data. -/
def PipelineDefinition.document (d : PipelineDefinition) : List Definition.Entry :=
  d.entries ++ (d.initialData.getD []).map fun e => .seed e.1 e.2

/-! ### Graphs without identities -/

def Channel.bare (c : Channel) : Channel := { c with id := 0 }

/-- A body of the kind. -/
def NodeKind.blank : NodeKind → Body
  | source => .source (.pure .producer fun _ => .returned .empty)
  | sink => .sink (.pure .function fun _ => .returned .empty)
  | transform => .transform (.pure .function fun _ => .returned .empty)
  | composite => .composite (.new 0 "")

def Node.bare (n : Node) : Node :=
  ⟨n.name, n.inputs.map Channel.bare, n.outputs.map Channel.bare, n.kind.blank⟩

/-- A pipeline without identities, options and logic. -/
def Pipeline.bare (p : Pipeline) : Pipeline :=
  ⟨0, p.name, {}, p.channels.map Channel.bare, p.nodes.map Node.bare⟩

/-! ### Reading -/

namespace Definition

/-- A block as far as it has been read. -/
structure Block where
  /-- How the block is called in messages. -/
  item : String
  pipeline : Pipeline
  /-- The node that is being read. -/
  node : String := ""
  inputs : List Channel := []
  outputs : List Channel := []
  said : Option NodeKind := none
  kind : NodeKind := .source

namespace Block

/-- A block between two nodes. -/
def between (item : String) (pipeline : Pipeline) : Block := { item, pipeline }

/-- How the node is called in messages. -/
def nodeItem (b : Block) : String := s!"node '{b.node}'"

/-- The node as far as it has been read. -/
def draft (b : Block) : Node := ⟨b.node, b.inputs, b.outputs, b.kind.blank⟩

/-- The kind that the node says it is, or that its channels and its pipeline show. -/
def resolved (b : Block) (nested : Bool) : NodeKind :=
  b.said.getD <|
    if nested then .composite
    else if b.inputs.isEmpty then .source
    else if b.outputs.isEmpty then .sink
    else .transform

def channelFault? (b : Block) (c : ChannelDefinition) : Option DefinitionError :=
  match c.name, c.type with
  | none, _ => some (.missingField s!"channel #{b.pipeline.channels.length + 1}" "name")
  | some name, none => some (.missingField s!"channel '{name}'" "type")
  | some name, some typeName =>
    if (ValueType.ofName? typeName).isNone then some (.unknownType name typeName)
    else if (b.pipeline.channel? name).isSome then
      some (.graph (.duplicateChannel b.pipeline.name name))
    else none

/-- A channel that nobody has declared, named by `user`. -/
def unknownFault? (b : Block) (channel user : String) : Option DefinitionError :=
  if (b.pipeline.channel? channel).isSome then none
  else some (.graph (.unknownChannel b.pipeline.name channel user))

def kindFault? (b : Block) (text : String) : Option DefinitionError :=
  let name := (Text.trim text).toLower
  if (NodeKind.ofName? name).isSome then none
  else
    some (.invalid b.nodeItem
      s!"unknown kind '{name}' (expected source, sink, transform or composite)")

def bodyFault? (b : Block) (logic nested seeded : Bool) : Option DefinitionError :=
  let kind := b.resolved nested
  match logic, nested with
  | true, true => some (.invalid b.nodeItem "give either 'logic' or a nested 'pipeline', not both")
  | false, true =>
    if kind ≠ .composite then
      some (.invalid b.nodeItem s!"a {kind.name} node cannot wrap a nested pipeline")
    else if seeded then
      some (.invalid b.nodeItem "a nested pipeline cannot declare initial_data")
    else none
  | logic, false =>
    if kind = .composite then some (.missingField b.nodeItem "pipeline")
    else if logic then none
    else some (.missingField b.nodeItem "logic")

def logicFault? (b : Block) (registry : Registry) (key : String) : Option DefinitionError :=
  match registry.get? key with
  | none => some (.unknownLogic b.node key)
  | some logic =>
    if logic.shape = b.kind.shape then none else some (.logicShape b.node key b.kind.shape)

/-- What keeps the block `inner` from standing behind the node of `b`. -/
def boundaryFault? (inner b : Block) : Option DefinitionError :=
  (inner.pipeline.boundaryFault? (fun _ => 0) false b.inputs b.outputs).map fun fault =>
    .graph (.compositeMismatch b.node fault.message)

def wiringFault? (b : Block) : Option DefinitionError :=
  b.draft.wiringFault?.map fun fault => .graph (.invalidNode b.node fault.message)

def nameFault? (b : Block) : Option DefinitionError :=
  if (b.pipeline.node? b.node).isSome then some (.graph (.duplicateNode b.pipeline.name b.node))
  else none

def seedFault? (b : Block) (channel : String) (l : Literal) : Option DefinitionError :=
  match b.pipeline.channel? channel with
  | none => some (.graph (.unknownChannel b.pipeline.name channel "initial data"))
  | some c =>
    match l.forChannel c with
    | .error e => some e
    | .ok _ => none

/-- The block with one more channel. -/
def declare (b : Block) (c : ChannelDefinition) : Block :=
  match c.name, c.type.bind ValueType.ofName? with
  | some name, some type =>
    { b with pipeline := { b.pipeline with channels := b.pipeline.channels ++ [⟨0, name, type⟩] } }
  | _, _ => b

/-- The block with one more node, ready for the next. -/
def list (b : Block) : Block :=
  between b.item { b.pipeline with nodes := b.pipeline.nodes ++ [b.draft] }

end Block

/-- The blocks that are being read, the innermost first. -/
abbrev Reader := List Block

namespace Reader

/-- How the next block is called in messages. -/
def item : Reader → String
  | [] => "pipeline"
  | b :: _ => s!"{b.nodeItem} pipeline"

/-- What is wrong with an entry, after all that has been read. -/
def fault? (registry : Registry) (r : Reader) (x : Entry) : Option DefinitionError :=
  match x, r with
  | .block name, r => if name.isSome then none else some (.missingField r.item "name")
  | .channels given, b :: _ => if given then none else some (.missingField b.item "channels")
  | .channel c, b :: _ => b.channelFault? c
  | .nodes given, b :: _ => if given then none else some (.missingField b.item "nodes")
  | .node name, b :: _ =>
    if name.isSome then none
    else some (.missingField s!"node #{b.pipeline.nodes.length + 1}" "name")
  | .input channel, b :: _ => b.unknownFault? channel b.nodeItem
  | .output channel, b :: _ => b.unknownFault? channel b.nodeItem
  | .kind text, b :: _ => text.bind b.kindFault?
  | .body logic nested seeded, b :: _ => b.bodyFault? logic nested seeded
  | .logic key, b :: _ => b.logicFault? registry key
  | .boundary, inner :: b :: _ => inner.boundaryFault? b
  | .wiring, b :: _ => b.wiringFault?
  | .listed, b :: _ => b.nameFault?
  | .seed channel l, b :: _ => b.seedFault? channel l
  | _, _ => none

/-- Goes on past an entry. What is wrong is passed over. -/
def read (r : Reader) (x : Entry) : Reader :=
  match x, r with
  | .block name, r => .between r.item (.new 0 (name.getD "")) :: r
  | .channel c, b :: r => b.declare c :: r
  | .node name, b :: r => { b with node := name.getD "" } :: r
  | .input channel, b :: r =>
    { b with inputs := b.inputs ++ (b.pipeline.channel? channel).toList } :: r
  | .output channel, b :: r =>
    { b with outputs := b.outputs ++ (b.pipeline.channel? channel).toList } :: r
  | .kind text, b :: r =>
    { b with said := text.bind fun text => NodeKind.ofName? (Text.trim text).toLower } :: r
  | .body _ nested _, b :: r => { b with kind := b.resolved nested } :: r
  | .boundary, _ :: r => r
  | .listed, b :: r => b.list :: r
  | _, r => r

/-- What has been read when these entries have. -/
def after (es : List Entry) : Reader := es.foldl read []

end Reader

/-- What is wrong with the entry `x` where these entries stand before it. -/
def Entry.fault? (registry : Registry) (before : List Entry) (x : Entry) : Option DefinitionError :=
  (Reader.after before).fault? registry x

end Definition

end Dataflow
