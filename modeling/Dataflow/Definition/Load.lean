import Dataflow.Definition.Build
import Dataflow.Document.Json
import Dataflow.Document.Toml
import Dataflow.Document.Yaml
import Dataflow.Files
import Dataflow.Run.World

/-!
Definitions from texts and files, and what is noted in the journal on the way to a pipeline.
-/

namespace Dataflow

/-- The document in a text. -/
def Format.source? : Format → String → Option Document.Source
  | yaml, text => Document.Yaml.source? text
  | json, text => Document.Json.source? text
  | toml, text => Document.Toml.source? text

/-- The definition in a text. -/
def Definition.parse (format : Format) (text : String) : Except DefinitionError Definition :=
  match (format.source? text).bind Document.Source.definition? with
  | some d => .ok d
  | none => .error (.malformed format)

namespace World

/-- The definition in a file. The format must be known before anything is read. -/
def loadDefinition (w : World) (files : Files) (path : String) :
    Except DefinitionError (Definition × World) := do
  match Format.ofPath? path with
  | none => .error (.unsupportedFormat path)
  | some format =>
    let text ← (files.read path).mapError fun fault => .unreadable path fault.message
    let d ← Definition.parse format text
    return (d, w.say (.definitionLoaded path format.name))

/-- The pipeline of a definition, with channels that nobody has used, and the seeds for a run. -/
def interpret (w : World) (registry : Registry) (d : PipelineDefinition) :
    Except DefinitionError (Pipeline × Payload × World) := do
  let (p, seeds, fresh) ← d.interpret registry w.fresh
  let notice :=
    Notice.definitionInterpreted p.name p.channels.length p.nodes.length seeds.keys.length
  return (p, seeds, { w with fresh := fresh }.say notice)

end World

end Dataflow
