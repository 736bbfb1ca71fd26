import Dataflow.Run.World
import Dataflow.Text.Quoted

/-!
Inspection texts of channels, nodes, pipelines and runs.
-/

namespace Dataflow

def inspectNames (names : List String) : String := Text.bracketed (names.map Text.quoted)

def Node.inspect (n : Node) : String :=
  Text.record "Node"
    [("name", Text.quoted n.name), ("kind", n.kind.tag),
     ("inputs", inspectNames (n.inputs.map (·.name))),
     ("outputs", inspectNames (n.outputs.map (·.name)))]

namespace World

def inspectChannel (w : World) (c : Channel) : String :=
  Text.record "Channel"
    [("name", Text.quoted c.name), ("value_type", c.type.tag), ("pending", toString (w.queued c))]

def inspectPipeline (w : World) (p : Pipeline) : String :=
  Text.record "Pipeline"
    [("name", Text.quoted p.name),
     ("channels", Text.bracketed (p.channels.map w.inspectChannel)),
     ("nodes", Text.bracketed (p.nodes.map Node.inspect)),
     ("options", p.options.inspect),
     ("started", toString (w.started p.id))]

def inspectRun (w : World) (run : Run) : String :=
  Text.record "RunHandle"
    [("pipeline", Text.quoted run.pipeline.name),
     ("workers", inspectNames (run.pipeline.nodes.map (·.name))),
     ("failure_strategy", run.pipeline.options.failureStrategy.tag),
     ("cancelled", toString (w.isCancelled run.token))]

end World

end Dataflow
