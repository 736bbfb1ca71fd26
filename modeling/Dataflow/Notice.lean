import Dataflow.Duration

/-!
Notices: what the library reports about its work while it goes on. Each has a level and a text;
some also carry their facts as named fields, for a reader that filters by them, and can open a
span under which later notices belong.

How long something took is left out of a notice unless it was measured.
-/

namespace Dataflow

inductive Level where
  | trace
  | debug
  | info
  | warn
  | error
deriving DecidableEq, Inhabited

def Level.name : Level → String
  | .trace => "TRACE"
  | .debug => "DEBUG"
  | .info => "INFO"
  | .warn => "WARN"
  | .error => "ERROR"

inductive Notice where
  | nodeStarted (node kind : String) (inputs : Nat)
  | nodeCompleted (node kind : String) (published : Nat) (elapsed : Option Duration)
  /-- `secondary` marks a worker that was only stopped by the failure of another one. -/
  | nodeFailed (node error : String) (secondary : Bool)
  | outputNotProduced (node channel : String)
  | undeclaredOutput (node key : String)
  | compositeEntered (node inner : String)
  | pipelineStarted (pipeline : String) (nodes channels : Nat)
  | pipelineCompleted (pipeline : String) (nodes : Nat) (elapsed : Option Duration)
  | pipelineFailed (pipeline error : String)
  | runCancelled (pipeline failedNode : String)
  | initialValueSeeded (pipeline channel : String)
  | definitionLoaded (path format : String)
  | definitionInterpreted (pipeline : String) (channels nodes initial : Nat)
deriving DecidableEq, Inhabited

/-- A fact in a notice. -/
inductive Field where
  | text (s : String)
  | number (n : Nat)
deriving DecidableEq, Inhabited

structure Span where
  name : String
  level : Level
  fields : List (String × Field)

namespace Notice

def level : Notice → Level
  | nodeStarted .. => .debug
  | nodeCompleted .. => .debug
  | nodeFailed _ _ secondary => if secondary then .debug else .error
  | outputNotProduced .. => .warn
  | undeclaredOutput .. => .warn
  | compositeEntered .. => .debug
  | pipelineStarted .. => .info
  | pipelineCompleted .. => .info
  | pipelineFailed .. => .error
  | runCancelled .. => .warn
  | initialValueSeeded .. => .debug
  | definitionLoaded .. => .debug
  | definitionInterpreted .. => .info

def inTime : Option Duration → String
  | none => ""
  | some d => " in " ++ d.text

def text : Notice → String
  | nodeStarted n kind inputs => s!"{kind} node '{n}' started: waiting on {inputs} inputs"
  | nodeCompleted n kind published elapsed =>
    s!"{kind} node '{n}' completed: published {published} values" ++ inTime elapsed
  | nodeFailed n e _ => s!"Node '{n}' failed: {e}"
  | outputNotProduced n c => s!"Node '{n}' produced no value for output channel '{c}'"
  | undeclaredOutput n key =>
    s!"Node '{n}' returned '{key}' which is not one of its outputs; dropping it"
  | compositeEntered n inner => s!"Composite node '{n}' running inner pipeline '{inner}'"
  | pipelineStarted p nodes channels =>
    s!"Pipeline '{p}' started: {nodes} nodes, {channels} channels"
  | pipelineCompleted p nodes elapsed =>
    s!"Pipeline '{p}' completed: {nodes} nodes" ++ inTime elapsed
  | pipelineFailed p e => s!"Pipeline '{p}' failed: {e}"
  | runCancelled p n => s!"Pipeline '{p}' cancelling remaining workers after node '{n}' failed"
  | initialValueSeeded p c => s!"Pipeline '{p}' seeded channel '{c}'"
  | definitionLoaded path format => s!"Loaded {format} pipeline definition from {path}"
  | definitionInterpreted p channels nodes initial =>
    s!"Interpreted pipeline '{p}': {channels} channels, {nodes} nodes, {initial} initial values"

/-- The line of a notice in a journal. -/
def line (n : Notice) : String := n.level.name ++ " " ++ n.text

/-- Milliseconds in the 64 bits that a field has for them. -/
def millisField (elapsed : Option Duration) : List (String × Field) :=
  match elapsed with
  | none => []
  | some d => [("duration_ms", .number (d.millis % UInt64.size))]

/-- The facts of a notice, if it carries them. -/
def facts? : Notice → Option (List (String × Field))
  | nodeStarted n kind inputs =>
    some [("node", .text n), ("kind", .text kind), ("input_count", .number inputs)]
  | pipelineStarted p nodes channels =>
    some [("pipeline", .text p), ("node_count", .number nodes), ("channel_count", .number channels)]
  | pipelineCompleted p nodes elapsed =>
    some ([("pipeline", .text p), ("node_count", .number nodes)] ++ millisField elapsed)
  | pipelineFailed p e => some [("pipeline", .text p), ("error", .text e)]
  | definitionInterpreted p channels nodes initial =>
    some [("pipeline", .text p), ("channel_count", .number channels), ("node_count", .number nodes),
      ("initial_count", .number initial)]
  | _ => none

/-- The fields of a notice: its facts and its text. -/
def fields? (n : Notice) : Option (List (String × Field)) :=
  n.facts?.map fun facts => facts ++ [("message", .text n.text)]

/-- The span that a notice opens under the name `as`. -/
def span? (n : Notice) (as : String) : Option Span :=
  match n with
  | nodeStarted n kind _ =>
    some ⟨"node", .info, [("span_name", .text as), ("node", .text n), ("kind", .text kind)]⟩
  | pipelineStarted p nodes _ =>
    some ⟨"pipeline", .info, [("span_name", .text as), ("pipeline", .text p),
      ("node_count", .number nodes)]⟩
  | pipelineCompleted p _ elapsed =>
    some ⟨"pipeline_completed", .info, [("span_name", .text as), ("pipeline", .text p)] ++
      (elapsed.toList.map fun d => ("duration", .text d.text))⟩
  | pipelineFailed p e =>
    some ⟨"pipeline_failed", .error, [("span_name", .text as), ("pipeline", .text p),
      ("error", .text e)]⟩
  | definitionInterpreted p _ _ _ =>
    some ⟨"definition", .info, [("span_name", .text as), ("pipeline", .text p)]⟩
  | _ => none

end Notice

end Dataflow
