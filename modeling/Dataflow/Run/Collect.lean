import Dataflow.Run.World

/-!
Waiting for a run. Outcomes are looked at in the order in which they arrived; the first failure
is the one that counts, and under `failFast` it cancels the run. The wait is over when every
worker has reported and every outcome was looked at.
-/

namespace Dataflow.World

/-- What a failed outcome does. A cancellation that follows a failure is a consequence of it. -/
def recordFailure (w : World) (run : Run) (node : String) (e : ExecutionError)
    (failure : Option ExecutionError) : Option ExecutionError × World :=
  if failure.isSome && e.isCancellation then (failure, w.say (.nodeFailed node e.message true))
  else
    let w := w.say (.nodeFailed node e.message false)
    match failure with
    | some first => (some first, w)
    | none =>
      if run.pipeline.options.failureStrategy = .failFast && !w.isCancelled run.token then
        (some e, (w.say (.runCancelled run.pipeline.name node)).cancel run.token)
      else (some e, w)

/-- The receiver of the run at `r` looks at the next outcome. -/
def collect? (w : World) (r : Address) : Option World :=
  match w.runs r with
  | none => none
  | some run =>
    match run.collector, run.mailbox with
    | .waiting completed failure, o :: rest =>
      match o.result with
      | .ok () =>
        some (w.setRun r
          { run with mailbox := rest, collector := .waiting (completed ++ [o.node]) failure })
      | .error e =>
        let (failure, w) := w.recordFailure run o.node e failure
        some (w.setRun r { run with mailbox := rest, collector := .waiting completed failure })
    | _, _ => none

def hasReported (w : World) (a : Address) : Bool :=
  match w.workers a with
  | some k =>
    match k.stage with
    | .reported _ => true
    | _ => false
  | none => false

/-- Every worker of the run at `r` has ended and said so. -/
def allReported (w : World) (r : Address) (run : Run) : Bool :=
  (List.range run.pipeline.nodes.length).all fun i => w.hasReported (i :: r)

/-- The wait for the run at `r` comes to its end. -/
def conclude? (w : World) (r : Address) : Option World :=
  match w.runs r with
  | none => none
  | some run =>
    match run.collector, run.mailbox with
    | .waiting completed failure, [] =>
      if w.allReported r run then
        let name := run.pipeline.name
        match failure with
        | some e =>
          some ((w.say (.pipelineFailed name e.message)).setRun r
            { run with collector := .returned (.error e) })
        | none =>
          some ((w.say (.pipelineCompleted name run.pipeline.nodes.length none)).setRun r
            { run with collector := .returned (.ok ⟨name, completed⟩) })
      else none
    | _, _ => none

/-- The handle of the run at `r` goes away. Its workers go on unobserved. -/
def dropRun (w : World) (r : Address) : World :=
  match w.runs r with
  | some run => w.setRun r { run with mailbox := [], collector := .dropped }
  | none => w

end Dataflow.World
