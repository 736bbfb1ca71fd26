import Dataflow.Run.World

/-!
Starting a run. All checks come before the first effect, and a pipeline is started at most once:
the mark that it has been started is set, then its seeds are sent, then its workers are made.
-/

namespace Dataflow

/-- What a worker does with all its inputs. -/
def Node.begin (n : Node) (inputs : Payload) : Stage :=
  match n.body with
  | .source logic => .calling logic inputs
  | .sink logic => .calling logic inputs
  | .transform logic => .calling logic inputs
  | .composite inner => .entering inner inputs

/-- The stage of a worker that has `got` some inputs and still needs `rest`. -/
def Node.gather (n : Node) (got : Payload) (rest : List Channel) : Stage :=
  match rest with
  | [] => n.begin got
  | c :: cs => .gathering got (c :: cs)

def Worker.new (n : Node) (token : Token) (limit : Option Duration) : Worker :=
  ⟨n, token, limit, n.gather .empty n.inputs⟩

namespace World

/-- Each seed names a channel of the pipeline that accepts it. -/
def checkSeeds (p : Pipeline) : List (String × Value) → Except GraphError Unit
  | [] => .ok ()
  | (name, v) :: rest =>
    match p.channel? name with
    | none => .error (.unknownChannel p.name name "initial data")
    | some c =>
      match c.check v with
      | .error e => .error (.channel e)
      | .ok () => checkSeeds p rest

/-- Everything that is checked before a run touches a channel. -/
def validate (w : World) (p : Pipeline) (initial : Payload) : Except GraphError Unit := do
  checkSeeds p initial.entries
  if p.options.validateInputs then p.checkSatisfiable w.queued initial.keys

def seed (w : World) (p : Pipeline) : List (String × Value) → Except GraphError World
  | [] => .ok w
  | (name, v) :: rest =>
    match p.channel? name with
    | none => w.seed p rest
    | some c =>
      match w.send c v with
      | .error e => .error (.channel e)
      | .ok w' => (w'.say (.initialValueSeeded p.name name)).seed p rest

/-- Makes a worker for `n` at `a`. -/
def spawn (w : World) (a : Address) (n : Node) (token : Token) (limit : Option Duration) : World :=
  (w.setWorker a (.new n token limit)).say (.nodeStarted n.name n.kind.name n.inputs.length)

/-- Makes the workers of the run at `r`, the first of them with number `i`. -/
def spawnAll (w : World) (r : Address) (token : Token) (limit : Option Duration) :
    Nat → List Node → World
  | _, [] => w
  | i, n :: rest => (w.spawn (i :: r) n token limit).spawnAll r token limit (i + 1) rest

/-- Makes the run of `p` at `r`, and its workers. -/
def launch (w : World) (r : Address) (p : Pipeline) (token : Token) : World :=
  let w := w.say (.pipelineStarted p.name p.nodes.length p.channels.length)
  (w.setRun r ⟨p, token, [], .idle⟩).spawnAll r token p.options.receiveTimeout 0 p.nodes

def markStarted (w : World) (p : Pipeline) : World :=
  { w with started := update w.started p.id true }

/-- Starts a run of `p` at `r`. Without a `runtime` there is nothing that could run workers. -/
def start (w : World) (r : Address) (p : Pipeline) (initial : Payload) (token : Token)
    (runtime : Bool) : Except GraphError World :=
  if w.started p.id then .error (.alreadyStarted p.name)
  else do
    w.validate p initial
    if !runtime then throw (.noRuntime p.name)
    let w ← (w.markStarted p).seed p initial.entries
    return w.launch r p token

end World

end Dataflow
