import Dataflow.Run.Publish
import Dataflow.Run.Receive
import Dataflow.Run.Start

/-!
The next step of a worker. What it is depends only on the worker's stage; a worker that has to
wait has none.
-/

namespace Dataflow.World

/-- The worker `k` at `a` goes on to another stage. -/
def goTo (w : World) (a : Address) (k : Worker) (s : Stage) : World :=
  w.setWorker a { k with stage := s }

def fail (w : World) (a : Address) (k : Worker) (e : ExecutionError) : World :=
  w.goTo a k (.ended (.error e))

/-- Polls the receive on `c`, the next input that the worker needs. -/
def gatherStep (w : World) (a : Address) (k : Worker) (expired : Bool) (got : Payload)
    (c : Channel) (rest : List Channel) : Option World :=
  match w.poll a c (some k.token) (if expired then k.limit else none) with
  | (some (.ok v), w') => some (w'.goTo a k (k.node.gather (got.insert c.name v) rest))
  | (some (.error e), w') => some (w'.fail a k (.channel k.node.name e))
  | (none, w') => if w.inLine a c then none else some w'

/-- Calls the logic. Nothing that a sink returns is published. -/
def callStep (w : World) (a : Address) (k : Worker) (logic : Logic) (inputs : Payload) : World :=
  let reaction := logic.act w.calls inputs
  let w := { w with calls := w.calls + 1, records := w.records ++ reaction.records }
  match reaction.reply with
  | .returned outputs => w.goTo a k (.checking (if k.node.kind = .sink then .empty else outputs))
  | .failed f => w.fail a k (.logic k.node.name f)
  | .panicked payload => w.fail a k (.workerPanicked k.node.name payload.message)

/-- The receiver of a run begins to wait for it. -/
def await (w : World) (r : Address) : World :=
  match w.runs r with
  | some run =>
    match run.collector with
    | .idle => w.setRun r { run with collector := .waiting [] none }
    | _ => w
  | none => w

/-- Starts the inner pipeline with the inputs as seeds, under a child of the worker's token, and
waits for its run. -/
def enterStep (w : World) (a : Address) (k : Worker) (inner : Pipeline) (inputs : Payload) :
    World :=
  let (id, w) := (w.say (.compositeEntered k.node.name inner.name)).takeFresh
  match w.start a inner inputs (id :: k.token) true with
  | .error e => w.fail a k (.innerSetup k.node.name e)
  | .ok w' => (w'.await a).goTo a k (.inside inner)

/-- Takes one value from the inner channel of each output. Fails with the name of the first
output that has none. -/
def takeOutputs (w : World) (inner : Pipeline) (got : Payload) :
    List Channel → Except String Payload × World
  | [] => (.ok got, w)
  | o :: rest =>
    match inner.channel? o.name with
    | none => (.error o.name, w)
    | some c =>
      match w.tryReceive c with
      | (none, w') => (.error o.name, w')
      | (some v, w') => w'.takeOutputs inner (got.insert o.name v) rest

/-- Goes on once the run inside has returned. -/
def leaveStep (w : World) (a : Address) (k : Worker) (inner : Pipeline) : Option World :=
  match (w.runs a).map Run.collector with
  | some (.returned (.error e)) => some (w.fail a k (.innerPipeline k.node.name e))
  | some (.returned (.ok _)) =>
    match w.takeOutputs inner .empty k.node.outputs with
    | (.error c, w') => some (w'.fail a k (.missingOutput k.node.name c))
    | (.ok produced, w') => some (w'.goTo a k (.checking produced))
  | _ => none

def checkStep (w : World) (a : Address) (k : Worker) (produced : Payload) : World :=
  match k.node.prepare produced with
  | (notices, .error e) => (w.sayAll notices).fail a k (.channel k.node.name e)
  | (notices, .ok ready) => (w.sayAll notices).goTo a k (.sending ready ready.length)

def sendStep (w : World) (a : Address) (k : Worker) (total : Nat) (c : Channel) (v : Value)
    (rest : List (Channel × Value)) : World :=
  match w.send c v with
  | .error e => w.fail a k (.channel k.node.name e)
  | .ok w' => w'.goTo a k (.sending rest total)

/-- Tells the run of the worker how it ended, unless the run has nobody left to tell. -/
def reportStep (w : World) (a : Address) (k : Worker) (result : Except ExecutionError Unit) :
    World :=
  let w := w.goTo a k (.reported result)
  match w.runs a.tail with
  | none => w
  | some run =>
    match run.collector with
    | .dropped => w
    | _ => w.setRun a.tail { run with mailbox := run.mailbox ++ [⟨k.node.name, result⟩] }

/-- The next step of the worker at `a`, if it has one. When its time limit has passed (`expired`),
a worker that still finds no value gives up. -/
def work? (w : World) (a : Address) (expired : Bool) : Option World :=
  match w.workers a with
  | none => none
  | some k =>
    match k.stage with
    | .gathering _ [] => none
    | .gathering got (c :: rest) => w.gatherStep a k expired got c rest
    | .calling logic inputs => some (w.callStep a k logic inputs)
    | .entering inner inputs => some (w.enterStep a k inner inputs)
    | .inside inner => w.leaveStep a k inner
    | .checking produced => some (w.checkStep a k produced)
    | .sending ((c, v) :: rest) total => some (w.sendStep a k total c v rest)
    | .sending [] total =>
      let w := w.say (.nodeCompleted k.node.name k.node.kind.name total none)
      some (w.goTo a k (.ended (.ok ())))
    | .ended result => some (w.reportStep a k result)
    | .reported _ => none

end Dataflow.World
