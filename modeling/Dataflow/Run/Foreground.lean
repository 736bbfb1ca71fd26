import Dataflow.Run.Timeline

/-!
What can be done from outside while time goes by: sending and receiving, starting runs and
waiting for them, cancelling. Something that is waited for and does not happen within the horizon
of the timeline does not happen; its answer is `none`, and the wait is given up.
-/

namespace Dataflow.Timeline

/-- An address, or an identity, that was not used before. -/
def takeFresh (t : Timeline) : Nat × Timeline :=
  let (id, w) := t.world.takeFresh
  (id, { t with world := w })

def newToken (t : Timeline) (parent : Token) : Token × Timeline :=
  let (id, t) := t.takeFresh
  (id :: parent, t)

def cancel (t : Timeline) (token : Token) : Timeline := t.goTo (t.world.cancel token)

def send (t : Timeline) (c : Channel) (v : Value) : Except ChannelError Timeline := do
  return t.goTo (← t.world.send c v)

def tryReceive (t : Timeline) (c : Channel) : Option Value × Timeline :=
  let (v?, w) := t.world.tryReceive c
  (v?, t.goTo w)

/-- Takes every value that is left on the channels, in order. -/
def drain (t : Timeline) : List Channel → List (Channel × List Value) × Timeline
  | [] => ([], t)
  | c :: rest =>
    let (vs, t) := takeAll t c (t.world.queued c)
    let (others, t) := t.drain rest
    ((c, vs) :: others, t)
where
  takeAll (t : Timeline) (c : Channel) : Nat → List Value × Timeline
    | 0 => ([], t)
    | n + 1 =>
      match t.tryReceive c with
      | (none, t) => ([], t)
      | (some v, t) =>
        let (vs, t) := takeAll t c n
        (v :: vs, t)

/-! ### Receivers from outside -/

/-- Begins a receive, which goes on by itself. -/
def spawnReceive (t : Timeline) (c : Channel) (token : Option Token) (limit : Option Duration) :
    Address × Timeline :=
  let (id, t) := t.takeFresh
  let a := [id]
  let t := t.setReceiver a ⟨c, token, limit, none⟩
  (a, { t with ready := t.ready ++ [.poll a], effort := t.effort + 4 })

/-- Gives up a receive that is not done. -/
def abandon (t : Timeline) (a : Address) : Timeline :=
  match t.receivers a with
  | none => t
  | some r =>
    if r.result.isSome then t
    else
      let t := { t with
        receivers := update t.receivers a none
        asleep := t.asleep.filter (·.address ≠ a) }
      t.goTo (t.world.leaveLine a r.channel)

/-- What became of a receive that was begun before. -/
inductive Joined where
  | done (result : Except ChannelError Value)
  | abandoned
  | blocked

/-- Waits for a receive that was begun before. -/
def join (t : Timeline) (a : Address) : Joined × Timeline :=
  let t := if (t.receivers a).isSome then t.driveFor (.received a) horizon else t
  match t.receivers a with
  | none => (.abandoned, t)
  | some r =>
    match r.result with
    | none => (.blocked, t)
    | some result => (.done result, t)

/-- Receives, waiting as long as it takes. -/
def receive (t : Timeline) (c : Channel) (token : Option Token) (limit : Option Duration) :
    Option (Except ChannelError Value) × Timeline :=
  let (a, t) := t.spawnReceive c token limit
  match t.join a with
  | (.done result, t) => (some result, t)
  | (_, t) => (none, t.abandon a)

/-! ### Runs -/

/-- Starts a run of its own, under a new token. -/
def start (t : Timeline) (p : Pipeline) (initial : Payload) (runtime : Bool) :
    Except GraphError (Address × Timeline) := do
  let (id, t) := t.takeFresh
  let w ← t.world.start [id] p initial [id] runtime
  return ([id], { (t.goTo w).enrol [id] p with effort := t.effort + p.effort })

/-- Waits for a run. The handle is gone afterwards in any case. -/
def wait (t : Timeline) (r : Address) : Option (Except ExecutionError Report) × Timeline :=
  let t := { t with world := t.world.await r }.driveFor (.returned r) horizon
  match (t.world.runs r).map Run.collector with
  | some (.returned result) => (some result, t)
  | _ => (none, { t with world := t.world.dropRun r })

/-- Starts a run and waits for it. -/
def run (t : Timeline) (p : Pipeline) (initial : Payload) :
    Option (Except ExecutionError Report) × Timeline :=
  match t.start p initial true with
  | .error e => (some (.error (.setup e)), t)
  | .ok (r, t) => t.wait r

/-- Cancels the token of a run. -/
def cancelRun (t : Timeline) (r : Address) : Timeline :=
  match t.world.runs r with
  | none => t
  | some run => t.cancel run.token

/-- Lets go of the handle of a run. -/
def dropRun (t : Timeline) (r : Address) : Timeline := { t with world := t.world.dropRun r }

def isFinished (t : Timeline) (r : Address) : Bool :=
  (t.world.runs r).any fun run => t.world.allReported r run

/-- Gives up on the worker at `a`, in whatever it waits for. -/
def dismiss (t : Timeline) (a : Address) : Timeline :=
  let w := match t.world.workers a with
    | none => t.world
    | some k =>
      match k.stage with
      | .gathering _ (c :: _) => t.world.leaveLine a c
      | .inside _ => t.world.dropRun a
      | _ => t.world
  let t := { t with asleep := t.asleep.filter (·.address ≠ a) }
  t.goTo { w with workers := update w.workers a none }

/-- Lets a worker that belongs to no run go through its node once. -/
def process (t : Timeline) (n : Node) (token : Token) (limit : Option Duration) :
    Option (Except ExecutionError Unit) × Timeline :=
  let (id, t) := t.takeFresh
  let a := [id]
  let t := { t with
    world := t.world.spawn a n token limit
    ready := t.ready ++ [Turn.poll a]
    effort := t.effort + n.effort }
  let t := t.driveFor (.worked a) horizon
  match (t.world.workers a).map Worker.stage with
  | some (.reported result) => (some result, t)
  | _ => (none, t.dismiss a)

/-- Receives from a channel of the pipeline by name. -/
def receiveFrom (t : Timeline) (p : Pipeline) (name : String) :
    Option (Except GraphError Value) × Timeline :=
  match p.channel? name with
  | none => (some (.error (.unknownChannel p.name name "receive")), t)
  | some c =>
    let (result, t) := t.receive c none none
    (result.map fun r => r.mapError .channel, t)

/-! ### What was observed -/

/-- Takes the records that logic has left. -/
def takeRecords (t : Timeline) : List Record × Timeline :=
  (t.world.records, { t with world := { t.world with records := [] } })

/-- Takes the notices of the journal. -/
def takeNotices (t : Timeline) : List Notice × Timeline :=
  (t.world.journal, { t with world := { t.world with journal := [] } })

end Dataflow.Timeline
