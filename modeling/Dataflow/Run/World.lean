import Dataflow.Channel.Conduit
import Dataflow.Graph.Boundary
import Dataflow.Notice
import Dataflow.Run.Error

/-!
The state in which runs take place.

Pipelines are fixed descriptions; what changes is kept here. A channel's conduit belongs to the
channel's identity, and whether a pipeline has been started belongs to the pipeline's. Runs and
workers have addresses: the workers of the run at `r` are at `0 :: r`, `1 :: r`, …, in the order
in which their nodes were registered, and the run inside a composite has the address of the
worker that started it. A token is a path too; its ancestors are its tails.
-/

namespace Dataflow

abbrev Address := List Nat

abbrev Token := List Nat

/-- `f` with the value at `a` replaced. -/
def update {α : Type} {β : Type} [DecidableEq α] (f : α → β) (a : α) (b : β) : α → β :=
  fun x => if x = a then b else f x

@[simp] theorem update_same {α : Type} {β : Type} [DecidableEq α] (f : α → β) (a : α) (b : β) :
    update f a b a = b := by simp [update]

theorem update_of_ne {α : Type} {β : Type} [DecidableEq α] {f : α → β} {a x : α} {b : β}
    (h : x ≠ a) : update f a b x = f x := by simp [update, h]

/-- How far a worker has come with its node. -/
inductive Stage where
  /-- Has `got` some inputs and waits for the first of the others. -/
  | gathering (got : Payload) (rest : List Channel)
  /-- Has all inputs and calls its logic next. -/
  | calling (logic : Logic) (inputs : Payload)
  /-- Has all inputs and starts its inner pipeline next. -/
  | entering (inner : Pipeline) (inputs : Payload)
  /-- Waits for the run of its inner pipeline. -/
  | inside (inner : Pipeline)
  /-- Holds what its body produced. -/
  | checking (produced : Payload)
  /-- Every value that is `ready` was checked; `total` of them are sent in all. -/
  | sending (ready : List (Channel × Value)) (total : Nat)
  /-- Has ended and not told its run. -/
  | ended (result : Except ExecutionError Unit)
  | reported (result : Except ExecutionError Unit)
deriving Inhabited

structure Worker where
  node : Node
  token : Token
  /-- How long it waits for an input. -/
  limit : Option Duration
  stage : Stage

/-- What a worker tells its run when it has ended. -/
structure Outcome where
  node : String
  result : Except ExecutionError Unit

/-- What the wait for a run returns if no node has failed. There is no clock here, so it does not
say how long the run took. -/
structure Report where
  pipeline : String
  /-- The nodes in the order in which their outcomes arrived. -/
  completed : List String
deriving DecidableEq, Inhabited

/-- Who is at the other end of a run. -/
inductive Collector where
  /-- The run has a handle, and nobody waits for it yet. -/
  | idle
  /-- Somebody waits, and has seen the outcomes so far. -/
  | waiting (completed : List String) (failure : Option ExecutionError)
  | returned (result : Except ExecutionError Report)
  /-- The handle is gone; outcomes are lost. -/
  | dropped
deriving Inhabited

structure Run where
  pipeline : Pipeline
  token : Token
  /-- Outcomes that have arrived and were not looked at. -/
  mailbox : List Outcome
  collector : Collector

structure World where
  conduits : Nat → Conduit Address
  started : Nat → Bool
  cancelled : List Token
  runs : Address → Option Run
  workers : Address → Option Worker
  /-- How many times logic has been called. -/
  calls : Nat
  records : List Record
  journal : List Notice
  /-- Every number from here on is unused as an identity. -/
  fresh : Nat

namespace World

def initial : World where
  conduits _ := {}
  started _ := false
  cancelled := []
  runs _ := none
  workers _ := none
  calls := 0
  records := []
  journal := []
  fresh := 0

instance : Inhabited World := ⟨initial⟩

def conduit (w : World) (c : Channel) : Conduit Address := w.conduits c.id

def setConduit (w : World) (c : Channel) (k : Conduit Address) : World :=
  { w with conduits := update w.conduits c.id k }

/-- How many values wait on a channel. -/
def queued (w : World) (c : Channel) : Nat := (w.conduit c).queue.length

def say (w : World) (n : Notice) : World := { w with journal := w.journal ++ [n] }

def sayAll (w : World) (ns : List Notice) : World := { w with journal := w.journal ++ ns }

def setWorker (w : World) (a : Address) (k : Worker) : World :=
  { w with workers := update w.workers a (some k) }

def setRun (w : World) (r : Address) (run : Run) : World :=
  { w with runs := update w.runs r (some run) }

/-- A number that was not used before. -/
def takeFresh (w : World) : Nat × World := (w.fresh, { w with fresh := w.fresh + 1 })

/-- A token is cancelled with any of its ancestors. -/
def isCancelled (w : World) (t : Token) : Bool := w.cancelled.any fun u => u.isSuffixOf t

def cancel (w : World) (t : Token) : World := { w with cancelled := w.cancelled ++ [t] }

/-- Puts a value on a channel that accepts it. -/
def send (w : World) (c : Channel) (v : Value) : Except ChannelError World := do
  c.check v
  return w.setConduit c ((w.conduit c).send v)

/-- Takes the value at the front of a channel, if there is one that nobody was promised. -/
def tryReceive (w : World) (c : Channel) : Option Value × World :=
  let (v?, k) := (w.conduit c).tryReceive
  (v?, w.setConduit c k)

/-! ### Building graphs -/

/-- A new channel that belongs to no pipeline. -/
def newChannel (w : World) (name : String) (type : ValueType) : Channel × World :=
  let (id, w) := w.takeFresh
  (⟨id, name, type⟩, w)

def newPipeline (w : World) (name : String) (options : RunOptions) : Pipeline × World :=
  let (id, w) := w.takeFresh
  (Pipeline.new id name options, w)

def declare (w : World) (p : Pipeline) (name : String) (type : ValueType) :
    Except GraphError (Pipeline × Channel × World) := do
  let (id, w) := w.takeFresh
  let (p, c) ← p.declare id name type
  return (p, c, w)

/-- Makes one node of `inner` as it stands now. -/
def composite (w : World) (name : String) (inputs outputs : List Channel) (inner : Pipeline) :
    Except GraphError Node :=
  Node.composite name inputs outputs inner w.queued (w.started inner.id)

@[simp] theorem conduit_setConduit_same (w : World) (c : Channel) (k : Conduit Address) :
    (w.setConduit c k).conduit c = k := by simp [conduit, setConduit]

theorem conduit_setConduit_of_ne {w : World} {c d : Channel} {k : Conduit Address}
    (h : d.id ≠ c.id) : (w.setConduit c k).conduit d = w.conduit d := by
  simp [conduit, setConduit, update_of_ne h]

end World

end Dataflow
