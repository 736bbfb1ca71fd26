import Dataflow.Run.Effort
import Dataflow.Run.Step

/-!
Runs in virtual time. Of the many orders that the moves of a world may take, this is one: those
who can go on take turns, first come, first served, and a turn lasts until its owner has to wait
or calls its logic, which takes up another turn. Time stands still meanwhile. When everybody
waits it jumps to the next time limit, and those whose limit it is give up in the order in which
they began to wait.

Beside the workers of runs there are receivers from outside, with addresses of their own.
-/

namespace Dataflow

/-- A receive from outside of any run. -/
structure Receiver where
  channel : Channel
  token : Option Token
  limit : Option Duration
  result : Option (Except ChannelError Value)

/-- Somebody who waits, and until when. -/
structure Sleeper where
  address : Address
  deadline : Option Nat

inductive Turn where
  | poll (a : Address)
  /-- The time limit has passed. -/
  | expire (a : Address)
  /-- The worker goes on with the call of its logic. -/
  | resume (a : Address)

structure Timeline where
  world : World
  receivers : Address → Option Receiver
  /-- In nanoseconds. -/
  now : Nat
  ready : List Turn
  /-- In the order in which they began to wait. -/
  asleep : List Sleeper
  /-- No more turns than this can be taken by anything that was begun so far. -/
  effort : Nat

namespace Timeline

def initial : Timeline := ⟨.initial, fun _ => none, 0, [], [], 0⟩

instance : Inhabited Timeline := ⟨initial⟩

/-- Nobody waits for longer than this, a million seconds. A time limit that is not below it is
no limit. -/
def horizon : Nat := 1000000 * 1000000000

/-- Whether somebody who waits could go on. -/
def canGoOn (t : Timeline) (w : World) (a : Address) : Bool :=
  match t.receivers a with
  | some r => r.result.isNone && w.canReceive a r.channel r.token
  | none =>
    match w.workers a with
    | none => false
    | some k =>
      match k.stage with
      | .gathering _ (c :: _) => w.canReceive a c (some k.token)
      | .inside _ => (w.collect? a).isSome || (w.conclude? a).isSome
      | _ => false

def tokenOf (t : Timeline) (a : Address) : Token :=
  match t.receivers a with
  | some r => r.token.getD []
  | none => ((t.world.workers a).map Worker.token).getD []

/-- News of a cancellation reaches the youngest tokens first, and children before their parents.
Both tokens are written from the root. -/
def hearsBefore : Token → Token → Bool
  | [], _ => false
  | _ :: _, [] => true
  | x :: xs, y :: ys => if x = y then hearsBefore xs ys else y < x

/-- Goes over to a new state of the world and wakes those who can go on in it. -/
def goTo (t : Timeline) (w : World) : Timeline :=
  let (woken, asleep) := t.asleep.partition fun s => t.canGoOn w s.address
  let order (x y : Sleeper) : Bool :=
    !hearsBefore (t.tokenOf y.address).reverse (t.tokenOf x.address).reverse
  let turns := (woken.mergeSort order).map fun s => Turn.poll s.address
  { t with world := w, asleep := asleep, ready := t.ready ++ turns }

/-- Makes the workers at the addresses `0 :: r`, `1 :: r`, … ready to begin. -/
def enrol (t : Timeline) (r : Address) (p : Pipeline) : Timeline :=
  let turns := (List.range p.nodes.length).map fun i => Turn.poll (i :: r)
  { t with ready := t.ready ++ turns }

def sleep (t : Timeline) (a : Address) (limit : Option Duration) : Timeline :=
  let deadline := (limit.filter fun d => d.nanos < horizon).map fun d => t.now + d.nanos
  { t with asleep := t.asleep ++ [⟨a, deadline⟩] }

/-- The moves of the worker at `a` until it has to wait, at most `fuel` of them. `due` says that
its time limit has passed, `called` that it had its turn before the call of its logic. -/
def workOn (t : Timeline) (a : Address) (due called : Bool) : Nat → Timeline
  | 0 => t
  | fuel + 1 =>
    match t.world.workers a with
    | none => t
    | some k =>
      match k.stage with
      | .calling _ _ =>
        if called then
          match t.world.step? (.work a) with
          | some w => (t.goTo w).workOn a false false fuel
          | none => t
        else { t with ready := t.ready ++ [.resume a] }
      | .gathering _ (c :: _) =>
        let expired := due || k.limit = some ⟨0⟩
        match t.world.step? (if expired then .expire a else .work a) with
        | none => t.sleep a k.limit
        | some w =>
          if w.inLine a c then (t.goTo w).sleep a k.limit
          else (t.goTo w).workOn a false false fuel
      | .entering inner _ =>
        match t.world.step? (.work a) with
        | some w =>
          let t := t.goTo w
          (if (w.runs a).isSome then t.enrol a inner else t).workOn a false false fuel
        | none => t
      | .inside _ =>
        match t.world.step? (.collect a) with
        | some w => (t.goTo w).workOn a false false fuel
        | none =>
          match t.world.step? (.conclude a) with
          | some w => (t.goTo w).workOn a false false fuel
          | none =>
            match t.world.step? (.work a) with
            | some w => (t.goTo w).workOn a false false fuel
            | none => t.sleep a none
      | _ =>
        match t.world.step? (.work a) with
        | some w => (t.goTo w).workOn a false false fuel
        | none => t

def setReceiver (t : Timeline) (a : Address) (r : Receiver) : Timeline :=
  { t with receivers := update t.receivers a (some r) }

def receiveOn (t : Timeline) (a : Address) (r : Receiver) (due : Bool) : Timeline :=
  let expired := if due || r.limit = some ⟨0⟩ then r.limit else none
  match t.world.poll a r.channel r.token expired with
  | (some result, w) => (t.goTo w).setReceiver a { r with result := some result }
  | (none, w) => (t.goTo w).sleep a r.limit

def takeTurn (t : Timeline) (a : Address) (due called : Bool) : Timeline :=
  match t.receivers a with
  | some r => if r.result.isSome then t else t.receiveOn a r due
  | none =>
    match t.world.workers a with
    | none => t
    | some k => t.workOn a due called (k.node.effort + 1)

def turn (t : Timeline) : Turn → Timeline
  | .poll a => t.takeTurn a false false
  | .expire a => t.takeTurn a true false
  | .resume a => t.takeTurn a false true

/-- The earliest time limit of all who wait. -/
def nextDeadline? (t : Timeline) : Option Nat := (t.asleep.filterMap (·.deadline)).min?

/-- Jumps to the time `d`. -/
def jump (t : Timeline) (d : Nat) : Timeline :=
  let (due, asleep) := t.asleep.partition fun s => s.deadline.any (· ≤ d)
  { t with
    now := max t.now d
    asleep := asleep
    ready := t.ready ++ due.map fun s => Turn.expire s.address }

/-- What somebody in the foreground waits for. -/
inductive Goal where
  | nothing
  | received (a : Address)
  | worked (a : Address)
  | returned (r : Address)

def reached (t : Timeline) : Goal → Bool
  | .nothing => false
  | .received a => (t.receivers a).any (·.result.isSome)
  | .worked a => t.world.hasReported a
  | .returned r =>
    match (t.world.runs r).map Run.collector with
    | some (.returned _) => true
    | _ => false

/-- What the foreground does itself: it looks at the outcomes of the run that it waits for. -/
def attend? (t : Timeline) : Goal → Option World
  | .returned r => (t.world.step? (.collect r)).or (t.world.step? (.conclude r))
  | _ => none

/-- Lets turns be taken until the goal is reached, and only before the time `stop`. The foreground
comes after everybody who is ready, and time after the foreground. -/
def drive (goal : Goal) (stop : Nat) : Nat → Timeline → Timeline
  | 0, t => t
  | fuel + 1, t =>
    match t.ready with
    | next :: rest => drive goal stop fuel (turn { t with ready := rest } next)
    | [] =>
      if t.reached goal then t
      else
        match t.attend? goal with
        | some w => drive goal stop fuel (t.goTo w)
        | none =>
          match t.nextDeadline? with
          | none => { t with now := max t.now stop }
          | some d =>
            if d < stop then drive goal stop fuel (t.jump d) else { t with now := max t.now stop }

/-- Enough for every turn that can be taken, every outcome and every jump. -/
def driveFor (t : Timeline) (goal : Goal) (nanos : Nat) : Timeline :=
  drive goal (t.now + nanos) (4 * t.effort + 8) t

/-- A millisecond passes, in which all that can go on goes on. -/
def pause (t : Timeline) : Timeline := t.driveFor .nothing 1000000

end Timeline

end Dataflow
