import Dataflow.Run.World

/-!
Receiving from a channel. A receive is polled until it is done; each poll looks first whether the
receive was cancelled, then for a value, and only then at the time.
-/

namespace Dataflow.World

/-- A receive that comes to nothing leaves the line. -/
def leaveLine (w : World) (a : Address) (c : Channel) : World :=
  w.setConduit c ((w.conduit c).abandon a)

/-- The receiver is in line already, so that polling it again changes nothing. -/
def inLine (w : World) (a : Address) (c : Channel) : Bool := a ∈ (w.conduit c).waiting

/-- One poll of the receiver at `a`. A receive under a token stops when the token is cancelled;
`expired` is its time limit, if that has passed. Gives no result if the receiver has to wait. -/
def poll (w : World) (a : Address) (c : Channel) (token : Option Token)
    (expired : Option Duration) : Option (Except ChannelError Value) × World :=
  if token.any w.isCancelled then (some (.error (.cancelled c.name)), w.leaveLine a c)
  else
    match (w.conduit c).usePermit? a with
    | some k =>
      match k.pop? with
      | some (v, k') => (some (.ok v), w.setConduit c k')
      | none => (some (.error (.closed c.name)), w.setConduit c k)
    | none =>
      match expired with
      | some limit => (some (.error (.timeout c.name limit)), w.leaveLine a c)
      | none =>
        (none, if w.inLine a c then w else w.setConduit c ((w.conduit c).enqueue a))

/-- A receiver in line at `a` could get on now: it has been given a permit, or was cancelled. -/
def canReceive (w : World) (a : Address) (c : Channel) (token : Option Token) : Bool :=
  token.any w.isCancelled || a ∈ (w.conduit c).granted

end Dataflow.World
