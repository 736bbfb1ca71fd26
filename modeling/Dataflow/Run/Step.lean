import Dataflow.Run.Collect
import Dataflow.Run.Work

/-!
The moves of the world. Each is one step of one worker or of one receiver of a run, or a
cancellation from outside; in what order they come is left open.
-/

namespace Dataflow

inductive Move where
  /-- The worker at `a` takes its next step. -/
  | work (a : Address)
  /-- The same for a worker whose time limit has passed. -/
  | expire (a : Address)
  | collect (r : Address)
  | conclude (r : Address)
  | cancel (t : Token)
deriving DecidableEq

/-- The world after a move, if the move is possible. -/
def World.step? (w : World) : Move → Option World
  | .work a => w.work? a false
  | .expire a => w.work? a true
  | .collect r => w.collect? r
  | .conclude r => w.conclude? r
  | .cancel t => some (w.cancel t)

end Dataflow
