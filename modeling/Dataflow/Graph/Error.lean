import Dataflow.Channel

/-!
What can be wrong with a graph while it is built or started. An operation that fails leaves
everything as it was.
-/

namespace Dataflow

inductive GraphError where
  | duplicateChannel (pipeline channel : String)
  /-- `referencedBy` is the node, the initial data or the receiver that names the channel. -/
  | unknownChannel (pipeline channel referencedBy : String)
  | duplicateNode (pipeline node : String)
  | invalidNode (node reason : String)
  | compositeMismatch (node reason : String)
  /-- The node may wait for the channel for ever. -/
  | unsatisfiableInput (node channel : String)
  | alreadyStarted (pipeline : String)
  | noRuntime (pipeline : String)
  | channel (error : ChannelError)
deriving DecidableEq, Inhabited

namespace GraphError

def message : GraphError → String
  | duplicateChannel p c => s!"Channel '{c}' is already declared in pipeline '{p}'"
  | unknownChannel p c user =>
    s!"Channel '{c}' referenced by {user} is not declared in pipeline '{p}'"
  | duplicateNode p n => s!"Node '{n}' is already registered in pipeline '{p}'"
  | invalidNode n reason => s!"Node '{n}' is invalid: {reason}"
  | compositeMismatch n reason =>
    s!"Composite node '{n}' does not match its inner pipeline: {reason}"
  | unsatisfiableInput n c =>
    s!"Node '{n}' can never run: channel '{c}' has no value to deliver to it"
  | alreadyStarted p => s!"Pipeline '{p}' has already been run"
  | noRuntime p => s!"Pipeline '{p}' must be run from within a tokio runtime"
  | channel e => e.message

end GraphError

end Dataflow
