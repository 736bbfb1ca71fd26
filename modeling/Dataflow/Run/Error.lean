import Dataflow.Graph.Error
import Dataflow.Logic

/-!
Why a node, or a whole run, ended without success.
-/

namespace Dataflow

inductive ExecutionError where
  | logic (node : String) (failure : Failure)
  | channel (node : String) (error : ChannelError)
  | missingOutput (node channel : String)
  /-- The pipeline inside a composite could not be started. -/
  | innerSetup (node : String) (error : GraphError)
  /-- The run inside a composite failed. -/
  | innerPipeline (node : String) (error : ExecutionError)
  | workerPanicked (node message : String)
  /-- The run itself could not be started. -/
  | setup (error : GraphError)
deriving DecidableEq, Inhabited

namespace ExecutionError

def message : ExecutionError → String
  | logic n f => s!"Node '{n}' logic failed: {f.message}"
  | channel n e => s!"Node '{n}' channel operation failed: {e.message}"
  | missingOutput n c => s!"Composite node '{n}' finished without a value on inner channel '{c}'"
  | innerSetup n e => s!"Inner pipeline of composite node '{n}' could not start: {e.message}"
  | innerPipeline n e => s!"Inner pipeline of composite node '{n}' failed: {e.message}"
  | workerPanicked n text => s!"Worker for node '{n}' panicked: {text}"
  | setup e => e.message

/-- The node that failed. -/
def node? : ExecutionError → Option String
  | logic n _ => some n
  | channel n _ => some n
  | missingOutput n _ => some n
  | innerSetup n _ => some n
  | innerPipeline n _ => some n
  | workerPanicked n _ => some n
  | setup _ => none

/-- The node stopped only because its run was cancelled. -/
def isCancellation : ExecutionError → Bool
  | channel _ (.cancelled _) => true
  | innerPipeline _ e => e.isCancellation
  | _ => false

/-- The texts of what caused the error, outermost first. -/
def causes : ExecutionError → List String
  | logic _ f => f.texts
  | channel _ e => [e.message]
  | innerSetup _ e => [e.message]
  | innerPipeline _ e => e.message :: e.causes
  | missingOutput _ _ => []
  | workerPanicked _ _ => []
  | setup _ => []

end ExecutionError

end Dataflow
