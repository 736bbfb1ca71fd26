import Dataflow.Duration
import Dataflow.Text.Quoted

/-!
The options of a run.
-/

namespace Dataflow

/-- What a run does when its first node fails. -/
inductive FailureStrategy where
  /-- Every other worker is cancelled. -/
  | failFast
  /-- The others go on; the first failure is still what the run reports. -/
  | continueOnError
deriving DecidableEq, Inhabited

def FailureStrategy.name : FailureStrategy → String
  | .failFast => "fail_fast"
  | .continueOnError => "continue_on_error"

def FailureStrategy.tag : FailureStrategy → String
  | .failFast => "FailFast"
  | .continueOnError => "ContinueOnError"

structure RunOptions where
  failureStrategy : FailureStrategy := .failFast
  /-- How long one input may keep a node waiting. -/
  receiveTimeout : Option Duration := none
  /-- Refuse to start if a node might wait for ever. -/
  validateInputs : Bool := true
deriving DecidableEq, Inhabited

def RunOptions.inspect (o : RunOptions) : String :=
  let limit := match o.receiveTimeout with
    | none => "None"
    | some d => "Some(" ++ d.text ++ ")"
  Text.record "RunOptions"
    [("failure_strategy", o.failureStrategy.tag), ("receive_timeout", limit),
     ("validate_inputs", toString o.validateInputs)]

end Dataflow
