import Dataflow.Graph.Pipeline

/-!
How much work a pipeline can be: a bound on the steps that its workers take in one run.
-/

namespace Dataflow

mutual

def Body.effort : Body → Nat
  | .source _ => 0
  | .sink _ => 0
  | .transform _ => 0
  | .composite inner => inner.effort

/-- One step for each channel, one for each change of stage, and the work inside. -/
def Node.effort : Node → Nat
  | ⟨_, inputs, outputs, body⟩ => inputs.length + outputs.length + body.effort + 8

def Pipeline.effort : Pipeline → Nat
  | ⟨_, _, _, _, nodes⟩ => totalEffort nodes + 2

def totalEffort : List Node → Nat
  | [] => 0
  | n :: rest => n.effort + totalEffort rest

end

end Dataflow
