import Dataflow.Fields
import Dataflow.Run.Options

/-!
Definitions: pipelines as documents describe them. A field that a document left out is `none`,
also where a pipeline cannot do without it, so that the lack can be reported against the entry it
belongs to (see `Definition/Build`).
-/

namespace Dataflow

/-- A value as a document writes it. What it becomes depends on the channel that it is for. -/
inductive Literal where
  | boolean (b : Bool)
  | integer (n : Int64)
  | float (x : Float)
  | text (s : String)
  | sequence (items : List Literal)
  /-- In key order, and no key occurs twice. -/
  | mapping (fields : List (String × Literal))
deriving Inhabited

structure ChannelDefinition where
  name : Option String := none
  /-- A name of a value type. -/
  type : Option String := none
deriving DecidableEq, Inhabited

structure OptionsDefinition where
  failureStrategy : Option FailureStrategy := none
  receiveTimeoutMillis : Option UInt64 := none
  validateInputs : Option Bool := none
deriving DecidableEq, Inhabited

mutual

/-- A node runs logic, by its key in a registry, or a pipeline of its own. -/
structure NodeDefinition where
  name : Option String := none
  kind : Option String := none
  inputs : List String := []
  outputs : List String := []
  logic : Option String := none
  pipeline : Option PipelineDefinition := none

structure PipelineDefinition where
  name : Option String := none
  channels : Option (List ChannelDefinition) := none
  nodes : Option (List NodeDefinition) := none
  /-- In key order, and no key occurs twice. -/
  initialData : Option (List (String × Literal)) := none
  options : Option OptionsDefinition := none

end

instance : Inhabited NodeDefinition := ⟨{}⟩

instance : Inhabited PipelineDefinition := ⟨{}⟩

/-- A whole document. -/
structure Definition where
  pipeline : Option PipelineDefinition := none
deriving Inhabited

/-- What is left open takes the value it has in a run without options. -/
def OptionsDefinition.toRunOptions (o : OptionsDefinition) : RunOptions :=
  let default : RunOptions := {}
  { failureStrategy := o.failureStrategy.getD default.failureStrategy
    receiveTimeout :=
      (o.receiveTimeoutMillis.map fun n => Duration.ofMillis n.toNat).or default.receiveTimeout
    validateInputs := o.validateInputs.getD default.validateInputs }

end Dataflow
