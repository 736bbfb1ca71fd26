import Dataflow.Definition.Format
import Dataflow.Graph.Error
import Dataflow.Logic

/-!
Why a definition could not be read, or could not be turned into a pipeline.
-/

namespace Dataflow

inductive DefinitionError where
  /-- The file at `path` could not be read; `reason` is what the system says. -/
  | unreadable (path reason : String)
  | unsupportedFormat (path : String)
  /-- The text is not a document of its format, or not one that describes a definition. -/
  | malformed (format : Format)
  /-- `item` names the entry that lacks the field, as in `channel #2`. -/
  | missingField (item field : String)
  | invalid (item reason : String)
  | unknownType (channel typeName : String)
  | unknownLogic (node logic : String)
  | logicShape (node logic : String) (expected : Shape)
  | invalidLiteral (channel reason : String)
  | graph (error : GraphError)
deriving DecidableEq, Inhabited

namespace DefinitionError

/-- A channel's complaint, as that of the graph it is in. -/
def ofChannel (e : ChannelError) : DefinitionError := graph (.channel e)

def message : DefinitionError → String
  | unreadable path reason => s!"Failed to read definition '{path}': {reason}"
  | unsupportedFormat path =>
    s!"Unsupported definition format for '{path}' (expected .yaml, .yml, .json or .toml)"
  | malformed format => s!"Invalid {format.title} definition"
  | missingField item field => s!"{item} is missing required field '{field}'"
  | invalid item reason => s!"{item} is invalid: {reason}"
  | unknownType c t => s!"Channel '{c}' declares unknown type '{t}'"
  | unknownLogic n l => s!"Node '{n}' references logic '{l}' which is not in the registry"
  | logicShape n l expected =>
    s!"Node '{n}' needs {expected.name} logic but '{l}' is registered with a different shape"
  | invalidLiteral c reason => s!"Initial value for channel '{c}' is invalid: {reason}"
  | graph e => e.message

/-- The texts of what caused the error, outermost first. -/
def causes : DefinitionError → List String
  | unreadable _ reason => [reason]
  | _ => []

end DefinitionError

end Dataflow
