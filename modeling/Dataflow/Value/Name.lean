import Dataflow.Text.Blank
import Dataflow.Value

/-!
The names of value types in a definition. Case and surrounding blanks do not matter, and a name
that is not in the table names nothing.
-/

namespace Dataflow.ValueType

/-- Every recognised name; the first name of a type is the one it is written with. -/
def names : List (String × ValueType) :=
  [("any", any), ("object", any),
   ("integer", integer), ("int", integer), ("i64", integer),
   ("float", float), ("double", float), ("f64", float),
   ("text", text), ("string", text), ("str", text),
   ("boolean", boolean), ("bool", boolean),
   ("sequence", sequence), ("list", sequence), ("array", sequence),
   ("mapping", mapping), ("map", mapping), ("dict", mapping),
   ("bytes", bytes), ("binary", bytes), ("buffer", bytes)]

def name : ValueType → String
  | any => "any"
  | integer => "integer"
  | float => "float"
  | text => "text"
  | boolean => "boolean"
  | sequence => "sequence"
  | mapping => "mapping"
  | bytes => "bytes"

/-- The name of the type's constructor, as it stands in inspection texts. -/
def tag : ValueType → String
  | any => "Any"
  | integer => "Integer"
  | float => "Float"
  | text => "Text"
  | boolean => "Boolean"
  | sequence => "Sequence"
  | mapping => "Mapping"
  | bytes => "Bytes"

/-- The type that a name stands for. Only ASCII letters have two cases here. -/
def ofName? (s : String) : Option ValueType :=
  let wanted := (Text.trim s).toLower
  (names.find? fun (known, _) => known = wanted).map (·.2)

end Dataflow.ValueType
