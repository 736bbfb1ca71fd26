import Dataflow.Decimal.Notation
import Dataflow.Text.Quoted
import Dataflow.Value.Name

/-!
The two texts of a value: the one that messages show (`display`), and the one that names every
constructor (`inspect`).
-/

namespace Dataflow.Value

mutual

/-- Texts are quoted, keys are not, and bytes are only counted. -/
def display : Value → String
  | integer n => toString n
  | float x => Decimal.plain x
  | text s => Text.quoted s
  | boolean b => toString b
  | sequence items => Text.bracketed (displayItems items)
  | mapping fields => Text.braced (displayFields fields)
  | bytes data => "<" ++ toString data.length ++ " bytes>"

def displayItems : List Value → List String
  | [] => []
  | v :: rest => display v :: displayItems rest

def displayField : String × Value → String
  | (key, v) => key ++ ": " ++ display v

def displayFields : List (String × Value) → List String
  | [] => []
  | f :: rest => displayField f :: displayFields rest

end

mutual

def inspect : Value → String
  | integer n => "Integer(" ++ toString n ++ ")"
  | float x => "Float(" ++ Decimal.marked x ++ ")"
  | text s => "Text(" ++ Text.quoted s ++ ")"
  | boolean b => "Boolean(" ++ toString b ++ ")"
  | sequence items => "Sequence(" ++ Text.bracketed (inspectItems items) ++ ")"
  | mapping fields => "Mapping(" ++ Text.braced (inspectFields fields) ++ ")"
  | bytes data => "Bytes(" ++ Text.bracketed (data.map fun b => toString b) ++ ")"

def inspectItems : List Value → List String
  | [] => []
  | v :: rest => inspect v :: inspectItems rest

def inspectField : String × Value → String
  | (key, v) => Text.quoted key ++ ": " ++ inspect v

def inspectFields : List (String × Value) → List String
  | [] => []
  | f :: rest => inspectField f :: inspectFields rest

end

end Dataflow.Value
