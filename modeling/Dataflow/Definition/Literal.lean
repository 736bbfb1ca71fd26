import Dataflow.Channel
import Dataflow.Decimal.Notation
import Dataflow.Definition.Error
import Dataflow.Definition
import Dataflow.Text.Base64
import Dataflow.Text.Quoted

/-!
How the literals of a definition become values for channels. An integer does for a channel of
floats, and a channel of bytes takes Base64 text or a list of byte values; any other literal
stands for itself and has to suit the channel as it is.
-/

namespace Dataflow.Literal

mutual

/-- The value that a literal stands for by itself. -/
def toValue : Literal → Value
  | boolean b => .boolean b
  | integer n => .integer n
  | float x => .float x
  | text s => .text s
  | sequence items => .sequence (toValues items)
  | mapping fields => .mapping (toFields fields)

def toValues : List Literal → List Value
  | [] => []
  | l :: rest => toValue l :: toValues rest

def toField : String × Literal → String × Value
  | (key, l) => (key, toValue l)

def toFields : List (String × Literal) → List (String × Value)
  | [] => []
  | f :: rest => toField f :: toFields rest

end

mutual

/-- The text that names every constructor. -/
def inspect : Literal → String
  | boolean b => "Boolean(" ++ toString b ++ ")"
  | integer n => "Integer(" ++ toString n ++ ")"
  | float x => "Float(" ++ Decimal.marked x ++ ")"
  | text s => "Text(" ++ Text.quoted s ++ ")"
  | sequence items => "Sequence(" ++ Text.bracketed (inspectItems items) ++ ")"
  | mapping fields => "Mapping(" ++ Text.braced (inspectFields fields) ++ ")"

def inspectItems : List Literal → List String
  | [] => []
  | l :: rest => inspect l :: inspectItems rest

def inspectField : String × Literal → String
  | (key, l) => Text.quoted key ++ ": " ++ inspect l

def inspectFields : List (String × Literal) → List String
  | [] => []
  | f :: rest => inspectField f :: inspectFields rest

end

/-- The byte that an integer from 0 to 255 stands for, or why there is none. -/
def toByte : Literal → Except String UInt8
  | integer n =>
    if 0 ≤ n.toInt ∧ n.toInt < 256 then .ok n.toInt.toNat.toUInt8
    else .error s!"{n} is not a byte value"
  | other => .error s!"{other.inspect} is not a byte value"

/-- What a literal becomes where values of type `t` are expected, or why it cannot. The result
need not be of type `t`. -/
def convert : ValueType → Literal → Except String Value
  | .float, integer n => .ok (.float n.toFloat)
  | .bytes, text s =>
    match Base64.decode s.toUTF8.toList with
    | .error fault => .error s!"not valid base64: {fault.message}"
    | .ok data => .ok (.bytes data)
  | .bytes, sequence items => do return .bytes (← items.mapM toByte)
  | _, l => .ok l.toValue

/-- The value that a literal becomes on a channel. -/
def forChannel (c : Channel) (l : Literal) : Except DefinitionError Value := do
  let v ← (convert c.type l).mapError (.invalidLiteral c.name)
  (c.check v).mapError .ofChannel
  return v

end Dataflow.Literal
