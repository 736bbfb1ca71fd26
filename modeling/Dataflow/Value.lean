import Dataflow.Fields

/-!
Values that move through a graph, and the types that channels declare.

A channel accepts the values that carry its type's tag, and a channel of type `any` accepts
every value; nothing is converted on the way.
-/

namespace Dataflow

inductive Value where
  | integer (n : Int64)
  | float (x : Float)
  | text (s : String)
  | boolean (b : Bool)
  | sequence (items : List Value)
  /-- The fields are kept in the order of their keys, and no key occurs twice. -/
  | mapping (fields : List (String × Value))
  | bytes (data : List UInt8)
deriving Inhabited

inductive ValueType where
  | any
  | integer
  | float
  | text
  | boolean
  | sequence
  | mapping
  | bytes
deriving DecidableEq, Inhabited

namespace Value

/-- The tag of a value. It is never `any`. -/
def type : Value → ValueType
  | integer _ => .integer
  | float _ => .float
  | text _ => .text
  | boolean _ => .boolean
  | sequence _ => .sequence
  | mapping _ => .mapping
  | bytes _ => .bytes

def integer? : Value → Option Int64
  | integer n => some n
  | _ => none

def float? : Value → Option Float
  | float x => some x
  | _ => none

def text? : Value → Option String
  | text s => some s
  | _ => none

def boolean? : Value → Option Bool
  | boolean b => some b
  | _ => none

def sequence? : Value → Option (List Value)
  | sequence items => some items
  | _ => none

def mapping? : Value → Option (List (String × Value))
  | mapping fields => some fields
  | _ => none

def bytes? : Value → Option (List UInt8)
  | bytes data => some data
  | _ => none

def ofFields (fields : List (String × Value)) : Value := mapping (Fields.ofList fields)

mutual

/-- Equality of values, with the equality of IEEE arithmetic on floats: a NaN differs from
itself, and the two zeros agree. -/
def equals : Value → Value → Bool
  | integer a, integer b => a = b
  | float a, float b => a == b
  | text a, text b => a = b
  | boolean a, boolean b => a = b
  | sequence a, sequence b => equalItems a b
  | mapping a, mapping b => equalFields a b
  | bytes a, bytes b => a = b
  | _, _ => false

def equalItems : List Value → List Value → Bool
  | [], [] => true
  | a :: as, b :: bs => equals a b && equalItems as bs
  | _, _ => false

def equalField : String × Value → String × Value → Bool
  | (j, a), (k, b) => j = k && equals a b

def equalFields : List (String × Value) → List (String × Value) → Bool
  | [], [] => true
  | a :: as, b :: bs => equalField a b && equalFields as bs
  | _, _ => false

end

end Value

namespace ValueType

def accepts : ValueType → Value → Bool
  | any, _ => true
  | t, v => v.type = t

@[simp] theorem accepts_any (v : Value) : any.accepts v = true := rfl

@[simp] theorem accepts_type (v : Value) : v.type.accepts v = true := by
  cases v <;> rfl

end ValueType

end Dataflow
