import Dataflow.Logic
import Dataflow.Value.Text
import Dataflow.Word

/-!
Ready-made logic: arithmetic on integers, renaming and packing, and logic that records, fails or
panics.
-/

namespace Dataflow.Logic.Stock

/-- Combines the integers under `keys`, from the left, beginning with `acc`. -/
def foldIntegers (op : Int → Int → Int) (inputs : Payload) :
    Int64 → List String → Except Failure Int64
  | acc, [] => .ok acc
  | acc, key :: rest =>
    match (inputs.get? key).bind Value.integer? with
    | none => .error (.of s!"input '{key}' is missing or not an integer")
    | some n =>
      match int64? (op acc.toInt n.toInt) with
      | none => .error (.of "integer overflow")
      | some total => foldIntegers op inputs total rest

def arithmetic (op : Int → Int → Int) (unit : Int64) (keys : List String) (output : String) :
    Payload → Reply := fun inputs =>
  match foldIntegers op inputs unit keys with
  | .ok total => .returned (.singleton output (.integer total))
  | .error f => .failed f

def identity : Payload → Reply := .returned

def const (outputs : Payload) : Payload → Reply := fun _ => .returned outputs

def nothing : Payload → Reply := const .empty

def sum (keys : List String) (output : String) : Payload → Reply :=
  arithmetic (· + ·) 0 keys output

def product (keys : List String) (output : String) : Payload → Reply :=
  arithmetic (· * ·) 1 keys output

/-- Passes one value on under a new name. -/
def rename (source target : String) : Payload → Reply := fun inputs =>
  match inputs.get? source with
  | some v => .returned (.singleton target v)
  | none => .failed (.of s!"input '{source}' is missing")

/-- All inputs as one mapping. -/
def pack (output : String) : Payload → Reply := fun inputs =>
  .returned (.singleton output (.ofFields inputs.entries))

/-- The text of all inputs. -/
def describe (output : String) : Payload → Reply := fun inputs =>
  .returned (.singleton output (.text (Value.ofFields inputs.entries).display))

/-- The product of two floats. -/
def scale (value gain output : String) : Payload → Reply := fun inputs =>
  match (inputs.get? value).bind Value.float?, (inputs.get? gain).bind Value.float? with
  | some x, some y => .returned (.singleton output (.float (x * y)))
  | _, _ => .failed (.of "scale needs two floats")

/-- Fails with `message`, within each text of `context` in turn. -/
def fail (message : String) (context : List String) : Payload → Reply := fun _ =>
  .failed (context.foldl Failure.within (.of message))

def panic (payload : PanicPayload) : Payload → Reply := fun _ => .panicked payload

/-- Leaves its inputs as a record and returns nothing. -/
def record (shape : Shape) (tag : String) : Logic :=
  ⟨shape, fun _ inputs => ⟨.returned .empty, [⟨tag, inputs⟩]⟩⟩

end Dataflow.Logic.Stock
