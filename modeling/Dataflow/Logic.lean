import Dataflow.Payload

/-!
Caller-supplied logic. The graph knows nothing of it but its shape and how it answers: with a
payload, with a failure, or by panicking.

An answer may depend on anything, so it is a function of the inputs and of the number of calls
that were made before it. Logic that ignores the number is deterministic.
-/

namespace Dataflow

/-- A producer takes nothing, a function takes the payload of a node's inputs. -/
inductive Shape where
  | producer
  | function
deriving DecidableEq, Inhabited

def Shape.name : Shape → String
  | .producer => "producer"
  | .function => "function"

/-- Why logic failed: a text, and below it the texts of what caused it, outermost first. -/
structure Failure where
  message : String
  causes : List String
deriving DecidableEq, Inhabited

namespace Failure

def of (message : String) : Failure := ⟨message, []⟩

/-- Says what was being attempted when the failure happened. -/
def within (f : Failure) (context : String) : Failure := ⟨context, f.message :: f.causes⟩

/-- All texts, outermost first. -/
def texts (f : Failure) : List String := f.message :: f.causes

end Failure

/-- What a panic carries. Only a text can be reported. -/
inductive PanicPayload where
  | text (s : String)
  | other
deriving DecidableEq, Inhabited

def PanicPayload.message : PanicPayload → String
  | .text s => s
  | .other => "unknown panic payload"

inductive Reply where
  | returned (outputs : Payload)
  | failed (failure : Failure)
  | panicked (payload : PanicPayload)
deriving Inhabited

/-- An observation that logic leaves outside the graph. -/
structure Record where
  tag : String
  inputs : Payload
deriving Inhabited

structure Reaction where
  reply : Reply
  records : List Record := []
deriving Inhabited

structure Logic where
  shape : Shape
  act : (earlierCalls : Nat) → (inputs : Payload) → Reaction
deriving Inhabited

namespace Logic

/-- Logic that is a function of its inputs and leaves no records. -/
def pure (shape : Shape) (f : Payload → Reply) : Logic := ⟨shape, fun _ inputs => ⟨f inputs, []⟩⟩

def inspect (l : Logic) : String := "Logic::" ++ l.shape.name

end Logic

end Dataflow
