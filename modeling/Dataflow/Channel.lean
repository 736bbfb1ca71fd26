import Dataflow.Duration
import Dataflow.Value.Name

/-!
Channels, by identity. Two channels may share a name and a type and still be different channels;
the values that wait on a channel belong to its identity (see `Conduit`).
-/

namespace Dataflow

structure Channel where
  id : Nat
  name : String
  type : ValueType
deriving DecidableEq, Inhabited

inductive ChannelError where
  /-- The value was refused; nothing was sent. -/
  | typeMismatch (channel : String) (expected actual : ValueType)
  | cancelled (channel : String)
  | timeout (channel : String) (limit : Duration)
  /-- A receiver had a permit and found no value. -/
  | closed (channel : String)
deriving DecidableEq, Inhabited

namespace ChannelError

def message : ChannelError → String
  | typeMismatch channel expected actual =>
    s!"Channel '{channel}' expects data of type {expected.name}, but got {actual.name}"
  | cancelled channel => s!"Receive on channel '{channel}' was cancelled"
  | timeout channel limit => s!"No value arrived on channel '{channel}' within {limit.text}"
  | closed channel => s!"Channel '{channel}' is closed"

end ChannelError

namespace Channel

/-- A channel takes only values that its type accepts. -/
def check (c : Channel) (v : Value) : Except ChannelError Unit :=
  if c.type.accepts v then .ok () else .error (.typeMismatch c.name c.type v.type)

theorem check_eq_ok_iff {c : Channel} {v : Value} : c.check v = .ok () ↔ c.type.accepts v := by
  by_cases h : c.type.accepts v <;> simp [check, h]

theorem check_eq_error {c : Channel} {v : Value} (h : c.type.accepts v = false) :
    c.check v = .error (.typeMismatch c.name c.type v.type) := by
  simp [check, h]

end Channel

end Dataflow
