import Dataflow.Run.World

/-!
Publishing what a node produced: all of it or nothing. Every value is checked against the type of
its channel before the first one is sent. A declared output without a value, and a value that
belongs to no output, are worth a notice and nothing more.
-/

namespace Dataflow.Node

/-- Goes through the outputs in order and pairs each with its value. Stops at the first value
that its channel refuses. -/
def pair (n : Node) (produced : Payload) :
    List Channel → List Notice × Except ChannelError (List (Channel × Value))
  | [] => ([], .ok [])
  | c :: rest =>
    match produced.get? c.name with
    | none =>
      let (notices, ready) := n.pair produced rest
      (.outputNotProduced n.name c.name :: notices, ready)
    | some v =>
      match c.check v with
      | .error e => ([], .error e)
      | .ok () =>
        let (notices, ready) := n.pair produced rest
        (notices, ready.map ((c, v) :: ·))

/-- The keys of a payload that are no outputs of the node. -/
def undeclared (n : Node) (produced : Payload) : List String :=
  produced.keys.filter fun key => key ∉ n.outputs.map (·.name)

/-- What will be sent, with the notices that come before it. -/
def prepare (n : Node) (produced : Payload) :
    List Notice × Except ChannelError (List (Channel × Value)) :=
  match n.pair produced n.outputs with
  | (notices, .error e) => (notices, .error e)
  | (notices, .ok ready) =>
    (notices ++ (n.undeclared produced).map (.undeclaredOutput n.name), .ok ready)

end Dataflow.Node
