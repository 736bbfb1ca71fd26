import Dataflow.Graph.Pipeline

/-!
Whether every node of a pipeline is sure to get its inputs.

A run is played out on counts instead of values. A node can fire once each of its inputs has
enough values for every reader that has not fired yet, so that no reader can be left without;
firing takes one value from each input and adds one to each output. Nodes that never fire may
wait for ever.
-/

namespace Dataflow

/-- For each channel name, the values at hand and the readers that have not fired. -/
structure Counts where
  supply : String → Nat
  pending : String → Nat

namespace Counts

/-- The values cover every pending reader, and there is at least one. -/
def covers (k : Counts) (channel : String) : Bool := max 1 (k.pending channel) ≤ k.supply channel

/-- The first input of a node that the values do not cover. -/
def uncovered? (k : Counts) (n : Node) : Option String :=
  (n.inputs.map (·.name)).find? fun c => !k.covers c

def bump (f : String → Nat) (key : String) : String → Nat :=
  fun k => if k = key then f k + 1 else f k

def drop (f : String → Nat) (key : String) : String → Nat :=
  fun k => if k = key then f k - 1 else f k

def fire (k : Counts) (n : Node) : Counts :=
  let ins := n.inputs.map (·.name)
  let outs := n.outputs.map (·.name)
  { supply := outs.foldl bump (ins.foldl drop k.supply), pending := ins.foldl drop k.pending }

/-- Goes once through the nodes and fires each that is covered when its turn comes. Gives the
counts after that and the nodes that did not fire. -/
def pass (k : Counts) : List Node → Counts × List Node
  | [] => (k, [])
  | n :: rest =>
    match k.uncovered? n with
    | some _ =>
      let (k', left) := k.pass rest
      (k', n :: left)
    | none => (k.fire n).pass rest

theorem length_pass_le (k : Counts) (nodes : List Node) :
    (k.pass nodes).2.length ≤ nodes.length := by
  induction nodes generalizing k with
  | nil => simp [pass]
  | cons n rest ih =>
    simp only [pass]
    split
    · simpa using ih k
    · exact Nat.le_succ_of_le (ih _)

/-- Passes over the nodes until one of them fires nothing. -/
def settle (k : Counts) (nodes : List Node) : Counts × List Node :=
  let next := k.pass nodes
  if _h : next.2.length < nodes.length then settle next.1 next.2 else next
termination_by nodes.length

end Counts

namespace Pipeline

/-- Every pair of a reading node and an input of it, by channel name. -/
def reads (nodes : List Node) : List String := nodes.flatMap fun n => n.inputs.map (·.name)

def writes (nodes : List Node) : List String := nodes.flatMap fun n => n.outputs.map (·.name)

/-- Channels that some node reads, in order and without repetition. -/
def consumed (p : Pipeline) : List String := (reads p.nodes).eraseDups.mergeSort (· ≤ ·)

/-- Channels that some node writes, in order and without repetition. -/
def produced (p : Pipeline) : List String := (writes p.nodes).eraseDups.mergeSort (· ≤ ·)

/-- Channels that are read here and written nowhere: what must come from outside. -/
def boundaryInputs (p : Pipeline) : List String := p.consumed.filter fun c => c ∉ p.produced

/-- The counts before anything has fired, when `queued c` values wait on a channel and each name
in `seeded` brings one more. -/
def counts (p : Pipeline) (queued : Channel → Nat) (seeded : List String) : Counts where
  supply name :=
    match p.channel? name with
    | none => 0
    | some c => queued c + if name ∈ seeded then 1 else 0
  pending name := (reads p.nodes).count name

/-- The first node in registration order that may wait for ever, and the input it may wait on. -/
def starved? (p : Pipeline) (queued : Channel → Nat) (seeded : List String) :
    Option (Node × String) :=
  let (k, left) := (p.counts queued seeded).settle p.nodes
  left.findSome? fun n => (k.uncovered? n).map fun c => (n, c)

def checkSatisfiable (p : Pipeline) (queued : Channel → Nat) (seeded : List String) :
    Except GraphError Unit :=
  match p.starved? queued seeded with
  | some (n, c) => .error (.unsatisfiableInput n.name c)
  | none => .ok ()

end Pipeline

end Dataflow
