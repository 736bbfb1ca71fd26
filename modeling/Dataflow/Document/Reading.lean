import Dataflow.Document.Tree

/-!
Reading a definition from the tree of a document.

Only what a definition has a field for is read. A table that describes an entry may have other
keys, and what is under them may be anything; but no field may be given twice.
-/

namespace Dataflow.Document

/-- A document, and the conventions of its format. -/
structure Source where
  root : Tree
  /-- How many lists and tables may be inside each other, as far as they are read. -/
  depth : Nat
  /-- The trees that references stand for. -/
  targets : List (Nat × Tree) := []
  /-- How many references may be followed in all. -/
  references : Nat := 0
  /-- Instead of a table with fields, the list of all its fields may be given. -/
  positional : Bool := false
  /-- A name may be given as a table with an entry that says nothing more. -/
  saysNothing : Tree → Bool := fun _ => false

/-- Reading consumes the references that may still be followed. -/
abbrev Reading := StateT Nat Option

namespace Source

variable (d : Source) {α : Type}

/-- The tree itself, or the one that it refers to. -/
def follow : Tree → Reading Tree
  | .reference target => do
    match ← get with
    | 0 => failure
    | n + 1 =>
      set n
      StateT.lift (d.targets.lookup target)
  | t => pure t

def scalar (reading : Scalar → Option α) (t : Tree) : Reading α := do
  match ← d.follow t with
  | .scalar s => StateT.lift (reading s)
  | _ => failure

def text (t : Tree) : Reading String := d.scalar Scalar.text? t

/-- The items of a list whose content is read at the given depth or less. -/
def items (depth : Nat) (t : Tree) : Reading (List Tree) := do
  match ← d.follow t with
  | .scalar s => if s.hollow then pure [] else failure
  | .list items | .typed (.list items) => if depth = 0 then failure else pure items
  | _ => failure

def list (reading : Nat → Tree → Reading α) (depth : Nat) (t : Tree) : Reading (List α) := do
  (← d.items depth t).mapM (reading (depth - 1))

def entries (depth : Nat) (t : Tree) : Reading (List (Tree × Tree)) := do
  match ← d.follow t with
  | .scalar s => if s.hollow then pure [] else failure
  | .table entries | .typed (.table entries) => if depth = 0 then failure else pure entries
  | _ => failure

/-- The entries under known keys. All keys must be texts. -/
def known (names : List String) : List (Tree × Tree) → Reading (List (String × Tree))
  | [] => pure []
  | (key, t) :: rest => do
    let name ← d.text key
    let others ← known names rest
    if name ∉ names then return others
    else if (others.lookup name).isSome then failure
    else return (name, t) :: others

/-- The fields of an entry, out of those that such an entry can have. -/
def fields (names : List String) (depth : Nat) (t : Tree) : Reading (List (String × Tree)) := do
  match ← d.follow t with
  | .list items =>
    if d.positional ∧ items.length = names.length ∧ depth ≠ 0 then return names.zip items
    else failure
  | t => d.known names (← d.entries depth t)

/-- What may be left out, or be there and say that it is not. -/
def optional (reading : Tree → Reading α) : Option Tree → Reading (Option α)
  | none => pure none
  | some t => do
    match ← d.follow t with
    | .scalar s =>
      match s.presence with
      | .present => some <$> reading (.scalar s)
      | .absent => pure none
      | .contradictory => failure
    | t => some <$> reading t

def orElse (other : α) (reading : Tree → Reading α) : Option Tree → Reading α
  | none => pure other
  | some t => reading t

/-- One of some names. -/
def choice (depth : Nat) (ofName? : String → Option α) (t : Tree) : Reading α := do
  match ← d.follow t with
  | .scalar s => StateT.lift (s.choice?.bind ofName?)
  | .table [(key, content)] =>
    if depth = 0 ∨ ¬ d.saysNothing content then failure
    else StateT.lift (ofName? (← d.text key))
  | _ => failure

/-! ### The parts of a definition -/

/-- The keys of a literal table are literals that are texts. -/
def literal : Nat → Tree → Reading Literal
  | depth, t => do
    match depth, ← d.follow t with
    | _, .scalar s => StateT.lift s.literal?
    | depth + 1, .list items => return .sequence (← items.mapM (literal depth))
    | depth + 1, .table entries =>
      let fields ← entries.mapM fun (key, t) => do
        match ← literal depth key with
        | .text name => return (name, ← literal depth t)
        | _ => failure
      return .mapping (Fields.ofList fields)
    | _, _ => failure

def initialData (depth : Nat) (t : Tree) : Reading (List (String × Literal)) := do
  let fields ← (← d.entries depth t).mapM fun (key, t) => do
    return (← d.text key, ← d.literal (depth - 1) t)
  return Fields.ofList fields

def strategyOfName? : String → Option FailureStrategy
  | "fail_fast" => some .failFast
  | "continue_on_error" => some .continueOnError
  | _ => none

def options (depth : Nat) (t : Tree) : Reading OptionsDefinition := do
  let f ← d.fields ["failure_strategy", "receive_timeout_ms", "validate_inputs"] depth t
  return {
    failureStrategy :=
      ← d.optional (d.choice (depth - 1) strategyOfName?) (f.lookup "failure_strategy")
    receiveTimeoutMillis :=
      ← d.optional (d.scalar Scalar.natural?) (f.lookup "receive_timeout_ms")
    validateInputs := ← d.optional (d.scalar Scalar.boolean?) (f.lookup "validate_inputs") }

def channel (depth : Nat) (t : Tree) : Reading ChannelDefinition := do
  let f ← d.fields ["name", "type"] depth t
  return {
    name := ← d.optional d.text (f.lookup "name")
    type := ← d.optional d.text (f.lookup "type") }

/-- A node, given how a pipeline within it is read. -/
def node (inner : Nat → Tree → Reading PipelineDefinition) (depth : Nat) (t : Tree) :
    Reading NodeDefinition := do
  let f ← d.fields ["name", "kind", "inputs", "outputs", "logic", "pipeline"] depth t
  return {
    name := ← d.optional d.text (f.lookup "name")
    kind := ← d.optional d.text (f.lookup "kind")
    inputs := ← orElse [] (d.list (fun _ => d.text) (depth - 1)) (f.lookup "inputs")
    outputs := ← orElse [] (d.list (fun _ => d.text) (depth - 1)) (f.lookup "outputs")
    logic := ← d.optional d.text (f.lookup "logic")
    pipeline := ← d.optional (inner (depth - 1)) (f.lookup "pipeline") }

/-- A pipeline with at most `levels - 1` pipelines inside each other. -/
def pipeline : (levels depth : Nat) → Tree → Reading PipelineDefinition
  | 0, _, _ => failure
  | levels + 1, depth, t => do
    let f ← d.fields ["name", "channels", "nodes", "initial_data", "options"] depth t
    return {
      name := ← d.optional d.text (f.lookup "name")
      channels := ← d.optional (d.list d.channel (depth - 1)) (f.lookup "channels")
      nodes := ← d.optional (d.list (d.node (pipeline levels)) (depth - 1)) (f.lookup "nodes")
      initialData := ← d.optional (d.initialData (depth - 1)) (f.lookup "initial_data")
      options := ← d.optional (d.options (depth - 1)) (f.lookup "options") }

/-- Every pipeline inside another one is deeper, so that the depth bounds the levels too. -/
def definition? : Option Definition :=
  let reading : Reading Definition := do
    let f ← d.fields ["pipeline"] d.depth d.root
    let inner := d.pipeline (d.depth + 1) (d.depth - 1)
    return { pipeline := ← d.optional inner (f.lookup "pipeline") }
  (reading.run d.references).map Prod.fst

end Source

end Dataflow.Document
