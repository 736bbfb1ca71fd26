import Dataflow.Proofs.Acceptance
import Dataflow.Proofs.Entries

/-!
What is reported of a rejected definition. The rules for nodes and blocks do not ask for identities
or logic, so building and reading come to the same, entry by entry.

Main statement: the error is what is wrong with the first entry that has anything wrong with it,
whatever stands behind that entry (`first_fault_reported`).
-/

namespace Dataflow

/-! ### Rules and identities -/

@[simp] lemma NodeKind.kind_blank (k : NodeKind) : k.blank.kind = k := by cases k <;> rfl

lemma Channel.map_bare_name (cs : List Channel) :
    (cs.map bare).map (·.name) = cs.map (·.name) := by
  rw [List.map_map]
  rfl

namespace Node

lemma cardinalityFault?_bare (kind : NodeKind) (inputs outputs : List Channel) :
    cardinalityFault? kind (inputs.map Channel.bare) (outputs.map Channel.bare) =
      cardinalityFault? kind inputs outputs := by
  cases kind <;> simp [cardinalityFault?]

lemma loop_bare (inputs outputs : List Channel) :
    ((inputs.map Channel.bare).find? fun i => (outputs.map Channel.bare).any fun o =>
        o.name = i.name).map (WiringFault.loop ·.name) =
      (inputs.find? fun i => outputs.any fun o => o.name = i.name).map (.loop ·.name) := by
  rw [List.find?_map, Option.map_map]
  simp only [List.any_map]
  rfl

/-- The rules for the wiring of a node ask for nothing but names and its kind. -/
lemma wiringFault?_bare (n : Node) : n.bare.wiringFault? = n.wiringFault? := by
  simp only [wiringFault?, bare, kind, NodeKind.kind_blank, cardinalityFault?_bare,
    Channel.map_bare_name, loop_bare]

lemma uncovered?_bare (k : Counts) (n : Node) : k.uncovered? n.bare = k.uncovered? n := by
  rw [Counts.uncovered?, Counts.uncovered?, bare, Channel.map_bare_name]

lemma fire_bare (k : Counts) (n : Node) : k.fire n.bare = k.fire n := by
  simp only [Counts.fire, bare, Channel.map_bare_name]

end Node

namespace Counts

lemma pass_bare (k : Counts) (nodes : List Node) :
    k.pass (nodes.map Node.bare) = ((k.pass nodes).1, (k.pass nodes).2.map Node.bare) := by
  induction nodes generalizing k with
  | nil => rfl
  | cons n nodes ih =>
    rw [List.map_cons, pass, pass, Node.uncovered?_bare]
    cases k.uncovered? n with
    | none => simp only [Node.fire_bare, ih]
    | some c => simp only [ih, List.map_cons]

lemma settle_bare (k : Counts) (nodes : List Node) :
    k.settle (nodes.map Node.bare) = ((k.settle nodes).1, (k.settle nodes).2.map Node.bare) := by
  induction k, nodes using settle.induct with
  | case1 k nodes next h ih =>
    have hlt : (k.pass nodes).2.length < nodes.length := h
    rw [settle.eq_def, settle.eq_def k nodes]
    simp only [pass_bare, List.length_map, dif_pos hlt]
    exact ih
  | case2 k nodes next h =>
    have hle : ¬ (k.pass nodes).2.length < nodes.length := h
    rw [settle.eq_def, settle.eq_def k nodes]
    simp only [pass_bare, List.length_map, dif_neg hle]

end Counts

namespace Pipeline

variable {p : Pipeline} {inputs outputs : List Channel} {seeded : List String}

@[simp] lemma channel?_bare (p : Pipeline) (name : String) :
    p.bare.channel? name = (p.channel? name).map Channel.bare := List.find?_map

@[simp] lemma node?_bare (p : Pipeline) (name : String) :
    p.bare.node? name = (p.node? name).map Node.bare := List.find?_map

lemma reads_bare (nodes : List Node) : reads (nodes.map Node.bare) = reads nodes := by
  simp only [reads, List.flatMap_map, Node.bare, Channel.map_bare_name]

lemma writes_bare (nodes : List Node) : writes (nodes.map Node.bare) = writes nodes := by
  simp only [writes, List.flatMap_map, Node.bare, Channel.map_bare_name]

lemma consumed_bare (p : Pipeline) : p.bare.consumed = p.consumed := by
  rw [consumed, consumed, bare, reads_bare]

lemma produced_bare (p : Pipeline) : p.bare.produced = p.produced := by
  rw [produced, produced, bare, writes_bare]

lemma counts_bare (p : Pipeline) (seeded : List String) :
    p.bare.counts (fun _ => 0) seeded = p.counts (fun _ => 0) seeded := by
  simp only [counts, channel?_bare]
  congr 1
  · funext name
    cases p.channel? name <;> rfl
  · funext name
    rw [bare, reads_bare]

lemma checkSatisfiable_bare (p : Pipeline) (seeded : List String) :
    p.bare.checkSatisfiable (fun _ => 0) seeded = p.checkSatisfiable (fun _ => 0) seeded := by
  have hstarved : p.bare.starved? (fun _ => 0) seeded =
      (p.starved? (fun _ => 0) seeded).map fun e => (e.1.bare, e.2) := by
    have hnodes : p.bare.nodes = p.nodes.map Node.bare := rfl
    simp only [starved?, counts_bare, hnodes, Counts.settle_bare]
    generalize (p.counts (fun _ => 0) seeded).settle p.nodes = settled
    obtain ⟨k, left⟩ := settled
    induction left with
    | nil => rfl
    | cons n left ih =>
      rw [List.map_cons, List.findSome?_cons, List.findSome?_cons, Node.uncovered?_bare, ih]
      cases k.uncovered? n <;> rfl
  rw [checkSatisfiable, checkSatisfiable, hstarved]
  cases p.starved? (fun _ => 0) seeded <;> rfl

/-- The rules for a block behind a node ask for nothing but names and types. -/
lemma boundaryFault?_bare (p : Pipeline) (inputs outputs : List Channel) :
    p.bare.boundaryFault? (fun _ => 0) false (inputs.map Channel.bare)
        (outputs.map Channel.bare) =
      p.boundaryFault? (fun _ => 0) false inputs outputs := by
  have hins : p.bare.inputsFault? (inputs.map Channel.bare) = p.inputsFault? inputs := by
    simp only [inputsFault?, boundaryInputs, consumed_bare, produced_bare, Channel.map_bare_name]
    rfl
  have houts : (outputs.map Channel.bare).findSome? p.bare.outputFault? =
      outputs.findSome? p.outputFault? := by
    rw [List.findSome?_map]
    congr 1
    funext c
    simp only [Function.comp_apply, outputFault?, consumed_bare, produced_bare]
    rfl
  have htypes : (inputs.map Channel.bare ++ outputs.map Channel.bare).findSome? p.bare.typeFault? =
      (inputs ++ outputs).findSome? p.typeFault? := by
    rw [← List.map_append, List.findSome?_map]
    congr 1
    funext c
    simp only [Function.comp_apply, typeFault?, channel?_bare]
    cases hc : p.channel? c.name <;> simp only [Channel.bare, hc] <;> rfl
  simp only [boundaryFault?, hins, houts, htypes, checkSatisfiable_bare, Channel.map_bare_name,
    Bool.false_eq_true, if_false]

end Pipeline

/-! ### Two checks that come to the same -/

lemma Except.ok_bind {ε α β : Type} (a : α) (f : α → Except ε β) :
    (Except.ok a >>= f) = f a := rfl

/-- Both fail with one error, or both succeed with results that agree. -/
inductive Except.Alike {ε α β : Type} (R : α → β → Prop) : Except ε α → Except ε β → Prop where
  | error (e : ε) : Alike R (.error e) (.error e)
  | ok {a : α} {b : β} (agree : R a b) : Alike R (.ok a) (.ok b)

namespace Except.Alike

variable {ε α β α' β' : Type} {R : α → β → Prop} {S : α' → β' → Prop} {x : Except ε α}
  {y : Except ε β} {e : ε}

lemma bind {f : α → Except ε α'} {g : β → Except ε β'} (h : Alike R x y)
    (hfg : ∀ a b, x = .ok a → R a b → Alike S (f a) (g b)) : Alike S (x >>= f) (y >>= g) := by
  cases h with
  | error e => exact .error e
  | ok agree => exact hfg _ _ rfl agree

/-- What is made of a result at once. -/
lemma map {T : α' → β → Prop} {f : α → α'} (h : Alike R x y) (hf : ∀ a b, R a b → T (f a) b) :
    Alike T (x >>= fun a => .ok (f a)) y := by
  cases h with
  | error e => exact .error e
  | ok agree => exact .ok (hf _ _ agree)

lemma mono {T : α → β → Prop} (h : Alike R x y) (hRT : ∀ a b, R a b → T a b) : Alike T x y := by
  cases h with
  | error e => exact .error e
  | ok agree => exact .ok (hRT _ _ agree)

lemma error_iff (h : Alike R x y) : x = .error e ↔ y = .error e := by
  cases h with
  | error e' => simp
  | ok => simp

end Except.Alike

namespace Definition

/-- Reads an entry if nothing is wrong with it. -/
def Reader.step (registry : Registry) (r : Reader) (x : Entry) : Except DefinitionError Reader :=
  match r.fault? registry x with
  | some e => .error e
  | none => .ok (r.read x)

/-- Reads entries up to the first with which something is wrong. -/
def Reader.check (registry : Registry) (r : Reader) (es : List Entry) :
    Except DefinitionError Reader := es.foldlM (Reader.step registry) r

variable {registry : Registry} {r : Reader} {x : Entry} {es es' : List Entry}
  {e : DefinitionError}

lemma check_cons : r.check registry (x :: es) =
    r.step registry x >>= fun r' => r'.check registry es := List.foldlM_cons

lemma check_singleton : r.check registry [x] = r.step registry x := by
  rw [check_cons]
  cases r.step registry x <;> rfl

lemma check_append : r.check registry (es ++ es') =
    r.check registry es >>= fun r' => r'.check registry es' := List.foldlM_append

lemma check_cons_eq_error : r.check registry (x :: es) = .error e ↔
    r.fault? registry x = some e ∨
      r.fault? registry x = none ∧ (r.read x).check registry es = .error e := by
  rw [check_cons, Reader.step]
  cases r.fault? registry x with
  | some e' => simp [bind, Except.bind]
  | none => simp [Except.ok_bind]

/-- A check stops at the first entry with which something is wrong. -/
lemma check_eq_error : r.check registry es = .error e ↔ ∃ before x after,
    es = before ++ x :: after ∧
      (∀ b y a, before = b ++ y :: a → Reader.fault? registry (b.foldl Reader.read r) y = none) ∧
      Reader.fault? registry (before.foldl Reader.read r) x = some e := by
  induction es generalizing r with
  | nil => simp [Reader.check, pure, Except.pure]
  | cons x es ih =>
    rw [check_cons_eq_error, ih]
    constructor
    · rintro (hx | ⟨hx, before, x', after, rfl, hclean, hfault⟩)
      · exact ⟨[], x, es, rfl, by simp, hx⟩
      · refine ⟨x :: before, x', after, rfl, ?_, hfault⟩
        rintro (_ | ⟨y, b⟩) z a hsplit
        · obtain ⟨rfl, -⟩ := List.cons.inj hsplit
          exact hx
        · obtain ⟨rfl, rfl⟩ := List.cons.inj hsplit
          exact hclean b z a rfl
    · rintro ⟨_ | ⟨y, before⟩, x', after, hes, hclean, hfault⟩
      · obtain ⟨rfl, rfl⟩ := List.cons.inj hes
        exact .inl hfault
      · obtain ⟨rfl, rfl⟩ := List.cons.inj hes
        refine .inr ⟨hclean [] x before rfl, before, x', after, rfl, fun b z a hsplit => ?_, hfault⟩
        exact hclean (x :: b) z a (by rw [hsplit, List.cons_append])

/-! ### Reading is building -/

section

variable {α : Type} {R : α → Reader → Prop} {y : α}

lemma alike_of_fault (h : r.fault? registry x = some e) :
    Except.Alike R (.error e) (r.step registry x) := by
  rw [Reader.step, h]
  exact .error e

/-- What is wrong at once is wrong, whatever comes after it. -/
lemma alike_of_first (h : r.fault? registry x = some e) :
    Except.Alike R (.error e) (r.check registry (x :: es)) := by
  rw [check_cons_eq_error.2 (.inl h)]
  exact .error e

lemma alike_of_clean (h : r.fault? registry x = none) (hR : R y (r.read x)) :
    Except.Alike R (.ok y) (r.step registry x) := by
  rw [Reader.step, h]
  exact .ok hR

end

variable {p q : Pipeline} {item name : String} {fresh position : Nat} {b : Block}

/-- A channel that is declared is read into its block. -/
lemma alike_declareIn (c : ChannelDefinition) (hpos : position = p.channels.length + 1) :
    Except.Alike
      (fun q r' => r' = .between item q.1.bare :: r ∧ q.1.nodes = p.nodes ∧
        position + 1 = q.1.channels.length + 1)
      (c.declareIn p fresh position)
      (Reader.step registry (.between item p.bare :: r) (.channel c)) := by
  obtain ⟨name, typeName⟩ := c
  have hlength : p.bare.channels.length = p.channels.length := List.length_map _
  cases name with
  | none =>
    refine alike_of_fault ?_
    simp only [Reader.fault?, Block.channelFault?, Block.between, hlength, hpos]
  | some name =>
    cases typeName with
    | none => exact alike_of_fault rfl
    | some typeName =>
      simp only [ChannelDefinition.declareIn, required, Except.ok_bind, Pipeline.declare]
      cases htype : ValueType.ofName? typeName with
      | none =>
        refine alike_of_fault ?_
        simp [Reader.fault?, Block.channelFault?, htype]
      | some type =>
        cases hc : p.channel? name with
        | some c =>
          refine alike_of_fault ?_
          simp only [Reader.fault?, Block.channelFault?, htype, Block.between,
            Pipeline.channel?_bare, hc]
          rfl
        | none =>
          refine alike_of_clean ?_ ⟨?_, rfl, by simp [hpos]⟩
          · simp [Reader.fault?, Block.channelFault?, htype, Block.between, hc]
          · simp [Reader.read, Block.declare, htype, Block.between, Pipeline.bare, Channel.bare]

lemma alike_declareAllIn (cs : List ChannelDefinition) (hpos : position = p.channels.length + 1) :
    Except.Alike (fun q r' => r' = .between item q.1.bare :: r ∧ q.1.nodes = p.nodes)
      (ChannelDefinition.declareAllIn p fresh position cs)
      (Reader.check registry (.between item p.bare :: r) (cs.map .channel)) := by
  induction cs generalizing p fresh position with
  | nil => exact .ok ⟨rfl, rfl⟩
  | cons c cs ih =>
    rw [ChannelDefinition.declareAllIn, List.map_cons, check_cons]
    refine (alike_declareIn c hpos).bind ?_
    rintro q r' - ⟨rfl, hnodes, hpos'⟩
    rw [← hnodes]
    exact ih hpos'

/-- The block `item` of `p` with a node whose channels have been read. -/
def Block.drawn (item : String) (p : Pipeline) (name : String) (inputs outputs : List Channel)
    (said : Option NodeKind) (kind : NodeKind) : Block where
  item := item
  pipeline := p.bare
  node := name
  inputs := inputs.map Channel.bare
  outputs := outputs.map Channel.bare
  said := said
  kind := kind

/-- Names that are resolved one after the other: each is an entry, and what has been found is put
into the block. -/
lemma alike_resolve {node : String} {names : List String} (entry : String → Entry)
    (put : List Channel → Block) (acc : List Channel)
    (hfault : ∀ cs x, Reader.fault? registry (put cs :: r) (entry x) =
      if (p.bare.channel? x).isSome then none
      else some (.graph (.unknownChannel p.name x s!"node '{node}'")))
    (hread : ∀ cs x, Reader.read (put cs :: r) (entry x) =
      put (cs ++ (p.channel? x).toList) :: r) :
    Except.Alike (fun cs r' => r' = put (acc ++ cs) :: r) (NodeDefinition.resolve p node names)
      (Reader.check registry (put acc :: r) (names.map entry)) := by
  induction names generalizing acc with
  | nil => exact .ok (by simp)
  | cons x names ih =>
    rw [NodeDefinition.resolve, List.mapM_cons, List.map_cons, check_cons, Reader.step, hfault,
      hread, Pipeline.channel?_bare]
    cases p.channel? x with
    | none => exact .error _
    | some c =>
      refine (ih (acc ++ [c])).map fun cs r' hr' => ?_
      rw [hr', List.append_assoc, List.singleton_append]

lemma alike_kind {n : NodeDefinition} {inputs outputs : List Channel} {k : NodeKind}
    (hins : inputs.map (·.name) = n.inputs) (houts : outputs.map (·.name) = n.outputs) :
    Except.Alike
      (fun kind r' => ∃ said, r' = .drawn item p name inputs outputs said k :: r ∧
        (Block.drawn item p name inputs outputs said k).resolved n.pipeline.isSome = kind)
      (n.resolvedKind s!"node '{name}'")
      (Reader.step registry (.drawn item p name inputs outputs none k :: r) (.kind n.kind)) := by
  unfold NodeDefinition.resolvedKind
  cases hkind : n.kind with
  | none =>
    refine alike_of_clean rfl ⟨none, rfl, ?_⟩
    simp [Block.resolved, Block.drawn, ← hins, ← houts]
  | some text =>
    cases hname : NodeKind.ofName? (Text.trim text).toLower with
    | none =>
      simp only [hname]
      refine alike_of_fault ?_
      simp [Reader.fault?, Block.kindFault?, hname, Block.nodeItem, Block.drawn]
    | some kind =>
      simp only [hname]
      refine alike_of_clean ?_ ⟨some kind, ?_, rfl⟩
      · simp [Reader.fault?, Block.kindFault?, hname]
      · simp [Reader.read, hname, Block.drawn]

/-- A node is wired soundly if the draft of it is. -/
lemma alike_checked {m : Node} (hdraft : b.draft = m.bare) :
    Except.Alike (fun m' r' => m' = m ∧ r' = b :: r) (m.checked.mapError .graph)
      (Reader.step registry (b :: r) .wiring) := by
  have hname : b.node = m.name := congrArg Node.name hdraft
  have hfault : b.draft.wiringFault? = m.wiringFault? := by rw [hdraft, m.wiringFault?_bare]
  unfold Node.checked
  cases hm : m.wiringFault? with
  | none =>
    refine alike_of_clean ?_ ⟨rfl, rfl⟩
    simp only [Reader.fault?, Block.wiringFault?, hfault, hm, Option.map_none]
  | some fault =>
    refine alike_of_fault ?_
    simp only [Reader.fault?, Block.wiringFault?, hfault, hm, Option.map_some, hname]

variable {key : String} {inputs outputs : List Channel} {kind : NodeKind}

lemma alike_ofLogic (hb : b.draft = ⟨name, inputs.map Channel.bare, outputs.map Channel.bare,
    kind.blank⟩) (hkind : b.kind = kind) (hk : kind ≠ .composite) :
    Except.Alike (fun m r' => r' = b :: r ∧ b.draft = m.1.bare)
      (do
        let logic ← NodeDefinition.resolveLogic registry name key kind
        let node ← (Node.ofLogic kind name inputs outputs logic).mapError .graph
        return (node, fresh))
      (Reader.check registry (b :: r) [.logic key, .wiring]) := by
  have hname : b.node = name := congrArg Node.name hb
  rw [check_cons]
  refine Except.Alike.bind (R := fun logic r' => logic.shape = kind.shape ∧ r' = b :: r) ?_ ?_
  · unfold NodeDefinition.resolveLogic
    cases hget : registry.get? key with
    | none =>
      refine alike_of_fault ?_
      simp only [Reader.fault?, Block.logicFault?, hget, hname]
    | some logic =>
      by_cases hs : logic.shape = kind.shape
      · simp only [if_pos hs]
        refine alike_of_clean ?_ ⟨hs, rfl⟩
        simp only [Reader.fault?, Block.logicFault?, hget, hkind, if_pos hs]
      · simp only [if_neg hs]
        refine alike_of_fault ?_
        simp only [Reader.fault?, Block.logicFault?, hget, hkind, if_neg hs, hname]
  · rintro logic r' - ⟨hshape, rfl⟩
    obtain ⟨body, hbody, hbk⟩ := Node.exists_bodyOf hk hshape
    have hdraft : b.draft = Node.bare ⟨name, inputs, outputs, body⟩ := by
      rw [hb, Node.bare, Node.kind, hbk]
    rw [Node.ofLogic, hbody, check_singleton]
    refine (alike_checked hdraft).map ?_
    rintro m r' ⟨rfl, rfl⟩
    exact ⟨rfl, hdraft⟩

lemma alike_composite (hb : b.draft = ⟨name, inputs.map Channel.bare, outputs.map Channel.bare,
    NodeKind.composite.blank⟩) :
    Except.Alike (fun m r' => r' = b :: r ∧ b.draft = m.bare)
      ((Node.composite name inputs outputs q (fun _ => 0) false).mapError .graph)
      (Reader.check registry (.between item q.bare :: b :: r) [.boundary, .wiring]) := by
  have hname : b.node = name := congrArg Node.name hb
  have hins : b.inputs = inputs.map Channel.bare := congrArg Node.inputs hb
  have houts : b.outputs = outputs.map Channel.bare := congrArg Node.outputs hb
  have hfault : Reader.fault? registry (.between item q.bare :: b :: r) .boundary =
      (q.boundaryFault? (fun _ => 0) false inputs outputs).map fun fault =>
        .graph (.compositeMismatch name fault.message) := by
    simp only [Reader.fault?, Block.boundaryFault?, Block.between, hins, houts, hname,
      q.boundaryFault?_bare]
  rw [check_cons, Reader.step, hfault, Node.composite]
  cases q.boundaryFault? (fun _ => 0) false inputs outputs with
  | some fault => exact .error _
  | none =>
    have hdraft : b.draft = Node.bare ⟨name, inputs, outputs, .composite q⟩ := hb
    have hchecked := @alike_checked registry r b _ hdraft
    simp only [Option.map_none, Except.ok_bind, check_singleton]
    refine hchecked.mono ?_
    rintro m r' ⟨rfl, rfl⟩
    exact ⟨rfl, hdraft⟩

/-- Pipelines of this definition are read like they are built, in any surroundings. -/
def Readable (registry : Registry) (d : PipelineDefinition) : Prop :=
  ∀ (r : Reader) (fresh : Nat), Except.Alike (fun q r' => r' = .between r.item q.1.bare :: r)
    (d.build registry r.item fresh) (r.check registry d.entries)

/-- The pipeline inside a node is read before the node is complete. -/
lemma alike_nested {inner : PipelineDefinition} (hb : b.draft =
      ⟨name, inputs.map Channel.bare, outputs.map Channel.bare, NodeKind.composite.blank⟩)
    (hitem : item = s!"node '{name}'") (hinner : Readable registry inner) :
    Except.Alike (fun m r' => r' = b :: r ∧ b.draft = m.1.bare)
      (do
        let (q, fresh) ← inner.build registry s!"{item} pipeline" fresh
        let node ← (Node.composite name inputs outputs q (fun _ => 0) false).mapError .graph
        return (node, fresh))
      (Reader.check registry (b :: r) ((inner.entries ++ [.boundary]) ++ [.wiring])) := by
  have hname : b.node = name := congrArg Node.name hb
  have hinner := hinner (b :: r) fresh
  rw [Reader.item, Block.nodeItem, hname, ← hitem] at hinner
  rw [List.append_assoc, check_append]
  refine hinner.bind fun q r' _ hr' => ?_
  subst hr'
  exact (alike_composite hb).map fun m r' h => h

/-- The block `item` of `p`, with `m` as the node that has been read. -/
structure Block.Holds (b : Block) (item : String) (p : Pipeline) (m : Node) : Prop where
  item : b.item = item
  pipeline : b.pipeline = p.bare
  draft : b.draft = m.bare

variable {said : Option NodeKind} {seeded : Bool}

lemma fault?_body_nested
    (hkind : (Block.drawn item p name inputs outputs said .source).resolved true = kind) :
    Reader.fault? registry (.drawn item p name inputs outputs said .source :: r)
        (.body false true seeded) =
      if kind ≠ .composite then
        some (.invalid s!"node '{name}'" s!"a {kind.name} node cannot wrap a nested pipeline")
      else if seeded then
        some (.invalid s!"node '{name}'" "a nested pipeline cannot declare initial_data")
      else none := by
  rw [← hkind]
  rfl

lemma fault?_body_logic {logic : Bool}
    (hkind : (Block.drawn item p name inputs outputs said .source).resolved false = kind) :
    Reader.fault? registry (.drawn item p name inputs outputs said .source :: r)
        (.body logic false seeded) =
      if kind = .composite then some (.missingField s!"node '{name}'" "pipeline")
      else if logic then none
      else some (.missingField s!"node '{name}'" "logic") := by
  rw [← hkind]
  cases logic <;> rfl

lemma check_body {logic nested : Bool}
    (hkind : (Block.drawn item p name inputs outputs said .source).resolved nested = kind)
    (hclean : Reader.fault? registry (.drawn item p name inputs outputs said .source :: r)
      (.body logic nested seeded) = none) :
    Reader.check registry (.drawn item p name inputs outputs said .source :: r)
        (.body logic nested seeded :: es) =
      Reader.check registry (.drawn item p name inputs outputs said kind :: r) es := by
  rw [check_cons, Reader.step, hclean, ← hkind]
  rfl

/-- A node is read like it is built, if the pipeline inside it is. -/
lemma alike_node {n : NodeDefinition}
    (ih : ∀ inner, n.pipeline = some inner → Readable registry inner) :
    Except.Alike (fun m r' => ∃ b : Block, r' = b :: r ∧ b.Holds item p m.1)
      (n.build registry p name fresh)
      (Reader.check registry ({ item, pipeline := p.bare, node := name } :: r) n.entries) := by
  obtain ⟨given, kindText, inputNames, outputNames, logic, pipeline⟩ := n
  unfold NodeDefinition.build NodeDefinition.entries
  rw [check_append]
  refine (alike_resolve .input (.drawn item p name · [] none .source) [] (fun _ _ => rfl)
    fun cs x => ?_).bind fun inputs r' hins hr' => ?_
  · simp [Reader.read, Block.drawn, Option.toList_map]
  subst hr'
  rw [check_append]
  refine (alike_resolve .output (.drawn item p name inputs · none .source) [] (fun _ _ => rfl)
    fun cs x => ?_).bind fun outputs r' houts hr' => ?_
  · simp [Reader.read, Block.drawn, Option.toList_map]
  subst hr'
  rw [check_cons]
  refine (alike_kind (n := ⟨given, kindText, inputNames, outputNames, logic, pipeline⟩)
    (NodeDefinition.resolve_eq_ok.1 hins).1 (NodeDefinition.resolve_eq_ok.1 houts).1).bind ?_
  rintro kind r' - ⟨said, rfl, hkind⟩
  -- What is checked next depends on which of the two, logic or a pipeline, the node has.
  cases pipeline with
  | some inner =>
    have hresolved : Block.resolved _ true = kind := hkind
    cases logic with
    | some key => exact alike_of_first rfl
    | none =>
      by_cases hk : kind = .composite
      · subst hk
        cases hseeds : inner.initialData with
        | some _ =>
          simp only [hseeds, ne_eq, not_true_eq_false, if_false, Option.isSome_some, if_true]
          refine alike_of_first ?_
          simp [fault?_body_nested hresolved, hseeds]
        | none =>
          simp only [hseeds, ne_eq, not_true_eq_false, if_false, Option.isSome_none,
            Bool.false_eq_true, Option.isSome_some, Option.bind_some]
          rw [check_body hresolved (by simp [fault?_body_nested hresolved])]
          exact (alike_nested rfl rfl (ih inner rfl)).mono
            fun m r' h => ⟨_, h.1, rfl, rfl, h.2⟩
      · simp only [ne_eq, if_pos hk]
        refine alike_of_first ?_
        rw [Option.isSome_none, Option.isSome_some, fault?_body_nested hresolved, if_pos hk]
  | none =>
    have hresolved : Block.resolved _ false = kind := hkind
    by_cases hk : kind = .composite
    · simp only [if_pos hk]
      refine alike_of_first ?_
      rw [Option.isSome_none, fault?_body_logic hresolved, if_pos hk]
    · simp only [if_neg hk]
      cases logic with
      | none =>
        refine alike_of_first ?_
        simp [fault?_body_logic hresolved, hk]
      | some key =>
        rw [Option.isSome_none, check_body hresolved (by simp [fault?_body_logic hresolved, hk])]
        exact (alike_ofLogic (b := .drawn item p name inputs outputs said kind) rfl rfl hk).mono
          fun m r' h => ⟨_, h.1, rfl, rfl, h.2⟩

/-- A node that has been read takes its place. -/
lemma alike_listed {m : Node} (hb : b.Holds item p m) (hnative : p.foreign? m = none) :
    Except.Alike
      (fun q r' => r' = .between item q.bare :: r ∧ q.nodes.length = p.nodes.length + 1)
      ((p.addNode m).mapError .graph) (Reader.step registry (b :: r) .listed) := by
  have hname : b.node = m.name := congrArg Node.name hb.draft
  unfold Pipeline.addNode
  cases hm : p.node? m.name with
  | some other =>
    refine alike_of_fault ?_
    simp only [Reader.fault?, Block.nameFault?, hb.pipeline, hname, Pipeline.node?_bare, hm]
    rfl
  | none =>
    simp only [hnative]
    refine alike_of_clean ?_ ⟨?_, by simp⟩
    · simp [Reader.fault?, Block.nameFault?, hb.pipeline, hname, hm]
    · simp [Reader.read, Block.list, hb.item, hb.pipeline, hb.draft, Pipeline.bare]

lemma alike_nodes {nodes : List NodeDefinition} (hpos : position = p.nodes.length + 1)
    (ih : ∀ n ∈ nodes, ∀ inner, n.pipeline = some inner → Readable registry inner) :
    Except.Alike (fun q r' => r' = .between item q.1.bare :: r)
      (NodeDefinition.addAllTo registry p fresh position nodes)
      (Reader.check registry (.between item p.bare :: r) (NodeDefinition.allEntries nodes)) := by
  induction nodes generalizing p fresh position with
  | nil =>
    unfold NodeDefinition.addAllTo NodeDefinition.allEntries
    exact .ok rfl
  | cons n nodes ihn =>
    unfold NodeDefinition.addAllTo NodeDefinition.allEntries
    obtain ⟨hn, hrest⟩ := List.forall_mem_cons.1 ih
    cases hname : n.name with
    | none =>
      refine alike_of_first ?_
      simp [Reader.fault?, hpos, Block.between, Pipeline.bare]
    | some name =>
      rw [check_cons, Reader.step]
      change Except.Alike _ _ (Reader.check registry (⟨_, _, name, [], [], none, .source⟩ :: r) _)
      rw [check_append]
      refine (alike_node hn).bind ?_
      rintro m r' hm ⟨b, rfl, hb⟩
      rw [check_cons]
      refine (alike_listed hb (NodeDefinition.build_draws hname hm).2).bind ?_
      rintro q r' - ⟨rfl, hlength⟩
      exact ihn (by rw [hlength, hpos]) hrest

/-- Reading a definition is building its pipeline. -/
lemma readable (registry : Registry) (d : PipelineDefinition) : Readable registry d := by
  induction d using PipelineDefinition.nested_induction with
  | step d ih =>
    intro r fresh
    obtain ⟨name, channels, nodes, initialData, options⟩ := d
    unfold PipelineDefinition.build PipelineDefinition.entries
    cases name with
    | none => exact alike_of_first rfl
    | some name =>
      change Except.Alike _ _ (Reader.check registry (.between r.item (.new 0 name) :: r)
        (.channels channels.isSome :: _))
      cases channels with
      | none => exact alike_of_first rfl
      | some channels =>
        change Except.Alike _ _ (Reader.check registry
          (.between r.item (Pipeline.new fresh name {}).bare :: r) (channels.map .channel ++ _))
        rw [check_append]
        refine (alike_declareAllIn channels rfl).bind ?_
        rintro q r' - ⟨rfl, hnodes⟩
        cases nodes with
        | none => exact alike_of_first rfl
        | some nodes =>
          have hpos : 1 = q.1.nodes.length + 1 := by rw [hnodes, Pipeline.nodes_new]; rfl
          exact alike_nodes hpos (ih nodes rfl)

/-! ### Whole documents -/

lemma alike_seeds {seeds : List (String × Literal)} {got : Payload} :
    Except.Alike (fun _ _ => True) (Literal.seeds p seeds got)
      (Reader.check registry [.between item p.bare] (seeds.map fun e => .seed e.1 e.2)) := by
  induction seeds generalizing got with
  | nil => exact .ok trivial
  | cons entry seeds ih =>
    obtain ⟨name, l⟩ := entry
    cases hc : p.channel? name with
    | none =>
      simp only [Literal.seeds, hc]
      refine alike_of_first ?_
      simp only [Reader.fault?, Block.seedFault?, Block.between, Pipeline.channel?_bare, hc]
      rfl
    | some c =>
      have hbare : l.forChannel c.bare = l.forChannel c := rfl
      simp only [Literal.seeds, hc]
      cases hv : l.forChannel c with
      | error e =>
        refine alike_of_first ?_
        simp [Reader.fault?, Block.seedFault?, Block.between, hc, hbare, hv]
      | ok v =>
        have hclean : Reader.fault? registry [.between item p.bare] (.seed name l) = none := by
          simp [Reader.fault?, Block.seedFault?, Block.between, hc, hbare, hv]
        rw [List.map_cons, check_cons, Reader.step, hclean]
        exact ih

/-- Reading a document is interpreting it. -/
lemma alike_document (w : World) (registry : Registry) (d : PipelineDefinition) :
    Except.Alike (fun _ _ => True) (w.interpret registry d)
      (Reader.check registry [] d.document) := by
  unfold World.interpret PipelineDefinition.interpret PipelineDefinition.document
  rw [check_append, bind_assoc]
  refine (readable registry d [] w.fresh).bind fun q r' _ hr' => ?_
  subst hr'
  rw [bind_assoc]
  exact alike_seeds.map fun _ _ _ => trivial

end Definition

/-- The entry `x` of the definition is the first with which something is wrong, and `e` is what. -/
structure PipelineDefinition.FirstFault (registry : Registry) (d : PipelineDefinition)
    (before : List Definition.Entry) (x : Definition.Entry) (e : DefinitionError) : Prop where
  place : ∃ after, d.document = before ++ x :: after
  clean : ∀ b y a, before = b ++ y :: a → Definition.Entry.fault? registry b y = none
  fault : Definition.Entry.fault? registry before x = some e

/-- A definition is rejected for its first fault, and so is every definition that begins with the
same entries. -/
theorem World.first_fault_reported (w : World) (registry : Registry) (d : PipelineDefinition)
    (e : DefinitionError) :
    (w.interpret registry d = .error e ↔ ∃ before x, d.FirstFault registry before x e) ∧
      ∀ before x, d.FirstFault registry before x e → ∀ (w' : World) (d' : PipelineDefinition) after,
        d'.document = before ++ x :: after → w'.interpret registry d' = .error e := by
  have hreported (w : World) (d : PipelineDefinition) :
      w.interpret registry d = .error e ↔ ∃ before x, d.FirstFault registry before x e := by
    rw [(Definition.alike_document w registry d).error_iff, Definition.check_eq_error]
    constructor
    · rintro ⟨before, x, after, hd, hclean, hfault⟩
      exact ⟨before, x, ⟨after, hd⟩, hclean, hfault⟩
    · rintro ⟨before, x, ⟨after, hd⟩, hclean, hfault⟩
      exact ⟨before, x, after, hd, hclean, hfault⟩
  refine ⟨hreported w d, fun before x h w' d' after hd' => (hreported w' d').2 ?_⟩
  exact ⟨before, x, ⟨after, hd'⟩, h.clean, h.fault⟩

/-- The second channel has no type, and the only node has no name. -/
def typeless : PipelineDefinition where
  name := "p"
  channels := some [⟨"a", "text"⟩, ⟨"b", none⟩]
  nodes := some [{}]

/-- The channel is reported, and not the node, nor whatever may come instead of the node. -/
theorem World.typeless_reported :
    initial.interpret .empty typeless = .error (.missingField "channel 'b'" "type") ∧
      ∀ (w : World) (d : PipelineDefinition) after, d.document =
        .block "p" :: .channels true :: .channel ⟨"a", "text"⟩ :: .channel ⟨"b", none⟩ :: after →
          w.interpret .empty d = .error (.missingField "channel 'b'" "type") := by
  have h : typeless.FirstFault .empty [.block "p", .channels true, .channel ⟨"a", "text"⟩]
      (.channel ⟨"b", none⟩) (.missingField "channel 'b'" "type") := by
    refine ⟨⟨_, rfl⟩, ?_, rfl⟩
    rintro (_ | ⟨_, _ | ⟨_, _ | ⟨_, b⟩⟩⟩) y a hsplit
    · cases hsplit
      rfl
    · cases hsplit
      rfl
    · cases hsplit
      decide +kernel
    · simp at hsplit
  obtain ⟨hreported, hsame⟩ := first_fault_reported initial .empty typeless _
  exact ⟨hreported.2 ⟨_, _, h⟩, fun w d after hd => hsame _ _ h w d after hd⟩

end Dataflow
