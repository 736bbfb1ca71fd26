import Dataflow.Proofs.Ledger
import Dataflow.Proofs.Workshop

/-!
Any sequence of building calls. A program makes pipelines, declares channels, makes nodes from
whatever channels it has and adds them; some calls are refused, and it goes on after them. At every
moment each pipeline is coherent, down to the innermost, and no channel belongs to two of them.
-/

namespace Dataflow

/-! ### A call, one statement at a time -/

/-- What a building call can change. A pipeline keeps its channels in a table, under their names,
and beside it the names in the order of declaration. -/
structure Site where
  world : World
  table : String → Option Channel
  order : List String
  nodes : List Node

namespace Site

def node? (s : Site) (name : String) : Option Node :=
  s.nodes.find? fun n => n.name = name

/-- As `World.declare`, on the site: what was done before an error stays done. -/
def declareChannel (pipeline name : String) (type : ValueType) :
    EStateM GraphError Site Channel := do
  if ((← get).table name).isSome then
    throw (.duplicateChannel pipeline name)
  let (c, w) := (← get).world.newChannel name type
  modify fun s => { s with world := w }
  modify fun s => { s with table := update s.table name (some c) }
  modify fun s => { s with order := s.order ++ [name] }
  return c

/-- Refuses the first channel that is not the one in the table. -/
def checkRegistered (pipeline user : String) : List Channel → EStateM GraphError Site Unit
  | [] => return
  | c :: rest => do
    if (← get).table c.name ≠ some c then
      throw (.unknownChannel pipeline c.name user)
    checkRegistered pipeline user rest

/-- As `Pipeline.addNode`, on the site. -/
def addNode (pipeline : String) (n : Node) : EStateM GraphError Site Unit := do
  if ((← get).node? n.name).isSome then
    throw (.duplicateNode pipeline n.name)
  checkRegistered pipeline s!"node '{n.name}'" n.channels
  modify fun s => { s with nodes := s.nodes ++ [n] }

end Site

namespace Pipeline

variable {p p' q : Pipeline} {n : Node} {c : Channel} {w w' : World} {error : GraphError}

def site (p : Pipeline) (w : World) : Site where
  world := w
  table := p.channel?
  order := p.channels.map (·.name)
  nodes := p.nodes

/-- A new pipeline has nothing stored. -/
@[simp] lemma site_new (id : Nat) (name : String) (options : RunOptions) (w : World) :
    (new id name options).site w = ⟨w, fun _ => none, [], []⟩ := rfl

@[simp] lemma world_site (p : Pipeline) (w : World) : (p.site w).world = w := rfl

@[simp] lemma table_site (p : Pipeline) (w : World) : (p.site w).table = p.channel? := rfl

@[simp] lemma node?_site (p : Pipeline) (w : World) : (p.site w).node? = p.node? := rfl

lemma channel?_append (hname : p.channel? c.name = none) :
    ({ p with channels := p.channels ++ [c] } : Pipeline).channel? =
      update p.channel? c.name (some c) := by
  funext x
  simp only [channel?] at hname ⊢
  rw [List.find?_append]
  by_cases hx : x = c.name
  · subst hx
    rw [hname, update_same]
    simp
  · rw [update_of_ne hx, List.find?_cons_of_neg (by simpa using Ne.symm hx), List.find?_nil,
      Option.or_none, channel?]

/-- A declaration that succeeds puts the channel into the table and its name at the end of the
order; one that fails has done nothing. -/
lemma run_declareChannel (p : Pipeline) (w : World) (name : String) (type : ValueType) :
    (Site.declareChannel p.name name type).run (p.site w) =
      match w.declare p name type with
      | .ok (p', c, w') => .ok c (p'.site w')
      | .error error => .error error (p.site w) := by
  cases hn : p.channel? name with
  | some d =>
    have hd : w.declare p name type = .error (.duplicateChannel p.name name) := by
      simp [World.declare, declare, hn, bind, Except.bind]
    simp [Site.declareChannel, hn, hd]
  | none =>
    let c : Channel := ⟨w.fresh, name, type⟩
    have hd : w.declare p name type =
        .ok ({ p with channels := p.channels ++ [c] }, c, { w with fresh := w.fresh + 1 }) := by
      simp [World.declare, World.takeFresh, declare, hn, bind, Except.bind, pure, Except.pure, c]
    have hrun : (Site.declareChannel p.name name type).run (p.site w) =
        .ok c ⟨{ w with fresh := w.fresh + 1 }, update p.channel? name (some c),
          p.channels.map (·.name) ++ [name], p.nodes⟩ := by
      simp [Site.declareChannel, World.newChannel, World.takeFresh, hn, site, c, -bind_pure_comp]
    rw [hd, hrun]
    simp only [site, channel?_append (c := c) hn, List.map_append, List.map_singleton, c]

lemma run_checkRegistered (p : Pipeline) (w : World) (user : String) (cs : List Channel) :
    (Site.checkRegistered p.name user cs).run (p.site w) =
      match cs.find? fun c => p.channel? c.name ≠ some c with
      | some c => .error (.unknownChannel p.name c.name user) (p.site w)
      | none => .ok () (p.site w) := by
  induction cs with
  | nil => rfl
  | cons c rest ih =>
    by_cases hc : p.channel? c.name = some c
    · rw [List.find?_cons_of_neg (by simpa using hc), ← ih]
      simp [Site.checkRegistered, hc]
    · rw [List.find?_cons_of_pos (by simpa using hc)]
      simp [Site.checkRegistered, hc]

lemma run_addNode (p : Pipeline) (w : World) (n : Node) :
    (Site.addNode p.name n).run (p.site w) =
      match p.addNode n with
      | .ok p' => .ok () (p'.site w)
      | .error error => .error error (p.site w) := by
  cases hn : p.node? n.name with
  | some m => simp [Site.addNode, addNode, hn]
  | none =>
    have hcheck := p.run_checkRegistered w s!"node '{n.name}'" n.channels
    rw [← foreign?] at hcheck
    cases hf : p.foreign? n with
    | some c =>
      rw [hf] at hcheck
      simp [Site.addNode, addNode, hn, hf, hcheck]
    | none =>
      rw [hf] at hcheck
      simp [Site.addNode, addNode, hn, hf, hcheck]
      rfl

end Pipeline

/-- What a pipeline stores goes together: the table and the order have the same names, and the
nodes are wired to what is in the table, the objects themselves. -/
structure Site.Coherent (s : Site) : Prop where
  once : s.order.Nodup
  listed : ∀ x, x ∈ s.order ↔ (s.table x).isSome
  keyed : ∀ x c, s.table x = some c → c.name = x
  named : ∀ n ∈ s.nodes, Text.trim n.name ≠ ""
  labels : (s.nodes.map (·.name)).Nodup
  registered : ∀ n ∈ s.nodes, ∀ c ∈ n.inputs ++ n.outputs, s.table c.name = some c
  apart : ∀ n ∈ s.nodes, ((n.inputs ++ n.outputs).map (·.name)).Nodup
  sides : ∀ n ∈ s.nodes, n.kind.Admits n.ins n.outs

namespace Pipeline

variable {p q : Pipeline} {ps : List Pipeline} {path : Address} {fresh : Nat}

lemma Sound.coherent (h : q.Sound) (w : World) : (q.site w).Coherent where
  once := h.names
  listed x := by
    simp [site, Pipeline.channel?]
  keyed x c hc := (mem_of_channel? hc).2
  named n hn := (Node.wiringFault?_eq_none.1 (h.wired n hn)).1
  labels := h.labels
  registered n hn c hc := h.channel? hn hc
  apart n hn := by
    obtain ⟨-, -, hins, houts, hloop⟩ := Node.wiringFault?_eq_none.1 (h.wired n hn)
    rw [List.map_append]
    exact List.nodup_append.2 ⟨hins, houts, fun x hx y hy heq => hloop x hx (heq ▸ hy)⟩
  sides n hn := (Node.wiringFault?_eq_none.1 (h.wired n hn)).2.1

/-- The pipeline and all that are inside its nodes. -/
def levels (p : Pipeline) : List Pipeline := p.tiers.map (·.2)

lemma mem_levels : q ∈ p.levels ↔ ∃ path, p.level? path = some q := by
  simp [levels, ← mem_tiers]

lemma identities_eq_levels (p : Pipeline) :
    p.identities = p.levels.flatMap fun q => q.id :: q.channels.map (·.id) := by
  rw [identities, levels, List.flatMap_map]

/-- No channel is on two levels of pipelines that own what they are made of. -/
lemma Owned.channels (h : Owned fresh ps) :
    ((ps.flatMap levels).flatMap fun q => q.channels.map (·.id)).Nodup := by
  have hids : ps.flatMap identities =
      (ps.flatMap levels).flatMap fun q => q.id :: q.channels.map (·.id) := by
    rw [List.flatMap_assoc]
    exact List.flatMap_congr fun p _ => p.identities_eq_levels
  have hdistinct := h.distinct
  rw [hids, List.nodup_flatMap] at hdistinct
  refine List.nodup_flatMap.2 ⟨fun q hq => (hdistinct.1 q hq).of_cons, hdistinct.2.imp ?_⟩
  exact fun hdisj i hi hi' => hdisj (List.mem_cons_of_mem _ hi) (List.mem_cons_of_mem _ hi')

lemma Owned.laid (h : Owned fresh ps) (hp : p ∈ ps) : p.Laid where
  sound := h.sound p hp
  apart _ _ _ _ _ _ hq hq' hc hd hid := (h.level_eq hp hp hq hq'
    (.inr (List.mem_map_of_mem hc)) (.inr (hid ▸ List.mem_map_of_mem hd))).2

end Pipeline

/-! ### Calls on a bench -/

/-- A program that builds: the world, the pipelines that it has at hand, and the nodes that it has
made and not added yet. -/
structure Bench where
  world : World
  pipelines : List Pipeline
  nodes : List Node

namespace Bench

/-- A building call. Pipelines and nodes are given by their place on the bench, where what is new
comes first; channels may be any, whether declared in that pipeline, elsewhere or nowhere. -/
inductive Call where
  | newPipeline (name : String) (options : RunOptions)
  | declare (place : Nat) (name : String) (type : ValueType)
  | source (name : String) (outputs : List Channel) (logic : Logic)
  | sink (name : String) (inputs : List Channel) (logic : Logic)
  | transform (name : String) (inputs outputs : List Channel) (logic : Logic)
  | ofLogic (kind : NodeKind) (name : String) (inputs outputs : List Channel) (logic : Logic)
  | composite (name : String) (inputs outputs : List Channel) (place : Nat)
  | addNode (place node : Nat)
  /-- Anything else comes to pass, such as runs of what has been built. Identities that were given
  out stay so. -/
  | meanwhile (w : World)

def empty : Bench := ⟨.initial, [], []⟩

variable (b : Bench)

def declare (place : Nat) (name : String) (type : ValueType) : Option GraphError × Bench :=
  match b.pipelines[place]? with
  | none => (none, b)
  | some p =>
    match b.world.declare p name type with
    | .error error => (some error, b)
    | .ok (p', _, w) => (none, { b with world := w, pipelines := b.pipelines.set place p' })

/-- Puts a node that was made on the bench. -/
def keep : Except GraphError Node → Option GraphError × Bench
  | .error error => (some error, b)
  | .ok n => (none, { b with nodes := n :: b.nodes })

/-- The inner pipeline is gone from the bench even if no node comes of it. -/
def composite (name : String) (inputs outputs : List Channel) (place : Nat) :
    Option GraphError × Bench :=
  match b.pipelines[place]? with
  | none => (none, b)
  | some inner =>
    { b with pipelines := b.pipelines.eraseIdx place }.keep
      (b.world.composite name inputs outputs inner)

/-- The node is gone from the bench even if it is not added. -/
def addNode (place node : Nat) : Option GraphError × Bench :=
  match b.pipelines[place]?, b.nodes[node]? with
  | some p, some n =>
    let b := { b with nodes := b.nodes.eraseIdx node }
    match p.addNode n with
    | .error error => (some error, b)
    | .ok p' => (none, { b with pipelines := b.pipelines.set place p' })
  | _, _ => (none, b)

/-- The error of a call, if it is refused, and the bench after it. -/
def perform : Call → Option GraphError × Bench
  | .newPipeline name options =>
    let (p, w) := b.world.newPipeline name options
    (none, { b with world := w, pipelines := p :: b.pipelines })
  | .declare place name type => b.declare place name type
  | .source name outputs logic => b.keep (Node.source name outputs logic)
  | .sink name inputs logic => b.keep (Node.sink name inputs logic)
  | .transform name inputs outputs logic => b.keep (Node.transform name inputs outputs logic)
  | .ofLogic kind name inputs outputs logic =>
    b.keep (Node.ofLogic kind name inputs outputs logic)
  | .composite name inputs outputs place => b.composite name inputs outputs place
  | .addNode place node => b.addNode place node
  | .meanwhile w => (none, { b with world := { w with fresh := max b.world.fresh w.fresh } })

/-- The bench after these calls, refused or not. -/
def after (b : Bench) : List Call → Bench
  | [] => b
  | call :: calls => (b.perform call).2.after calls

/-- The pipelines that are not inside another: those at hand, and those in nodes that were not added
yet. -/
def roots : List Pipeline := b.pipelines ++ b.nodes.flatMap (·.inner?.toList)

/-- All pipelines there are, however deep. -/
def levels : List Pipeline := b.roots.flatMap Pipeline.levels

/-- What the calls preserve. -/
structure Sound : Prop where
  owned : Pipeline.Owned b.world.fresh b.roots
  wired : ∀ n ∈ b.nodes, n.wiringFault? = none

variable {b} {made : Except GraphError Node}

lemma perm_cons_eraseIdx {α : Type} {l : List α} {i : Nat} {a : α} (h : l[i]? = some a) :
    l.Perm (a :: l.eraseIdx i) := by
  obtain ⟨hi, rfl⟩ := List.getElem?_eq_some_iff.1 h
  exact (List.getElem_cons_eraseIdx_perm hi).symm

lemma set_perm {α : Type} {l : List α} {i : Nat} {a : α} (h : l[i]? = some a) (a' : α) :
    (l.set i a').Perm (a' :: l.eraseIdx i) :=
  List.set_perm_cons_eraseIdx (List.getElem?_eq_some_iff.1 h).1 a'

lemma sound_empty : empty.Sound := ⟨.empty _, fun _ hn => by cases hn⟩

/-- Less on the bench is as sound. -/
lemma Sound.sublist (h : b.Sound) {ps : List Pipeline} {ns : List Node}
    (hps : ps.Sublist b.pipelines) (hns : ns.Sublist b.nodes) :
    ({ b with pipelines := ps, nodes := ns } : Bench).Sound :=
  ⟨h.owned.subperm (hps.append (hns.flatMap _)).subperm, fun n hn => h.wired n (hns.subset hn)⟩

lemma Sound.newPipeline (h : b.Sound) (name : String) (options : RunOptions) :
    (b.perform (.newPipeline name options)).2.Sound :=
  ⟨h.owned.pipeline name options, h.wired⟩

lemma Sound.declare (h : b.Sound) (place : Nat) (name : String) (type : ValueType) :
    (b.declare place name type).2.Sound := by
  unfold Bench.declare
  cases hp : b.pipelines[place]? with
  | none => exact h
  | some p =>
    cases hd : b.world.declare p name type with
    | error error => simpa only [hd] using h
    | ok made =>
      obtain ⟨p', c, w⟩ := made
      obtain ⟨hd', rfl⟩ := World.declare_eq_ok hd
      have hold : b.roots.Perm _ := (perm_cons_eraseIdx hp).append_right _
      have howned := (h.owned.subperm hold.symm.subperm).declare hd'
      simp only [hd]
      exact ⟨howned.subperm ((set_perm hp p').append_right _).subperm, h.wired⟩

lemma Sound.keep (h : b.Sound) (hmade : ∀ n, made = .ok n → n.wiringFault? = none ∧
    Pipeline.Owned b.world.fresh (n.inner?.toList ++ b.roots)) : (b.keep made).2.Sound := by
  cases made with
  | error error => exact h
  | ok n =>
    obtain ⟨hwired, howned⟩ := hmade n rfl
    refine ⟨howned.subperm ?_, List.forall_mem_cons.2 ⟨hwired, h.wired⟩⟩
    exact (List.perm_append_comm_assoc b.pipelines n.inner?.toList _).subperm

/-- A node of logic has nothing inside. -/
lemma Sound.keep_logic (h : b.Sound)
    (hmade : ∀ n, made = .ok n → n.wiringFault? = none ∧ n.inner? = none) :
    (b.keep made).2.Sound := by
  refine h.keep fun n hn => ?_
  obtain ⟨hwired, hinner⟩ := hmade n hn
  exact ⟨hwired, by simpa [hinner] using h.owned⟩

lemma Sound.composite (h : b.Sound) (name : String) (inputs outputs : List Channel) (place : Nat) :
    (b.composite name inputs outputs place).2.Sound := by
  unfold Bench.composite
  cases hp : b.pipelines[place]? with
  | none => exact h
  | some inner =>
    refine (h.sublist (List.eraseIdx_sublist _ _) (.refl _)).keep fun n hn => ?_
    obtain ⟨rfl, hwired, -⟩ := Node.composite_eq_ok hn
    exact ⟨hwired, h.owned.subperm ((perm_cons_eraseIdx hp).append_right _).symm.subperm⟩

lemma Sound.addNode (h : b.Sound) (place node : Nat) : (b.addNode place node).2.Sound := by
  unfold Bench.addNode
  cases hp : b.pipelines[place]? with
  | none => exact h
  | some p =>
    cases hn : b.nodes[node]? with
    | none => exact h
    | some n =>
      have hrest := h.sublist (.refl _) (List.eraseIdx_sublist _ node)
      cases hadd : p.addNode n with
      | error error => simpa only [hadd] using hrest
      | ok p' =>
        -- the pipeline that takes the node comes first, then what is inside the node
        have hnodes := (perm_cons_eraseIdx hn).flatMap_right (·.inner?.toList)
        rw [List.flatMap_cons] at hnodes
        have hold : b.roots.Perm _ := ((perm_cons_eraseIdx hp).append hnodes).trans
          ((List.perm_append_comm_assoc _ _ _).cons p)
        have howned := (h.owned.subperm hold.symm.subperm).addNode
          (h.wired n (List.mem_of_getElem? hn)) hadd
        simp only [hadd]
        exact ⟨howned.subperm ((set_perm hp p').append_right _).subperm, hrest.wired⟩

lemma Sound.perform (h : b.Sound) (call : Call) : (b.perform call).2.Sound := by
  cases call with
  | newPipeline name options => exact h.newPipeline name options
  | declare place name type => exact h.declare place name type
  | composite name inputs outputs place => exact h.composite name inputs outputs place
  | addNode place node => exact h.addNode place node
  | meanwhile w => exact ⟨h.owned.later (Nat.le_max_left _ _), h.wired⟩
  | ofLogic kind name inputs outputs logic => exact h.keep_logic fun n => Node.ofLogic_eq_ok
  | source | sink | transform =>
    refine h.keep_logic fun n hn => ?_
    obtain ⟨hwired, rfl⟩ := Node.checked_iff.1 hn
    exact ⟨hwired, rfl⟩

theorem sound_after (h : b.Sound) (calls : List Call) : (b.after calls).Sound := by
  induction calls generalizing b with
  | nil => exact h
  | cons call calls ih => exact ih (h.perform call)

/-- A pipeline that was built call by call is laid out as its runs need it to be. -/
theorem laid_after {p : Pipeline} {calls : List Call} (hp : p ∈ (empty.after calls).pipelines) :
    p.Laid :=
  (sound_after sound_empty calls).owned.laid (List.mem_append_left _ hp)

/-- Every pipeline is coherent, down to the innermost, and no channel is in two of them. A call on
what is at hand, taken one statement at a time, leaves what the bench then shows; if it is refused,
that is what was there before. -/
structure Intact (b : Bench) : Prop where
  coherent : ∀ q ∈ b.levels, (q.site b.world).Coherent
  apart : (b.levels.flatMap fun q => q.channels.map (·.id)).Nodup
  declaring : ∀ place p name type, b.pipelines[place]? = some p →
    match (Site.declareChannel p.name name type).run (p.site b.world) with
    | .ok _ s => ∃ p' b', b.perform (.declare place name type) = (none, b') ∧
        b'.pipelines = b.pipelines.set place p' ∧ s = p'.site b'.world
    | .error error s => b.perform (.declare place name type) = (some error, b) ∧
        s = p.site b.world
  adding : ∀ place node p n, b.pipelines[place]? = some p → b.nodes[node]? = some n →
    match (Site.addNode p.name n).run (p.site b.world) with
    | .ok _ s => ∃ p' b', b.perform (.addNode place node) = (none, b') ∧
        b'.pipelines = b.pipelines.set place p' ∧ s = p'.site b'.world
    | .error error s => b.perform (.addNode place node) =
        (some error, { b with nodes := b.nodes.eraseIdx node }) ∧ s = p.site b.world

/-- **Construction keeps everything intact.** Whatever calls are made, in whatever order and whether
they are refused or not, the table and the order of each pipeline agree, its nodes are wired to its
own channels, and pipelines have no channels in common at any depth. -/
theorem intact_after (calls : List Call) : (empty.after calls).Intact := by
  have h := sound_after sound_empty calls
  generalize empty.after calls = b at h ⊢
  refine ⟨fun q hq => ?coherent, h.owned.channels, fun place p name type hp => ?declaring,
    fun place node p n hp hn => ?adding⟩
  case coherent =>
    obtain ⟨p, hp, hq⟩ := List.mem_flatMap.1 hq
    obtain ⟨path, hq⟩ := Pipeline.mem_levels.1 hq
    exact (h.owned.sound p hp path q hq).coherent _
  case declaring =>
    rw [Pipeline.run_declareChannel]
    cases hd : b.world.declare p name type with
    | error error => exact ⟨by simp [perform, declare, hp, hd], rfl⟩
    | ok made =>
      obtain ⟨p', c, w⟩ := made
      exact ⟨p', { b with world := w, pipelines := b.pipelines.set place p' },
        by simp [perform, declare, hp, hd], rfl, rfl⟩
  case adding =>
    rw [Pipeline.run_addNode]
    cases hadd : p.addNode n with
    | error error => exact ⟨by simp [perform, addNode, hp, hn, hadd], rfl⟩
    | ok p' =>
      exact ⟨p', ⟨b.world, b.pipelines.set place p', b.nodes.eraseIdx node⟩,
        by simp [perform, addNode, hp, hn, hadd], rfl, rfl⟩

/-- A source becomes a composite, whose output has the name of the channel inside. The sink that
should read from the composite is wired to the inner channel. One declaration comes twice. -/
def mixup : List Call := [
  .newPipeline "outer" {},
  .newPipeline "inner" {},
  .declare 0 "c" .text,
  .declare 0 "c" .text,
  .declare 1 "c" .text,
  .source "emit" [⟨2, "c", .text⟩] (.pure .producer fun _ => .returned .empty),
  .addNode 0 0,
  .composite "group" [] [⟨3, "c", .text⟩] 0,
  .addNode 0 0,
  .sink "drain" [⟨2, "c", .text⟩] (.pure .function fun _ => .returned .empty)]

/-- The sink is refused; the composite is in place. -/
theorem mixup_intact : ((empty.after mixup).perform (.addNode 0 0)).1 =
      some (.unknownChannel "outer" "c" "node 'drain'") ∧
    (empty.after mixup).levels.map (·.name) = ["outer", "inner"] ∧
    (empty.after mixup).levels.map (·.channels) = [[⟨3, "c", .text⟩], [⟨2, "c", .text⟩]] ∧
    (empty.after mixup).Intact := by
  refine ⟨?_, ?_, ?_, intact_after mixup⟩
  · cbv
  · cbv
  · cbv

end Bench

end Dataflow
