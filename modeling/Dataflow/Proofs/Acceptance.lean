import Dataflow.Proofs.Built

/-!
The definitions that are interpreted are the well-formed ones. A pipeline that is built has the
channels and nodes of its definition, one by one, so each check of the program can be read as a
condition on what is written; the rest is an induction on how deep definitions are nested.
-/

namespace Dataflow

/-! ### Channels -/

namespace Pipeline

variable {p p' : Pipeline} {c : Channel}

lemma channel?_eq_none {name : String} :
    p.channel? name = none ↔ name ∉ p.channels.map (·.name) := by
  simp [channel?]

lemma node?_eq_none {name : String} : p.node? name = none ↔ name ∉ p.nodes.map (·.name) := by
  simp [node?]

/-- The channels of the pipeline are those that the definitions declare, one by one. -/
structure Lays (p : Pipeline) (cs : List ChannelDefinition) : Prop where
  declared : List.Forall₂ (fun c d => c.Declares d.name d.type) cs p.channels
  names : (cs.map (·.name)).Nodup

variable {cs : List ChannelDefinition} {d : ChannelDefinition}

lemma Lays.names_eq (h : p.Lays cs) : cs.map (·.name) = p.channels.map fun c => some c.name := by
  refine List.ext_getElem (by simpa using h.declared.length_eq) fun i hi hj => ?_
  simpa using (h.declared.get (by simpa using hi) (by simpa using hj)).1

lemma lays_new {id : Nat} {name : String} {options : RunOptions} : (new id name options).Lays [] :=
  ⟨.nil, List.nodup_nil⟩

lemma Lays.free_iff (h : p.Lays cs) {name : String} :
    name ∉ p.channels.map (·.name) ↔ some name ∉ cs.map (·.name) := by
  rw [h.names_eq]
  simp

lemma Lays.declare (h : p.Lays cs) {name : String} {type : ValueType} {id : Nat}
    (hd : d.Declares name type) (hfree : name ∉ p.channels.map (·.name)) :
    Lays { p with channels := p.channels ++ [⟨id, name, type⟩] } (cs ++ [d]) where
  declared := List.rel_append h.declared (.cons hd .nil)
  names := by
    have hnew : d.name ∉ cs.map (·.name) := by
      rw [hd.1]
      exact h.free_iff.1 hfree
    rw [List.map_append, List.nodup_append_comm]
    exact List.nodup_cons.2 ⟨hnew, h.names⟩

end Pipeline

namespace ChannelDefinition

variable {p p' : Pipeline} {c : ChannelDefinition} {cs cs' : List ChannelDefinition}
  {fresh fresh' position : Nat}

lemma declareIn_eq_ok : c.declareIn p fresh position = .ok (p', fresh') ↔
    ∃ name type, c.Declares name type ∧ name ∉ p.channels.map (·.name) ∧
      p' = { p with channels := p.channels ++ [⟨fresh, name, type⟩] } ∧ fresh' = fresh + 1 := by
  unfold declareIn
  simp only [Except.bind_eq_ok, required_eq_ok]
  constructor
  · rintro ⟨name, hname, text, htext, h⟩
    cases htype : ValueType.ofName? text with
    | none => simp [htype] at h
    | some type =>
      simp only [htype, Except.bind_eq_ok, Except.mapError_eq_ok, Except.pure_eq_ok] at h
      obtain ⟨⟨q, d⟩, hd, hq⟩ := h
      obtain ⟨rfl, rfl⟩ := Prod.mk.inj hq
      unfold Pipeline.declare at hd
      split at hd
      · cases hd
      · next hfree =>
        simp only [Except.ok.injEq, Prod.mk.injEq] at hd
        obtain ⟨rfl, rfl⟩ := hd
        exact ⟨name, type, ⟨hname, text, htext, ValueType.ofName?_eq_some.1 htype⟩,
          Pipeline.channel?_eq_none.1 (by simpa using hfree), rfl, rfl⟩
  · rintro ⟨name, type, ⟨hname, text, htext, htype⟩, hfree, rfl, rfl⟩
    refine ⟨name, hname, text, htext, ?_⟩
    simp only [ValueType.ofName?_eq_some.2 htype, Pipeline.declare,
      Pipeline.channel?_eq_none.2 hfree, Except.bind_eq_ok, Except.mapError_eq_ok,
      Except.pure_eq_ok]
    exact ⟨_, rfl, rfl⟩

lemma lays_of_declareAllIn (hp : p.Lays cs')
    (h : declareAllIn p fresh position cs = .ok (p', fresh')) :
    p'.Lays (cs' ++ cs) ∧ p'.nodes = p.nodes := by
  induction cs generalizing p fresh position cs' with
  | nil =>
    simp only [declareAllIn, Except.ok.injEq, Prod.mk.injEq] at h
    obtain ⟨rfl, rfl⟩ := h
    exact ⟨by simpa using hp, rfl⟩
  | cons c cs ih =>
    simp only [declareAllIn, Except.bind_eq_ok, Prod.exists] at h
    obtain ⟨q, fresh₁, hq, h⟩ := h
    obtain ⟨name, type, hc, hfree, rfl, rfl⟩ := declareIn_eq_ok.1 hq
    obtain ⟨hlays, hnodes⟩ := ih (hp.declare hc hfree) h
    exact ⟨by simpa using hlays, hnodes⟩

/-- A list of channels is declared in full, if each has a type and a name of its own. -/
lemma declareAllIn_isOk (hp : p.Lays cs') :
    (∃ r, declareAllIn p fresh position cs = .ok r) ↔
      (∀ c ∈ cs, ∃ name type, c.Declares name type) ∧ ((cs' ++ cs).map (·.name)).Nodup := by
  induction cs generalizing p fresh position cs' with
  | nil => simpa [declareAllIn] using hp.names
  | cons c cs ih =>
    simp only [declareAllIn, Except.bind_eq_ok, Prod.exists, declareIn_eq_ok]
    constructor
    · rintro ⟨q, fresh', p₁, fresh₁, ⟨name, type, hc, hfree, rfl, rfl⟩, h⟩
      obtain ⟨hcs, hnd⟩ := (ih (hp.declare hc hfree)).1 ⟨_, h⟩
      exact ⟨List.forall_mem_cons.2 ⟨⟨name, type, hc⟩, hcs⟩, by simpa using hnd⟩
    · rintro ⟨hcs, hnd⟩
      obtain ⟨⟨name, type, hc⟩, hcs⟩ := List.forall_mem_cons.1 hcs
      have hsplit : ((cs' ++ [c] ++ cs).map (·.name)).Nodup := by simpa using hnd
      have hfree : some name ∉ cs'.map (·.name) := by
        rw [List.map_append, List.map_cons, hc.1] at hnd
        exact fun hmem => (List.nodup_append.1 hnd).2.2 _ hmem _ List.mem_cons_self rfl
      have hfree' := hp.free_iff.2 hfree
      obtain ⟨⟨q, fresh'⟩, h⟩ := (ih (hp.declare hc hfree')).2 ⟨hcs, hsplit⟩
      exact ⟨q, fresh', _, _, ⟨name, type, hc, hfree', rfl, rfl⟩, h⟩

end ChannelDefinition

/-! ### Levels -/

/-- Lists that correspond member by member can be split at corresponding places. -/
lemma forall₂_split {α β : Type} {R : α → β → Prop} {pre post : List α} {a : α} {l : List β}
    (h : List.Forall₂ R (pre ++ a :: post) l) : ∃ pre' b post', l = pre' ++ b :: post' ∧
      List.Forall₂ R pre pre' ∧ R a b := by
  induction pre generalizing l with
  | nil =>
    obtain ⟨b, post', hab, -, rfl⟩ := List.forall₂_cons_left_iff.1 h
    exact ⟨[], b, post', rfl, .nil, hab⟩
  | cons x pre ih =>
    obtain ⟨y, l, hxy, hl, rfl⟩ := List.forall₂_cons_left_iff.1 h
    obtain ⟨pre', b, post', rfl, hpre, hab⟩ := ih hl
    exact ⟨y :: pre', b, post', rfl, .cons hxy hpre, hab⟩

lemma exists_of_forall₂ {α β : Type} {R : α → β → Prop} {l : List α} {l' : List β}
    (h : List.Forall₂ R l l') {a : α} (ha : a ∈ l) : ∃ b ∈ l', R a b := by
  obtain ⟨pre, post, rfl⟩ := List.append_of_mem ha
  obtain ⟨pre', b, post', rfl, -, hab⟩ := forall₂_split h
  exact ⟨b, by simp, hab⟩

lemma ChannelDefinition.Declares.unique {c : ChannelDefinition} {x y : String} {t u : ValueType}
    (h : c.Declares x t) (h' : c.Declares y u) : x = y ∧ t = u := by
  obtain ⟨hx, text, htext, ht⟩ := h
  obtain ⟨hy, text', htext', hu⟩ := h'
  obtain rfl : text = text' := Option.some.inj (htext.symm.trans htext')
  have hname := ValueType.ofName?_eq_some.2 ht
  exact ⟨Option.some.inj (hx.symm.trans hy),
    Option.some.inj (hname.symm.trans (ValueType.ofName?_eq_some.2 hu))⟩

namespace Pipeline

variable {p : Pipeline} {cs : List ChannelDefinition}

lemma Lays.nodup_names (h : p.Lays cs) : (p.channels.map (·.name)).Nodup := by
  have hnames := h.names
  have hmap : (p.channels.map fun c => some c.name) = (p.channels.map (·.name)).map some := by
    simp
  rw [h.names_eq, hmap] at hnames
  exact hnames.of_map _

/-- What a level has under a name is what the definitions declare under it. -/
lemma Lays.declares_iff (h : p.Lays cs) {x : String} {type : ValueType} :
    (∃ d ∈ cs, d.Declares x type) ↔ ∃ c, p.channel? x = some c ∧ c.type = type := by
  constructor
  · rintro ⟨d, hd, hx⟩
    obtain ⟨c, hc, hdc⟩ := exists_of_forall₂ h.declared hd
    obtain ⟨rfl, rfl⟩ := hdc.unique hx
    exact ⟨c, channel?_of_mem h.nodup_names hc, rfl⟩
  · rintro ⟨c, hx, rfl⟩
    obtain ⟨hc, rfl⟩ := mem_of_channel? hx
    obtain ⟨d, hd, hdc⟩ := exists_of_forall₂
      (R := fun (c : Channel) (d : ChannelDefinition) => d.Declares c.name c.type)
      h.declared.flip hc
    exact ⟨d, hd, hdc⟩

lemma Lays.named_iff (h : p.Lays cs) {x : String} :
    (∃ d ∈ cs, d.name = some x) ↔ ∃ c, p.channel? x = some c := by
  constructor
  · rintro ⟨d, hd, hx⟩
    obtain ⟨c, hc, hdc⟩ := exists_of_forall₂ h.declared hd
    obtain rfl : c.name = x := Option.some.inj (hdc.1.symm.trans hx)
    exact ⟨c, channel?_of_mem h.nodup_names hc⟩
  · rintro ⟨c, hc⟩
    obtain ⟨d, hd, hdc⟩ := h.declares_iff.2 ⟨c, hc, rfl⟩
    exact ⟨d, hd, hdc.1⟩

end Pipeline

/-- The node has the name and the wiring that the definition gives it. -/
structure NodeDefinition.Draws (n : NodeDefinition) (m : Node) : Prop where
  name : n.name = some m.name
  ins : m.ins = n.inputs
  outs : m.outs = n.outputs

namespace NodeDefinition

variable {ns : List NodeDefinition} {ms : List Node}

lemma reads_eq (h : List.Forall₂ Draws ns ms) : reads ns = Pipeline.reads ms := by
  induction h with
  | nil => rfl
  | cons hd _ ih =>
    rw [Pipeline.reads_cons, hd.ins, ← ih]
    rfl

lemma writes_eq (h : List.Forall₂ Draws ns ms) : writes ns = Pipeline.writes ms := by
  induction h with
  | nil => rfl
  | cons hd _ ih =>
    rw [Pipeline.writes_cons, hd.outs, ← ih]
    rfl

lemma names_eq (h : List.Forall₂ Draws ns ms) :
    ns.map (·.name) = ms.map fun m => some m.name := by
  induction h with
  | nil => rfl
  | cons hd _ ih => rw [List.map_cons, List.map_cons, hd.name, ih]

end NodeDefinition

namespace Pipeline

variable {p : Pipeline} {cs : List ChannelDefinition} {ns order : List NodeDefinition}

/-- The nodes of the pipeline are those that the definitions draw, one by one. -/
structure Places (p : Pipeline) (ns : List NodeDefinition) : Prop where
  drawn : List.Forall₂ NodeDefinition.Draws ns p.nodes
  labels : (ns.map (·.name)).Nodup
  native : ∀ m ∈ p.nodes, p.foreign? m = none

lemma Places.nodup (h : p.Places ns) : p.nodes.Nodup := by
  have hlabels := h.labels
  rw [NodeDefinition.names_eq h.drawn] at hlabels
  exact hlabels.of_map _

lemma Places.supply (h : p.Places ns) {given : List String} {x : String}
    (hx : x ∈ reads p.nodes) :
    p.supply (fun _ => 0) given x = if x ∈ given then 1 else 0 := by
  obtain ⟨m, hm, hx⟩ := List.mem_flatMap.1 hx
  obtain ⟨c, hc, rfl⟩ := List.mem_map.1 hx
  have hnative := List.find?_eq_none.1 (h.native m hm) c (List.mem_append_left _ hc)
  have hfound : p.channel? c.name = some c := by simpa using hnative
  simp [Pipeline.supply, counts, hfound]

/-- An order of the nodes is feasible exactly if the same order of their definitions is. -/
lemma Places.feasible_iff (h : p.Places ns) {given : List String} {fired : List Node}
    (hsub : fired ⊆ p.nodes) (hd : List.Forall₂ NodeDefinition.Draws order fired) :
    p.Feasible (fun _ => 0) given fired ↔
      ∀ pre n post, order = pre ++ n :: post → ∀ x ∈ n.inputs, (NodeDefinition.reads ns).count x ≤
        (NodeDefinition.writes pre).count x + if x ∈ given then 1 else 0 := by
  have hshort : ∀ {pre pre' : _} {m : Node}, m ∈ fired →
      List.Forall₂ NodeDefinition.Draws pre pre' →
      ∀ x ∈ m.ins, ¬ p.Short (fun _ => 0) given pre' x ↔ (NodeDefinition.reads ns).count x ≤
        (NodeDefinition.writes pre).count x + if x ∈ given then 1 else 0 := by
    intro pre pre' m hm hpre x hx
    have hread : x ∈ reads p.nodes := List.mem_flatMap.2 ⟨m, hsub hm, hx⟩
    rw [Short, h.supply hread, NodeDefinition.reads_eq h.drawn, NodeDefinition.writes_eq hpre]
    omega
  constructor
  · rintro hfeasible pre n post rfl x hx
    obtain ⟨pre', m, post', rfl, hpre, hnm⟩ := forall₂_split hd
    rw [← hnm.ins] at hx
    obtain ⟨c, hc, rfl⟩ := List.mem_map.1 hx
    exact (hshort (by simp) hpre _ hx).1 (hfeasible pre' m post' rfl c hc)
  · rintro hall pre' m post' rfl c hc
    obtain ⟨pre, n, post, rfl, hpre, hnm⟩ :=
      forall₂_split (R := fun m n => NodeDefinition.Draws n m) hd.flip
    have hx : c.name ∈ m.ins := List.mem_map_of_mem hc
    exact (hshort (by simp) hpre.flip _ hx).2 (hall pre n post rfl _ (hnm.ins ▸ hx))

/-- The analysis of a fresh pipeline accepts it exactly if its definition is satisfiable. -/
lemma Places.checkSatisfiable_iff (h : p.Places ns) {given : List String} :
    p.checkSatisfiable (fun _ => 0) given = .ok () ↔ NodeDefinition.Satisfiable given ns := by
  rw [checkSatisfiable_eq_ok]
  constructor
  · intro hnone
    obtain ⟨fired, hplayed⟩ := p.exists_played (fun _ => 0) given
    have hperm := hplayed.perm
    rw [hnone, List.append_nil] at hperm
    obtain ⟨order, hdrawn, horder⟩ := List.perm_comp_forall₂
      (r := fun m n => NodeDefinition.Draws n m) hperm h.drawn.flip
    exact ⟨order, horder, (h.feasible_iff hperm.subset hdrawn.flip).1 hplayed.feasible⟩
  · rintro ⟨order, horder, hall⟩
    obtain ⟨fired, hdrawn, hperm⟩ := List.perm_comp_forall₂ horder h.drawn
    exact unfired_of_feasible h.nodup hperm ((h.feasible_iff hperm.subset hdrawn).2 hall)

end Pipeline

/-! ### Nodes -/

namespace NodeDefinition

variable {p : Pipeline} {node : String} {names : List String} {cs : List Channel}

lemma resolve_eq_ok : resolve p node names = .ok cs ↔
    cs.map (·.name) = names ∧ ∀ c ∈ cs, p.channel? c.name = some c := by
  unfold resolve
  induction names generalizing cs with
  | nil =>
    cases cs <;> simp [pure, Except.pure]
  | cons x names ih =>
    simp only [List.mapM_cons, Except.bind_eq_ok, Except.pure_eq_ok, ih]
    constructor
    · rintro ⟨c, hc, cs', ⟨rfl, hcs⟩, rfl⟩
      cases hx : p.channel? x with
      | none => simp [hx] at hc
      | some d =>
        simp only [hx, Except.ok.injEq] at hc
        subst hc
        obtain ⟨-, rfl⟩ := Pipeline.mem_of_channel? hx
        exact ⟨rfl, List.forall_mem_cons.2 ⟨hx, hcs⟩⟩
    · rintro ⟨hmap, hcs⟩
      obtain ⟨c, cs, rfl, rfl, rfl⟩ := List.map_eq_cons_iff.1 hmap
      obtain ⟨hc, hcs⟩ := List.forall_mem_cons.1 hcs
      exact ⟨c, by simp [hc], cs, ⟨rfl, hcs⟩, rfl⟩

end NodeDefinition

namespace NodeDefinition

variable {registry : Registry} {n : NodeDefinition} {name : String} {p : Pipeline}
  {cs : List ChannelDefinition} {fresh fresh' : Nat} {m : Node}

/-- The channels that a node is given are those that it names. -/
lemma resolve_isOk {node : String} {names : List String} (hp : p.Lays cs) :
    (∃ chosen, resolve p node names = .ok chosen) ↔ ∀ x ∈ names, ∃ c ∈ cs, c.name = some x := by
  simp only [resolve_eq_ok, hp.named_iff]
  constructor
  · rintro ⟨chosen, rfl, hchosen⟩
    exact List.forall_mem_map.2 fun c hc => ⟨c, hchosen c hc⟩
  · intro h
    induction names with
    | nil => exact ⟨[], rfl, by simp⟩
    | cons x names ih =>
      obtain ⟨⟨c, hc⟩, hrest⟩ := List.forall_mem_cons.1 h
      obtain ⟨chosen, rfl, hchosen⟩ := ih hrest
      obtain ⟨-, rfl⟩ := Pipeline.mem_of_channel? hc
      exact ⟨c :: chosen, rfl, List.forall_mem_cons.2 ⟨hc, hchosen⟩⟩

lemma resolveLogic_eq_ok {key : String} {kind : NodeKind} {logic : Logic} :
    resolveLogic registry name key kind = .ok logic ↔
      registry.get? key = some logic ∧ logic.shape = kind.shape := by
  unfold resolveLogic
  cases registry.get? key with
  | none => simp
  | some found =>
    simp only [Option.some.injEq]
    split_ifs with hs
    · simp only [Except.ok.injEq]
      exact ⟨fun h => ⟨h, h ▸ hs⟩, fun h => h.1⟩
    · simp only [false_iff, not_and]
      rintro rfl
      exact hs

/-- What the node runs is given in one way, and fits. -/
structure Good (registry : Registry) (cs : List ChannelDefinition) (n : NodeDefinition) : Prop where
  wired : n.Wired cs
  simple : n.pipeline = none → n.Runs registry
  nested : ∀ inner, n.pipeline = some inner → n.Wraps cs inner
  below : ∀ inner, n.pipeline = some inner → inner.WellFormed registry

/-- What is made of the definition of a node. -/
lemma build_eq_ok {item : String} (hitem : item = s!"node '{name}'") :
    n.build registry p name fresh = .ok (m, fresh') ↔
    ∃ inputs outputs kind, resolve p name n.inputs = .ok inputs ∧
      resolve p name n.outputs = .ok outputs ∧ n.HasKind kind ∧
      ((∃ key logic, n.logic = some key ∧ n.pipeline = none ∧ kind ≠ .composite ∧
          registry.get? key = some logic ∧ logic.shape = kind.shape ∧
          Node.ofLogic kind name inputs outputs logic = .ok m ∧ fresh' = fresh) ∨
        ∃ inner q, n.logic = none ∧ n.pipeline = some inner ∧ kind = .composite ∧
          inner.initialData = none ∧
          inner.build registry s!"{item} pipeline" fresh = .ok (q, fresh') ∧
          Node.composite name inputs outputs q (fun _ => 0) false = .ok m) := by
  obtain ⟨given, kindText, inputNames, outputNames, logic, pipeline⟩ := n
  unfold build
  subst hitem
  simp only [Except.bind_eq_ok, resolvedKind_eq_ok, exists_and_left]
  refine exists_congr fun inputs => and_congr_right fun _ => exists_congr fun outputs =>
    and_congr_right fun _ => exists_congr fun kind => and_congr_right fun _ => ?_
  match logic, pipeline with
  | some key, some inner => simp
  | none, none => by_cases hk : kind = .composite <;> simp [hk]
  | some key, none =>
    by_cases hk : kind = .composite
    · simp [hk]
    · simp only [if_neg hk, Except.bind_eq_ok, Except.mapError_eq_ok, Except.pure_eq_ok,
        resolveLogic_eq_ok, Prod.mk.injEq]
      constructor
      · rintro ⟨logic, ⟨hget, hshape⟩, m', hm, rfl, rfl⟩
        exact .inl ⟨key, rfl, trivial, hk, logic, hget, hshape, hm, rfl⟩
      · rintro (⟨_, ⟨⟩, -, -, logic, hget, hshape, hm, rfl⟩ | ⟨⟨⟩, -⟩)
        exact ⟨logic, ⟨hget, hshape⟩, m, hm, rfl, rfl⟩
  | none, some inner =>
    by_cases hk : kind = .composite
    · cases hi : inner.initialData with
      | some entries => simp [hk, hi]
      | none =>
        simp only [hk, hi, ne_eq, not_true_eq_false, if_false, Option.isSome_none,
          Bool.false_eq_true, Except.bind_eq_ok, Except.mapError_eq_ok, Except.pure_eq_ok,
          Prod.mk.injEq, Prod.exists]
        constructor
        · rintro ⟨q, _, hq, m', hm, rfl, rfl⟩
          exact .inr ⟨trivial, inner, rfl, trivial, hi, q, hq, hm⟩
        · rintro (⟨_, ⟨⟩, -⟩ | ⟨-, _, ⟨⟩, -, -, q, hq, hm⟩)
          exact ⟨q, fresh', hq, m, hm, rfl, rfl⟩
    · simp [hk]

lemma build_draws (hname : n.name = some name)
    (h : n.build registry p name fresh = .ok (m, fresh')) : n.Draws m ∧ p.foreign? m = none := by
  obtain ⟨inputs, outputs, kind, hins, houts, -, hbody⟩ := (build_eq_ok rfl).1 h
  obtain ⟨hins, hin⟩ := resolve_eq_ok.1 hins
  obtain ⟨houts, hout⟩ := resolve_eq_ok.1 houts
  have hm : ∃ body, m = ⟨name, inputs, outputs, body⟩ := by
    rcases hbody with ⟨key, logic, -, -, hk, -, hs, hm, -⟩ | ⟨inner, q, -, -, -, -, -, hm⟩
    · obtain ⟨body, -, hiff⟩ := Node.ofLogic_iff name inputs outputs hk hs
      exact ⟨body, ((hiff m).1 hm).2⟩
    · exact ⟨_, (Node.composite_iff.1 hm).2.2⟩
  obtain ⟨body, rfl⟩ := hm
  refine ⟨⟨hname, hins, houts⟩, List.find?_eq_none.2 fun c hc => ?_⟩
  rcases List.mem_append.1 hc with hc | hc
  · simpa using hin c hc
  · simpa using hout c hc

end NodeDefinition

/-! ### Pipelines -/

namespace Pipeline

variable {p p' : Pipeline} {cs : List ChannelDefinition} {ns : List NodeDefinition}
  {n : NodeDefinition} {m : Node}

lemma Places.free_iff (h : p.Places ns) {name : String} :
    name ∉ p.nodes.map (·.name) ↔ some name ∉ ns.map (·.name) := by
  rw [NodeDefinition.names_eq h.drawn]
  simp

lemma Places.addNode (h : p.Places ns) (hn : n.Draws m) (hm : p.foreign? m = none) :
    p.addNode m = .ok p' ↔
      n.name ∉ ns.map (·.name) ∧ p' = { p with nodes := p.nodes ++ [m] } := by
  rw [hn.name, ← h.free_iff, ← node?_eq_none]
  unfold Pipeline.addNode
  cases p.node? m.name <;> simp [hm, eq_comm]

lemma Places.add (h : p.Places ns) (hn : n.Draws m) (hm : p.foreign? m = none)
    (hfree : n.name ∉ ns.map (·.name)) :
    Places { p with nodes := p.nodes ++ [m] } (ns ++ [n]) where
  drawn := List.rel_append h.drawn (.cons hn .nil)
  labels := by
    rw [List.map_append, List.nodup_append_comm]
    exact List.nodup_cons.2 ⟨hfree, h.labels⟩
  native m' hm' := by
    rcases List.mem_append.1 hm' with hm' | hm'
    · exact h.native m' hm'
    · rw [List.mem_singleton.1 hm']
      exact hm

end Pipeline

namespace NodeDefinition

variable {registry : Registry} {ns ns' : List NodeDefinition} {p p' : Pipeline}
  {fresh fresh' position : Nat}

lemma places_of_addAllTo (hp : p.Places ns')
    (h : addAllTo registry p fresh position ns = .ok (p', fresh')) :
    p'.Places (ns' ++ ns) ∧ p'.channels = p.channels := by
  induction ns generalizing p fresh position ns' with
  | nil =>
    simp only [addAllTo, Except.ok.injEq, Prod.mk.injEq] at h
    obtain ⟨rfl, rfl⟩ := h
    exact ⟨by simpa using hp, rfl⟩
  | cons n ns ih =>
    simp only [addAllTo, Except.bind_eq_ok, Except.mapError_eq_ok, required_eq_ok,
      Prod.exists] at h
    obtain ⟨name, hname, m, fresh₁, hm, q, hq, h⟩ := h
    obtain ⟨hdraws, hforeign⟩ := build_draws hname hm
    obtain ⟨hfree, rfl⟩ := (hp.addNode hdraws hforeign).1 hq
    obtain ⟨hplaces, hchannels⟩ := ih (hp.add hdraws hforeign hfree) h
    exact ⟨by simpa using hplaces, hchannels⟩

end NodeDefinition

namespace PipelineDefinition

variable {registry : Registry} {d : PipelineDefinition} {item : String} {fresh fresh' : Nat}
  {p : Pipeline}

/-- What is made of the definition of a pipeline. -/
lemma build_eq_ok : d.build registry item fresh = .ok (p, fresh') ↔
    ∃ name channels nodes q fresh₁, d.name = some name ∧ d.channels = some channels ∧
      d.nodes = some nodes ∧
      ChannelDefinition.declareAllIn
        (Pipeline.new fresh name ((d.options.map OptionsDefinition.toRunOptions).getD {}))
        (fresh + 1) 1 channels = .ok (q, fresh₁) ∧
      NodeDefinition.addAllTo registry q fresh₁ 1 nodes = .ok (p, fresh') := by
  obtain ⟨name, channels, nodes, seeds, options⟩ := d
  unfold build
  simp only [Except.bind_eq_ok, required_eq_ok, Prod.exists]
  constructor
  · rintro ⟨name, rfl, channels, rfl, q, fresh₁, hq, h⟩
    cases nodes with
    | none => cases h
    | some nodes => exact ⟨name, channels, nodes, q, fresh₁, rfl, rfl, rfl, hq, h⟩
  · rintro ⟨name, channels, nodes, q, fresh₁, rfl, rfl, rfl, hq, h⟩
    exact ⟨name, rfl, channels, rfl, q, fresh₁, hq, h⟩

/-- The level before its nodes are added. -/
lemma lays_of_declared {q : Pipeline} {id position : Nat} {name : String} {options : RunOptions}
    {channels : List ChannelDefinition}
    (h : ChannelDefinition.declareAllIn (Pipeline.new id name options) fresh position channels =
      .ok (q, fresh')) : q.Lays channels ∧ q.Places [] := by
  obtain ⟨hlays, hnone⟩ := ChannelDefinition.lays_of_declareAllIn Pipeline.lays_new h
  rw [Pipeline.nodes_new] at hnone
  exact ⟨hlays, hnone ▸ .nil, List.nodup_nil, by simp [hnone]⟩

lemma laid_of_build (h : d.build registry item fresh = .ok (p, fresh')) :
    p.Lays (d.channels.getD []) ∧ p.Places (d.nodes.getD []) := by
  obtain ⟨name, channels, nodes, q, fresh₁, -, hchannels, hnodes, hq, h⟩ := build_eq_ok.1 h
  obtain ⟨hlays, hempty⟩ := lays_of_declared hq
  obtain ⟨hplaces, hsame⟩ := NodeDefinition.places_of_addAllTo hempty h
  rw [hchannels, hnodes]
  exact ⟨⟨hsame ▸ hlays.declared, hlays.names⟩, hplaces⟩

end PipelineDefinition

/-! ### Acceptance -/

namespace NodeDefinition

variable {registry : Registry} {n : NodeDefinition} {name : String} {p q : Pipeline}
  {cs : List ChannelDefinition} {ns : List NodeDefinition} {inner : PipelineDefinition}
  {inputs outputs : List Channel} {fresh position : Nat}

/-- Once its channels are found, a node is wired soundly if its definition is. -/
lemma wiringFault?_iff {body : Body} (hp : p.Lays cs) (hname : n.name = some name)
    (hins : resolve p name n.inputs = .ok inputs) (houts : resolve p name n.outputs = .ok outputs) :
    (⟨name, inputs, outputs, body⟩ : Node).wiringFault? = none ↔
      n.Wired cs ∧ body.kind.Admits n.inputs n.outputs := by
  have hin := (resolve_isOk hp).1 ⟨inputs, hins⟩
  have hout := (resolve_isOk hp).1 ⟨outputs, houts⟩
  have hi : (⟨name, inputs, outputs, body⟩ : Node).ins = n.inputs := (resolve_eq_ok.1 hins).1
  have ho : (⟨name, inputs, outputs, body⟩ : Node).outs = n.outputs := (resolve_eq_ok.1 houts).1
  rw [Node.wiringFault?_eq_none, hi, ho]
  constructor
  · rintro ⟨hblank, hadmits, hndi, hndo, hdisjoint⟩
    refine ⟨⟨⟨name, hname, hblank⟩, fun x hx => ?_, hndi, hndo, hdisjoint⟩, hadmits⟩
    exact (List.mem_append.1 hx).elim (hin x) (hout x)
  · rintro ⟨⟨⟨name', hname', hblank⟩, -, hndi, hndo, hdisjoint⟩, hadmits⟩
    obtain rfl : name = name' := Option.some.inj (hname.symm.trans hname')
    exact ⟨hblank, hadmits, hndi, hndo, hdisjoint⟩

/-- A fresh pipeline fits behind a node exactly if the definition of the one fits behind that of
the other. -/
lemma boundaryFault?_iff (hp : p.Lays cs) (hins : resolve p name n.inputs = .ok inputs)
    (houts : resolve p name n.outputs = .ok outputs) (hq : q.Lays (inner.channels.getD []))
    (hplaces : q.Places (inner.nodes.getD [])) (hkind : n.HasKind .composite)
    (hplain : n.logic = none) (hbare : inner.initialData = none) :
    q.boundaryFault? (fun _ => 0) false inputs outputs = none ↔ n.Wraps cs inner := by
  obtain ⟨hi, hin⟩ := resolve_eq_ok.1 hins
  obtain ⟨ho, hout⟩ := resolve_eq_ok.1 houts
  have htypes : (∀ c ∈ inputs ++ outputs, ∀ d, q.channel? c.name = some d → d.type = c.type) ↔
      ∀ x ∈ n.inputs ++ n.outputs, ∀ c ∈ cs, ∀ d ∈ inner.channels.getD [], ∀ outside inside,
        c.Declares x outside → d.Declares x inside → inside = outside := by
    have hfound : ∀ c ∈ inputs ++ outputs, p.channel? c.name = some c := by
      intro c hc
      exact (List.mem_append.1 hc).elim (hin c) (hout c)
    rw [← hi, ← ho, ← List.map_append, List.forall_mem_map]
    refine forall₂_congr fun e he => ?_
    constructor
    · intro h c hc d hd outside inside hoc hid
      obtain ⟨e', he', rfl⟩ := hp.declares_iff.1 ⟨c, hc, hoc⟩
      obtain ⟨e'', he'', rfl⟩ := hq.declares_iff.1 ⟨d, hd, hid⟩
      obtain rfl : e = e' := Option.some.inj ((hfound e he).symm.trans he')
      exact h e'' he''
    · intro h e' he'
      obtain ⟨c, hc, hoc⟩ := hp.declares_iff.2 ⟨e, hfound e he, rfl⟩
      obtain ⟨d, hd, hid⟩ := hq.declares_iff.2 ⟨e', he', rfl⟩
      exact h c hc d hd _ _ hoc hid
  rw [Pipeline.boundaryFault?_eq_none, hi, ho, htypes, hplaces.checkSatisfiable_iff,
    ← reads_eq hplaces.drawn, ← writes_eq hplaces.drawn]
  constructor
  · rintro ⟨hinputs, houtputs, htypes, hsat⟩
    exact ⟨hkind, hplain, hbare, hinputs, houtputs, htypes, hsat⟩
  · intro h
    exact ⟨h.inputs, h.outputs, h.types, h.satisfiable⟩

/-- A node can be built exactly if its definition is good, given that of each pipeline inside. -/
lemma build_isOk (hp : p.Lays cs) (hname : n.name = some name)
    (ih : ∀ inner, n.pipeline = some inner → ∀ item fresh,
      (∃ r, inner.build registry item fresh = .ok r) ↔ inner.WellFormed registry) :
    (∃ r, n.build registry p name fresh = .ok r) ↔ n.Good registry cs := by
  constructor
  · rintro ⟨⟨m, fresh'⟩, h⟩
    obtain ⟨inputs, outputs, kind, hins, houts, hkind, hbody⟩ := (build_eq_ok rfl).1 h
    rcases hbody with ⟨key, logic, hlogic, hnone, hk, hget, hs, hm, -⟩ |
      ⟨inner, q, hplain, hinner, rfl, hbare, hq, hm⟩
    · obtain ⟨body, rfl, hiff⟩ := Node.ofLogic_iff name inputs outputs hk hs
      obtain ⟨hwired, hadmits⟩ := (wiringFault?_iff hp hname hins houts).1 ((hiff m).1 hm).1
      exact ⟨hwired, fun _ => ⟨_, key, logic, hkind, hk, hlogic, hget, hs, hadmits⟩,
        by simp [hnone], by simp [hnone]⟩
    · obtain ⟨hboundary, hwiring, -⟩ := Node.composite_iff.1 hm
      obtain ⟨hlays, hplaces⟩ := PipelineDefinition.laid_of_build hq
      have hwraps := (boundaryFault?_iff hp hins houts hlays hplaces hkind hplain hbare).1 hboundary
      refine ⟨((wiringFault?_iff hp hname hins houts).1 hwiring).1, by simp [hinner], ?_, ?_⟩
      · rintro _ heq
        obtain rfl := Option.some.inj (hinner.symm.trans heq)
        exact hwraps
      · rintro _ heq
        obtain rfl := Option.some.inj (hinner.symm.trans heq)
        exact (ih inner hinner _ _).1 ⟨_, hq⟩
  · intro h
    have hdeclared := List.forall_mem_append.1 h.wired.declared
    obtain ⟨inputs, hins⟩ : ∃ inputs, resolve p name n.inputs = .ok inputs :=
      (resolve_isOk hp).2 hdeclared.1
    obtain ⟨outputs, houts⟩ : ∃ outputs, resolve p name n.outputs = .ok outputs :=
      (resolve_isOk hp).2 hdeclared.2
    cases hi : n.pipeline with
    | none =>
      obtain ⟨kind, key, logic, hkind, hk, hlogic, hget, hs, hadmits⟩ := h.simple hi
      obtain ⟨body, rfl, hiff⟩ := Node.ofLogic_iff name inputs outputs hk hs
      have hwiring := (wiringFault?_iff hp hname hins houts).2 ⟨h.wired, hadmits⟩
      exact ⟨(_, fresh), (build_eq_ok rfl).2 ⟨inputs, outputs, _, hins, houts, hkind,
        .inl ⟨key, logic, hlogic, hi, hk, hget, hs, (hiff _).2 ⟨hwiring, rfl⟩, rfl⟩⟩⟩
    | some inner =>
      have hwraps := h.nested inner hi
      obtain ⟨⟨q, fresh'⟩, hq⟩ := (ih inner hi _ fresh).2 (h.below inner hi)
      obtain ⟨hlays, hplaces⟩ := PipelineDefinition.laid_of_build hq
      have hboundary := (boundaryFault?_iff hp hins houts hlays hplaces hwraps.kind hwraps.plain
        hwraps.unseeded).2 hwraps
      have hwiring : (⟨name, inputs, outputs, .composite q⟩ : Node).wiringFault? = none :=
        (wiringFault?_iff hp hname hins houts).2 ⟨h.wired, trivial⟩
      exact ⟨(_, fresh'), (build_eq_ok rfl).2 ⟨inputs, outputs, _, hins, houts, hwraps.kind,
        .inr ⟨inner, q, hwraps.plain, hi, rfl, hwraps.unseeded, hq,
          Node.composite_iff.2 ⟨hboundary, hwiring, rfl⟩⟩⟩⟩

lemma addAllTo_isOk {ns' : List NodeDefinition} (hp : p.Lays cs) (hplaces : p.Places ns')
    (ih : ∀ n ∈ ns, ∀ inner, n.pipeline = some inner → ∀ item fresh,
      (∃ r, inner.build registry item fresh = .ok r) ↔ inner.WellFormed registry) :
    (∃ r, addAllTo registry p fresh position ns = .ok r) ↔
      (∀ n ∈ ns, n.Good registry cs) ∧ ((ns' ++ ns).map (·.name)).Nodup := by
  induction ns generalizing p fresh position ns' with
  | nil => simpa [addAllTo] using hplaces.labels
  | cons n ns ihns =>
    obtain ⟨ihn, ih⟩ := List.forall_mem_cons.1 ih
    simp only [addAllTo, Except.bind_eq_ok, Except.mapError_eq_ok, required_eq_ok, Prod.exists]
    constructor
    · rintro ⟨p', fresh', name, hname, m, fresh₁, hm, q, hq, h⟩
      obtain ⟨hdraws, hforeign⟩ := build_draws hname hm
      obtain ⟨hfree, rfl⟩ := (hplaces.addNode hdraws hforeign).1 hq
      have hlays : Pipeline.Lays { p with nodes := p.nodes ++ [m] } cs := ⟨hp.declared, hp.names⟩
      obtain ⟨hns, hnd⟩ := (ihns hlays (hplaces.add hdraws hforeign hfree) ih).1 ⟨_, h⟩
      have hn := (build_isOk hp hname ihn).1 ⟨_, hm⟩
      exact ⟨List.forall_mem_cons.2 ⟨hn, hns⟩, by simpa using hnd⟩
    · rintro ⟨hns, hnd⟩
      obtain ⟨hn, hns⟩ := List.forall_mem_cons.1 hns
      obtain ⟨name, hname, -⟩ := hn.wired.named
      obtain ⟨⟨m, fresh₁⟩, hm⟩ := (build_isOk hp hname ihn).2 hn
      obtain ⟨hdraws, hforeign⟩ := build_draws hname hm
      have hfree : n.name ∉ ns'.map (·.name) := by
        rw [List.map_append, List.map_cons] at hnd
        exact fun hmem => (List.nodup_append.1 hnd).2.2 _ hmem _ List.mem_cons_self rfl
      have hsplit : ((ns' ++ [n] ++ ns).map (·.name)).Nodup := by simpa using hnd
      have hlays : Pipeline.Lays { p with nodes := p.nodes ++ [m] } cs := ⟨hp.declared, hp.names⟩
      obtain ⟨⟨p', fresh'⟩, h⟩ :=
        (ihns hlays (hplaces.add hdraws hforeign hfree) ih).2 ⟨hns, hsplit⟩
      exact ⟨p', fresh', name, hname, m, fresh₁, hm, _,
        (hplaces.addNode hdraws hforeign).2 ⟨hfree, rfl⟩, h⟩

end NodeDefinition

namespace PipelineDefinition

variable {registry : Registry} {d : PipelineDefinition} {item : String} {fresh fresh' : Nat}
  {p : Pipeline}

/-- Induction on how deep definitions are nested. -/
lemma nested_induction {P : PipelineDefinition → Prop}
    (step : ∀ d : PipelineDefinition, (∀ nodes, d.nodes = some nodes → ∀ n ∈ nodes, ∀ inner,
      n.pipeline = some inner → P inner) → P d) (d : PipelineDefinition) : P d := by
  refine step d fun nodes hnodes n hn inner hinner => nested_induction step inner
termination_by sizeOf d
decreasing_by
  have hmem := List.sizeOf_lt_of_mem hn
  obtain ⟨_, _, _, _, _⟩ := d
  obtain ⟨_, _, _, _, _, _⟩ := n
  subst hnodes hinner
  simp only [mk.sizeOf_spec, NodeDefinition.mk.sizeOf_spec, Option.some.sizeOf_spec] at hmem ⊢
  omega

/-- A pipeline can be built exactly if its definition is well formed. -/
lemma build_isOk :
    (∃ r, d.build registry item fresh = .ok r) ↔ d.WellFormed registry := by
  induction d using nested_induction generalizing item fresh with
  | step d ih =>
    simp only [Prod.exists, build_eq_ok]
    constructor
    · rintro ⟨p, fresh', name, channels, nodes, q, fresh₁, hname, hchannels, hnodes, hq, h⟩
      obtain ⟨hlays, hempty⟩ := lays_of_declared hq
      obtain ⟨htyped, hnames⟩ :=
        (ChannelDefinition.declareAllIn_isOk Pipeline.lays_new).1 ⟨_, hq⟩
      obtain ⟨hgood, hlabels⟩ :=
        (NodeDefinition.addAllTo_isOk hlays hempty (ih nodes hnodes)).1 ⟨_, h⟩
      exact .intro ⟨by simp [hname], hchannels, hnodes, htyped, hnames, hlabels,
        fun n hn => (hgood n hn).wired⟩ (fun n hn => (hgood n hn).simple)
        (fun n hn => (hgood n hn).nested) fun n hn => (hgood n hn).below
    · rintro ⟨level, simple, nested, below⟩
      rename_i channels nodes
      obtain ⟨name, hname⟩ := Option.ne_none_iff_exists'.1 level.named
      obtain ⟨⟨q, fresh₁⟩, hq⟩ :=
        (ChannelDefinition.declareAllIn_isOk Pipeline.lays_new).2 ⟨level.typed, level.names⟩
      obtain ⟨hlays, hempty⟩ := lays_of_declared hq
      have hgood : ∀ n ∈ nodes, n.Good registry channels := fun n hn =>
        ⟨level.wired n hn, simple n hn, nested n hn, below n hn⟩
      obtain ⟨⟨p, fresh'⟩, h⟩ :=
        (NodeDefinition.addAllTo_isOk hlays hempty (ih nodes level.nodes_eq)).2
          ⟨hgood, level.labels⟩
      exact ⟨p, fresh', name, channels, nodes, q, fresh₁, hname, level.channels_eq,
        level.nodes_eq, hq, h⟩

end PipelineDefinition

/-- Seeds are accepted exactly if each is for a channel of the pipeline and suits its type. -/
lemma Literal.seeds_isOk {p : Pipeline} {entries : List (String × Literal)} {acc : Payload} :
    (∃ seeds, Literal.seeds p entries acc = .ok seeds) ↔
      ∀ e ∈ entries, ∃ c, p.channel? e.1 = some c ∧ e.2.Suits c.type := by
  induction entries generalizing acc with
  | nil => simp [Literal.seeds]
  | cons e entries ih =>
    obtain ⟨name, l⟩ := e
    rw [List.forall_mem_cons]
    unfold Literal.seeds
    cases hc : p.channel? name with
    | none => simp
    | some c =>
      simp only [Except.bind_eq_ok, Option.some.injEq, exists_eq_left', ← Literal.forChannel_isOk]
      constructor
      · rintro ⟨seeds, v, hv, hrest⟩
        exact ⟨⟨v, hv⟩, by simpa [Literal.forChannel_isOk] using ih.1 ⟨seeds, hrest⟩⟩
      · rintro ⟨⟨v, hv⟩, hrest⟩
        obtain ⟨seeds, h⟩ := ih.2 (by simpa [Literal.forChannel_isOk] using hrest)
        exact ⟨seeds, v, hv, h⟩

lemma PipelineDefinition.seeded_iff {d : PipelineDefinition} {p : Pipeline}
    (hp : p.Lays (d.channels.getD [])) :
    (∃ seeds, Literal.seeds p (d.initialData.getD []) .empty = .ok seeds) ↔ d.Seeded := by
  rw [Literal.seeds_isOk]
  refine forall₂_congr fun e _ => ?_
  constructor
  · rintro ⟨c, hc, hsuits⟩
    obtain ⟨d, hd, hdc⟩ := hp.declares_iff.2 ⟨c, hc, rfl⟩
    exact ⟨d, hd, c.type, hdc, hsuits⟩
  · rintro ⟨d, hd, type, hdc, hsuits⟩
    obtain ⟨c, hc, rfl⟩ := hp.declares_iff.1 ⟨d, hd, hdc⟩
    exact ⟨c, hc, hsuits⟩

/-- **What definitions describe a pipeline**: a definition is interpreted, rather than refused,
exactly if it is well formed on every level and its seeds suit the channels that they are for. -/
theorem World.interpret_isOk_iff (w : World) (registry : Registry) (d : PipelineDefinition) :
    (∃ r, w.interpret registry d = .ok r) ↔ d.WellFormed registry ∧ d.Seeded := by
  simp only [interpret, PipelineDefinition.interpret, Except.bind_eq_ok, Except.pure_eq_ok,
    Prod.exists]
  constructor
  · rintro ⟨-, -, -, -, -, -, ⟨p, fresh, hp, seeds, hseeds, -⟩, -⟩
    obtain ⟨hlays, -⟩ := PipelineDefinition.laid_of_build hp
    exact ⟨PipelineDefinition.build_isOk.1 ⟨_, hp⟩,
      (PipelineDefinition.seeded_iff hlays).1 ⟨seeds, hseeds⟩⟩
  · rintro ⟨hformed, hseeded⟩
    obtain ⟨⟨p, fresh⟩, hp⟩ := PipelineDefinition.build_isOk.2 hformed
    obtain ⟨hlays, -⟩ := PipelineDefinition.laid_of_build hp
    obtain ⟨seeds, hseeds⟩ := (PipelineDefinition.seeded_iff hlays).2 hseeded
    exact ⟨_, _, _, p, seeds, fresh, ⟨p, fresh, hp, seeds, hseeds, rfl⟩, rfl⟩

end Dataflow
