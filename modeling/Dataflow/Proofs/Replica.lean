import Dataflow.Proofs.Acceptance
import Dataflow.Proofs.Workshop

/-!
What is built twice. Building gives identities out in the order in which it goes through the
definition, and decides nothing by them. So the pipelines of two builds of one definition are the
same but for their identities, and these differ by the same number everywhere.

Main statement: `PipelineDefinition.build_shifted`.
-/

namespace Dataflow

def Channel.renumber (f : Nat → Nat) (c : Channel) : Channel := { c with id := f c.id }

mutual

def Body.renumber (f : Nat → Nat) : Body → Body
  | .source logic => .source logic
  | .sink logic => .sink logic
  | .transform logic => .transform logic
  | .composite inner => .composite (inner.renumber f)

def Node.renumber (f : Nat → Nat) : Node → Node
  | ⟨name, inputs, outputs, body⟩ =>
    ⟨name, inputs.map (·.renumber f), outputs.map (·.renumber f), body.renumber f⟩

/-- The same pipeline with other identities, on all its levels. -/
def Pipeline.renumber (f : Nat → Nat) : Pipeline → Pipeline
  | ⟨id, name, options, channels, nodes⟩ =>
    ⟨f id, name, options, channels.map (·.renumber f), renumberAll f nodes⟩

def renumberAll (f : Nat → Nat) : List Node → List Node
  | [] => []
  | n :: rest => n.renumber f :: renumberAll f rest

end

variable {f : Nat → Nat}

lemma renumberAll_eq (f : Nat → Nat) (nodes : List Node) :
    renumberAll f nodes = nodes.map (·.renumber f) := by
  induction nodes with
  | nil => rfl
  | cons n rest ih => rw [renumberAll, ih, List.map_cons]

namespace Pipeline

variable {p : Pipeline}

lemma renumber_eq (f : Nat → Nat) (p : Pipeline) : p.renumber f =
    ⟨f p.id, p.name, p.options, p.channels.map (·.renumber f), p.nodes.map (·.renumber f)⟩ := by
  rw [← renumberAll_eq]
  cases p
  rfl

lemma renumber_declared (p : Pipeline) (c : Channel) :
    ({ p with channels := p.channels ++ [c] } : Pipeline).renumber f =
      { p.renumber f with channels := (p.renumber f).channels ++ [c.renumber f] } := by
  simp [renumber_eq]

lemma renumber_added (p : Pipeline) (n : Node) :
    ({ p with nodes := p.nodes ++ [n] } : Pipeline).renumber f =
      { p.renumber f with nodes := (p.renumber f).nodes ++ [n.renumber f] } := by
  simp [renumber_eq]

/-- Names still find what they found. -/
lemma channel?_renumber (p : Pipeline) (name : String) :
    (p.renumber f).channel? name = (p.channel? name).map (·.renumber f) := by
  simp only [channel?, renumber_eq, List.find?_map]
  rfl

end Pipeline

/-! ### Building at other numbers -/

namespace ChannelDefinition

variable {p q q' : Pipeline} {fresh fresh₁ fresh₁' position k : Nat} {cs : List ChannelDefinition}

lemma declareAllIn_shifted (h : declareAllIn p fresh position cs = .ok (q, fresh₁))
    (h' : declareAllIn (p.renumber (· + k)) (fresh + k) position cs = .ok (q', fresh₁')) :
    q' = q.renumber (· + k) ∧ fresh₁' = fresh₁ + k := by
  induction cs generalizing p fresh position with
  | nil =>
    simp only [declareAllIn, Except.ok.injEq, Prod.mk.injEq] at h h'
    obtain ⟨rfl, rfl⟩ := h
    obtain ⟨rfl, rfl⟩ := h'
    exact ⟨rfl, rfl⟩
  | cons c cs ih =>
    simp only [declareAllIn, Except.bind_eq_ok, Prod.exists] at h h'
    obtain ⟨_, _, hdeclared, h⟩ := h
    obtain ⟨_, _, hdeclared', h'⟩ := h'
    obtain ⟨name, type, hc, -, rfl, rfl⟩ := declareIn_eq_ok.1 hdeclared
    obtain ⟨name', type', hc', -, rfl, rfl⟩ := declareIn_eq_ok.1 hdeclared'
    obtain ⟨rfl, rfl⟩ := hc.unique hc'
    refine ih h ?_
    rw [Pipeline.renumber_declared, Nat.add_right_comm]
    exact h'

end ChannelDefinition

namespace NodeDefinition

variable {registry : Registry} {n : NodeDefinition} {name : String} {p q q' : Pipeline}
  {m m' : Node} {fresh fresh₁ fresh₁' position k : Nat} {ns : List NodeDefinition}
  {cs cs' : List Channel} {names : List String} {node : String}

/-- The same names stand for the channels with the new identities. -/
lemma resolve_renumber (h : resolve p node names = .ok cs)
    (h' : resolve (p.renumber f) node names = .ok cs') : cs' = cs.map (·.renumber f) := by
  obtain ⟨hnames, hfound⟩ := resolve_eq_ok.1 h
  refine Except.ok.inj (h'.symm.trans (resolve_eq_ok.2 ⟨?_, ?_⟩))
  · rw [List.map_map, ← hnames]
    rfl
  · refine List.forall_mem_map.2 fun c hc => ?_
    rw [show (c.renumber f).name = c.name from rfl, p.channel?_renumber, hfound c hc]
    rfl

lemma HasKind.unique {kind kind' : NodeKind} (h : n.HasKind kind) (h' : n.HasKind kind') :
    kind = kind' := by
  have hresolved : n.resolvedKind "" = .ok kind := resolvedKind_eq_ok.2 h
  exact Except.ok.inj (hresolved.symm.trans (resolvedKind_eq_ok.2 h'))

/-- Logic becomes the same body whatever channels it is wired to. -/
lemma ofLogic_renumber {kind : NodeKind} {inputs outputs : List Channel} {logic : Logic}
    (h : Node.ofLogic kind name inputs outputs logic = .ok m)
    (h' : Node.ofLogic kind name (inputs.map (·.renumber f)) (outputs.map (·.renumber f)) logic =
      .ok m') : m' = m.renumber f := by
  unfold Node.ofLogic at h h'
  cases hbody : Node.bodyOf kind logic with
  | error fault => simp [hbody] at h
  | ok body =>
    simp only [hbody] at h h'
    obtain ⟨-, rfl⟩ := Node.checked_iff.1 h
    obtain ⟨-, rfl⟩ := Node.checked_iff.1 h'
    have hplain : body.renumber f = body := by
      unfold Node.bodyOf at hbody
      split at hbody <;> simp only [Except.ok.injEq, reduceCtorEq] at hbody <;> subst hbody <;> rfl
    rw [Node.renumber, hplain]

lemma build_shifted (ih : ∀ inner, n.pipeline = some inner → ∀ item fresh q fresh₁ q' fresh₁',
      inner.build registry item fresh = .ok (q, fresh₁) →
      inner.build registry item (fresh + k) = .ok (q', fresh₁') →
      q' = q.renumber (· + k) ∧ fresh₁' = fresh₁ + k)
    (h : n.build registry p name fresh = .ok (m, fresh₁))
    (h' : n.build registry (p.renumber (· + k)) name (fresh + k) = .ok (m', fresh₁')) :
    m' = m.renumber (· + k) ∧ fresh₁' = fresh₁ + k := by
  obtain ⟨inputs, outputs, kind, hins, houts, hkind, hbody⟩ := (build_eq_ok rfl).1 h
  obtain ⟨inputs', outputs', kind', hins', houts', hkind', hbody'⟩ := (build_eq_ok rfl).1 h'
  obtain rfl := resolve_renumber hins hins'
  obtain rfl := resolve_renumber houts houts'
  obtain rfl := hkind.unique hkind'
  rcases hbody with ⟨key, logic, hkey, hnone, -, hget, -, hm, rfl⟩ |
    ⟨inner, q, -, hinner, -, -, hq, hm⟩ <;>
  rcases hbody' with ⟨key', logic', hkey', hnone', -, hget', -, hm', rfl⟩ |
    ⟨inner', q', -, hinner', -, -, hq', hm'⟩
  · obtain rfl := Option.some.inj (hkey.symm.trans hkey')
    obtain rfl := Option.some.inj (hget.symm.trans hget')
    exact ⟨ofLogic_renumber hm hm', rfl⟩
  · rw [hnone] at hinner'
    cases hinner'
  · rw [hnone'] at hinner
    cases hinner
  · obtain rfl := Option.some.inj (hinner.symm.trans hinner')
    obtain ⟨rfl, rfl⟩ := ih inner hinner _ _ _ _ _ _ hq hq'
    obtain ⟨-, -, rfl⟩ := Node.composite_iff.1 hm
    obtain ⟨-, -, rfl⟩ := Node.composite_iff.1 hm'
    exact ⟨rfl, rfl⟩

lemma addAllTo_shifted (ih : ∀ n ∈ ns, ∀ inner, n.pipeline = some inner →
      ∀ item fresh q fresh₁ q' fresh₁', inner.build registry item fresh = .ok (q, fresh₁) →
      inner.build registry item (fresh + k) = .ok (q', fresh₁') →
      q' = q.renumber (· + k) ∧ fresh₁' = fresh₁ + k)
    (h : addAllTo registry p fresh position ns = .ok (q, fresh₁))
    (h' : addAllTo registry (p.renumber (· + k)) (fresh + k) position ns = .ok (q', fresh₁')) :
    q' = q.renumber (· + k) ∧ fresh₁' = fresh₁ + k := by
  induction ns generalizing p fresh position with
  | nil =>
    simp only [addAllTo, Except.ok.injEq, Prod.mk.injEq] at h h'
    obtain ⟨rfl, rfl⟩ := h
    obtain ⟨rfl, rfl⟩ := h'
    exact ⟨rfl, rfl⟩
  | cons n ns ihns =>
    obtain ⟨ihn, ih⟩ := List.forall_mem_cons.1 ih
    simp only [addAllTo, Except.bind_eq_ok, Except.mapError_eq_ok, required_eq_ok,
      Prod.exists] at h h'
    obtain ⟨name, hname, m, fresh₂, hm, p₂, hp₂, h⟩ := h
    obtain ⟨name', hname', m', fresh₂', hm', p₂', hp₂', h'⟩ := h'
    obtain rfl := Option.some.inj (hname.symm.trans hname')
    obtain ⟨rfl, rfl⟩ := build_shifted ihn hm hm'
    obtain ⟨-, -, rfl⟩ := Pipeline.addNode_eq_ok hp₂
    obtain ⟨-, -, rfl⟩ := Pipeline.addNode_eq_ok hp₂'
    refine ihns ih h ?_
    rwa [Pipeline.renumber_added]

end NodeDefinition

namespace PipelineDefinition

variable {registry : Registry} {d : PipelineDefinition} {item : String}
  {p p' : Pipeline} {fresh fresh₁ fresh₁' k : Nat}

/-- **Two builds of a definition give the same pipeline** but for the identities, which the second
has by `k` higher if it has begun by `k` higher. -/
theorem build_shifted (h : d.build registry item fresh = .ok (p, fresh₁))
    (h' : d.build registry item (fresh + k) = .ok (p', fresh₁')) :
    p' = p.renumber (· + k) ∧ fresh₁' = fresh₁ + k := by
  induction d using nested_induction generalizing item fresh p fresh₁ p' fresh₁' with
  | step d ih =>
    obtain ⟨name, channels, nodes, q, fresh₂, hname, hchannels, hnodes, hq, h⟩ := build_eq_ok.1 h
    obtain ⟨name', channels', nodes', q', fresh₂', hname', hchannels', hnodes', hq', h'⟩ :=
      build_eq_ok.1 h'
    obtain rfl := Option.some.inj (hname.symm.trans hname')
    obtain rfl := Option.some.inj (hchannels.symm.trans hchannels')
    obtain rfl := Option.some.inj (hnodes.symm.trans hnodes')
    rw [Nat.add_right_comm] at hq'
    obtain ⟨rfl, rfl⟩ := ChannelDefinition.declareAllIn_shifted hq hq'
    exact NodeDefinition.addAllTo_shifted (fun n hn inner hinner _ _ _ _ _ _ hb hb' =>
      ih nodes hnodes n hn inner hinner hb hb') h h'

end PipelineDefinition

end Dataflow
