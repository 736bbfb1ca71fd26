import Dataflow.Proofs.Checks
import Dataflow.Proofs.Launch

/-!
What building a pipeline sees to. On every level names and identities are unique, nodes are wired
soundly and only to channels of their own level; a composite fits what it wraps; levels have
nothing in common; and before the run nobody is in line anywhere inside.
-/

namespace Dataflow

/-- The payload has a value for each of the channels, and each channel accepts its own. -/
def Payload.Yields (produced : Payload) (cs : List Channel) : Prop :=
  ∀ c ∈ cs, ∃ v, produced.get? c.name = some v ∧ c.type.accepts v = true

namespace Node

variable {n : Node}

lemma nodup_of_wiringFault? (h : n.wiringFault? = none) : n.ins.Nodup ∧ n.outs.Nodup := by
  obtain ⟨-, -, hins, houts, -⟩ := wiringFault?_eq_none.1 h
  exact ⟨hins, houts⟩

/-- A sink publishes nothing. -/
lemma outputs_of_sink (h : n.wiringFault? = none) (hk : n.kind = .sink) : n.outputs = [] := by
  obtain ⟨-, hadmits, -⟩ := wiringFault?_eq_none.1 h
  rw [hk] at hadmits
  exact List.map_eq_nil_iff.1 hadmits.2

end Node

namespace Pipeline

/-- A level as `declare`, `Node.checked` and `addNode` leave it. -/
structure Sound (q : Pipeline) : Prop where
  names : (q.channels.map (·.name)).Nodup
  ids : (q.channels.map (·.id)).Nodup
  labels : (q.nodes.map (·.name)).Nodup
  wired : ∀ n ∈ q.nodes, n.wiringFault? = none
  native : ∀ n ∈ q.nodes, q.foreign? n = none

variable {q inner : Pipeline} {n : Node} {c d : Channel}

lemma name_mem_reads {ns : List Node} (hn : n ∈ ns) (hc : c ∈ n.inputs) : c.name ∈ reads ns :=
  List.mem_flatMap.2 ⟨n, hn, List.mem_map_of_mem hc⟩

lemma name_mem_writes {ns : List Node} (hn : n ∈ ns) (hc : c ∈ n.outputs) : c.name ∈ writes ns :=
  List.mem_flatMap.2 ⟨n, hn, List.mem_map_of_mem hc⟩

lemma Sound.nodup_nodes (h : q.Sound) : q.nodes.Nodup := .of_map _ h.labels

lemma Sound.channel? (h : q.Sound) (hn : n ∈ q.nodes) (hc : c ∈ n.channels) :
    q.channel? c.name = some c := by
  simpa using List.find?_eq_none.1 (h.native n hn) c hc

lemma Sound.input (h : q.Sound) (hn : n ∈ q.nodes) (hc : c ∈ n.inputs) :
    q.channel? c.name = some c := h.channel? hn (List.mem_append_left _ hc)

lemma Sound.output (h : q.Sound) (hn : n ∈ q.nodes) (hc : c ∈ n.outputs) :
    q.channel? c.name = some c := h.channel? hn (List.mem_append_right _ hc)

lemma Sound.mem_input (h : q.Sound) (hn : n ∈ q.nodes) (hc : c ∈ n.inputs) : c ∈ q.channels :=
  (mem_of_channel? (h.input hn hc)).1

lemma Sound.mem_output (h : q.Sound) (hn : n ∈ q.nodes) (hc : c ∈ n.outputs) : c ∈ q.channels :=
  (mem_of_channel? (h.output hn hc)).1

lemma Sound.nodup_inputs (h : q.Sound) (hn : n ∈ q.nodes) : n.inputs.Nodup :=
  .of_map _ (Node.nodup_of_wiringFault? (h.wired n hn)).1

lemma Sound.eq_of_name (h : q.Sound) (hc : c ∈ q.channels) (hd : d ∈ q.channels)
    (heq : c.name = d.name) : c = d :=
  List.inj_on_of_nodup_map h.names hc hd heq

lemma Sound.eq_of_id (h : q.Sound) (hc : c ∈ q.channels) (hd : d ∈ q.channels)
    (heq : c.id = d.id) : c = d :=
  List.inj_on_of_nodup_map h.ids hc hd heq

/-- Where names do not repeat, a channel of the level is found under its name. -/
lemma channel?_of_mem (hnd : (q.channels.map (·.name)).Nodup) (hc : c ∈ q.channels) :
    q.channel? c.name = some c := by
  cases hd : q.channel? c.name with
  | none =>
    have := List.find?_eq_none.1 hd c hc
    simp at this
  | some d =>
    obtain ⟨hmem, hname⟩ := mem_of_channel? hd
    rw [List.inj_on_of_nodup_map hnd hmem hc hname]

lemma Sound.channel?_self (h : q.Sound) (hc : c ∈ q.channels) : q.channel? c.name = some c :=
  channel?_of_mem h.names hc

lemma Sound.supply (h : q.Sound) (hc : c ∈ q.channels) (queued : Channel → Nat)
    (seeded : List String) :
    q.supply queued seeded c.name = queued c + if c.name ∈ seeded then 1 else 0 := by
  simp only [Pipeline.supply, counts, h.channel?_self hc]

/-- No node of the pipeline is a composite. -/
def Flat (p : Pipeline) : Prop := ∀ n ∈ p.nodes, n.inner? = none

lemma Flat.level? {p : Pipeline} {path : Address} (h : p.Flat) (hq : p.level? path = some q) :
    path = [] ∧ q = p := by
  induction path generalizing q with
  | nil => exact ⟨rfl, (Option.some.inj hq).symm⟩
  | cons i path ih =>
    obtain ⟨q', n, hq', hn, hi⟩ := level?_cons_inv hq
    obtain ⟨-, rfl⟩ := ih hq'
    rw [h n (List.mem_of_getElem? hn)] at hi
    cases hi

/-- `inner` fits behind a node with these inputs and outputs, and is accepted with the inputs as
seeds. -/
structure Fits (inner : Pipeline) (queued : Channel → Nat) (inputs outputs : List Channel) :
    Prop where
  consumed : ∀ c ∈ inputs, c.name ∈ reads inner.nodes
  produced : ∀ c ∈ outputs, c.name ∈ writes inner.nodes
  unread : ∀ c ∈ outputs, c.name ∉ reads inner.nodes
  types : ∀ c ∈ inputs ++ outputs, ∀ d, inner.channel? c.name = some d → d.type = c.type
  accepted : inner.checkSatisfiable queued (inputs.map (·.name)) = .ok ()

theorem fits_of_boundaryFault? {queued : Channel → Nat} {inputs outputs : List Channel}
    (h : inner.boundaryFault? queued false inputs outputs = none) :
    inner.Fits queued inputs outputs := by
  obtain ⟨hins, houts, htypes, hsat⟩ := boundaryFault?_eq_none.1 h
  exact ⟨fun c hc => ((hins _).1 (List.mem_map_of_mem hc)).1,
    fun c hc => (houts _ (List.mem_map_of_mem hc)).1,
    fun c hc => (houts _ (List.mem_map_of_mem hc)).2, htypes, hsat⟩

/-- Whatever is read or written on a sound level is declared there. -/
lemma Sound.declared (h : q.Sound) {x : String} (hx : x ∈ reads q.nodes ∨ x ∈ writes q.nodes) :
    ∃ c ∈ q.channels, c.name = x ∧ q.channel? x = some c := by
  rcases hx with hx | hx
  · obtain ⟨n, hn, hx⟩ := List.mem_flatMap.1 hx
    obtain ⟨c, hc, rfl⟩ := List.mem_map.1 hx
    exact ⟨c, h.mem_input hn hc, rfl, h.input hn hc⟩
  · obtain ⟨n, hn, hx⟩ := List.mem_flatMap.1 hx
    obtain ⟨c, hc, rfl⟩ := List.mem_map.1 hx
    exact ⟨c, h.mem_output hn hc, rfl, h.output hn hc⟩

end Pipeline

namespace World

/-- The pipeline is as it was built in this world, and nothing has touched it since. -/
structure Ready (w : World) (p : Pipeline) : Prop where
  sound : ∀ path q, p.level? path = some q → q.Sound
  /-- Each composite was checked when it was made, and no value was taken from inside since. -/
  fitting : ∀ path q n inner, p.level? path = some q → n ∈ q.nodes → n.inner? = some inner →
    w.started inner.id = false ∧ ∃ queued, (∀ c ∈ inner.channels, queued c ≤ w.queued c) ∧
      inner.boundaryFault? queued false n.inputs n.outputs = none
  apart : ∀ path path' q q', p.level? path = some q → p.level? path' = some q' → path ≠ path' →
    q.id ≠ q'.id ∧ ∀ c ∈ q.channels, ∀ d ∈ q'.channels, c.id ≠ d.id
  calm : ∀ path q c, p.level? path = some q → c ∈ q.channels → (w.conduit c).Calm
  typed : ∀ path q c, p.level? path = some q → c ∈ q.channels →
    ∀ v ∈ (w.conduit c).queue, c.type.accepts v = true

lemma Ready.fits {w : World} {p q inner : Pipeline} {path : Address} {n : Node} (h : w.Ready p)
    (hq : p.level? path = some q) (hn : n ∈ q.nodes) (hi : n.inner? = some inner) :
    w.started inner.id = false ∧ inner.Fits w.queued n.inputs n.outputs := by
  obtain ⟨hnew, queued, hle, hfault⟩ := h.fitting path q n inner hq hn hi
  have hfits := Pipeline.fits_of_boundaryFault? hfault
  obtain ⟨i, hi'⟩ := List.mem_iff_getElem?.1 hn
  have hsound := h.sound _ _ (Pipeline.level?_cons hq hi' hi)
  exact ⟨hnew, hfits.consumed, hfits.produced, hfits.unread, hfits.types,
    Pipeline.checkSatisfiable_mono hsound.nodup_nodes hle hfits.accepted⟩

/-- A channel identity belongs to one level only. -/
lemma Ready.level_eq {w : World} {p q q' : Pipeline} {path path' : Address} {c d : Channel}
    (h : w.Ready p) (hq : p.level? path = some q) (hq' : p.level? path' = some q')
    (hc : c ∈ q.channels) (hd : d ∈ q'.channels) (hid : c.id = d.id) : path = path' := by
  by_contra hne
  exact (h.apart path path' q q' hq hq' hne).2 c hc d hd hid

/-- Without composites, nothing but the wiring of the one level has to be seen to. -/
lemma ready_of_flat {w : World} {p : Pipeline} (hs : p.Sound) (hflat : p.Flat)
    (hcalm : ∀ c ∈ p.channels, (w.conduit c).Calm)
    (htyped : ∀ c ∈ p.channels, ∀ v ∈ (w.conduit c).queue, c.type.accepts v = true) :
    w.Ready p where
  sound path q hq := by
    obtain ⟨-, rfl⟩ := hflat.level? hq
    exact hs
  fitting path q n inner hq hn hi := by
    obtain ⟨-, rfl⟩ := hflat.level? hq
    rw [hflat n hn] at hi
    cases hi
  apart path path' q q' hq hq' hne := by
    obtain ⟨rfl, -⟩ := hflat.level? hq
    obtain ⟨rfl, -⟩ := hflat.level? hq'
    exact absurd rfl hne
  calm path q c hq hc := by
    obtain ⟨-, rfl⟩ := hflat.level? hq
    exact hcalm c hc
  typed path q c hq hc := by
    obtain ⟨-, rfl⟩ := hflat.level? hq
    exact htyped c hc

end World

end Dataflow
