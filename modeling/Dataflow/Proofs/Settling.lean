import Dataflow.Proofs.Smooth

/-!
Where runs in which nothing goes wrong come to rest. A move lets a worker take the first input
that it needs or leaves it what it needs, and a worker without a move is settled or waits for the
run inside it. At the end there are pipelines whose logic answers in full whatever it is called
with.
-/

namespace Dataflow

namespace Worker

variable {k : Worker}

/-- What a worker has still to publish is the end of what its node declares. -/
lemma Upright.owes_suffix (h : k.Upright) : k.owes <:+ k.node.outs := by
  unfold owes
  cases hs : k.stage with
  | sending ready total =>
    rw [Upright, hs] at h
    have hsuf := h.1.map (·.name)
    rwa [List.map_map] at hsuf
  | ended result => exact List.nil_suffix
  | reported result => exact List.nil_suffix
  | _ => exact List.suffix_rfl

lemma Upright.needs_suffix (h : k.Upright) : k.needs <:+ k.node.ins := by
  unfold needs
  cases hs : k.stage with
  | gathering got rest =>
    rw [Upright, hs] at h
    obtain ⟨taken, hins, -⟩ := h
    rw [Node.ins, hins, List.map_append]
    exact List.suffix_append _ _
  | _ => exact List.nil_suffix

end Worker

namespace World

variable {w w₁ v v' : World} {r a : Address} {p : Pipeline} {k : Worker} {seeds : Payload}
  {token : Token}

/-- What a move of such a run makes of the worker `k`: it takes the first of the inputs that it
needs, from a channel with a value, or it needs what it needed; and it comes to owe nothing new. -/
structure Advance (v : World) (k k' : Worker) : Prop where
  node : k'.node = k.node
  owes : k'.owes <:+ k.owes
  needs : k'.needs = k.needs ∨ ∃ c ∈ k.node.inputs, k.needs = c.name :: k'.needs ∧
    (v.conduit c).queue ≠ []

lemma Advance.needs_suffix {k' : Worker} (h : v.Advance k k') : k'.needs <:+ k.needs := by
  rcases h.needs with hsame | ⟨c, -, hneeds, -⟩
  · exact hsame ▸ List.suffix_rfl
  · rw [hneeds]
    exact List.suffix_cons _ _

lemma Smooth.worker_step (h' : w.Smooth v' r p seeds token) (hc : v.Course r p) {m : Move}
    (hm : m.Of r) (hs : v.step? m = some v') (ha : Below r a) (hk : v.workers a = some k) :
    ∃ k', v'.workers a = some k' ∧ v.Advance k k' := by
  have same : v'.workers a = v.workers a → ∃ k', v'.workers a = some k' ∧ v.Advance k k' :=
    fun hw => ⟨k, hw.trans hk, rfl, List.suffix_rfl, .inl rfl⟩
  rcases step_cases hm hs with ⟨x, k₀, expired, -, hx, hk₀, hst⟩ | ⟨b, _, _, -, -, ht, -⟩
  · by_cases hax : a = x
    · subst hax
      obtain rfl := Option.some.inj (hk.symm.trans hk₀)
      have fails : ∀ {e : ExecutionError} {f : Nat → Conduit Address},
          ¬ v.Shift v' a k (.ended (.error e)) f := by
        intro e f hsh
        have hup := h'.upright a { k with stage := .ended (.error e) } ha
          (by rw [hsh.workers, update_same])
        simp [Worker.Upright] at hup
      have moved : ∀ {s : Stage} {f : Address → Option Worker},
          v'.workers = update f a (some { k with stage := s }) →
          ({ k with stage := s } : Worker).needs = k.needs →
          k.owes = k.node.outs ∨ ({ k with stage := s } : Worker).owes <:+ k.owes →
          ∃ k', v'.workers a = some k' ∧ v.Advance k k' := by
        intro s f hw hneeds howes
        have hk' := (congrFun hw a).trans (update_same _ _ _)
        refine ⟨_, hk', rfl, howes.elim (fun hall => ?_) id, .inl hneeds⟩
        -- whoever owes everything can only come to owe a part of it
        exact hall ▸ (h'.upright a _ ha hk').owes_suffix
      have hsuits := hc.tree.suits a k ha hk
      cases hst with
      | linedUp stage alive empty new hsh =>
        exact same (by rw [hsh.workers, update_same, hk])
      | @took got c rest q₁ q₂ x stage alive permit pop hsh =>
        rw [stage] at hsuits
        refine ⟨_, (congrFun hsh.workers a).trans (update_same _ _ _), rfl, ?_,
          .inr ⟨c, ?_, ?_, ?_⟩⟩
        · have howes : k.owes = k.node.outs := by rw [Worker.owes, stage]
          have howes' : ({ k with stage := k.node.gather (got.insert c.name x) rest } :
              Worker).owes = k.node.outs := Worker.owes_gather rfl
          exact (howes'.trans howes.symm) ▸ List.suffix_rfl
        · exact hsuits.2.subset List.mem_cons_self
        · have hneeds : k.needs = c.name :: rest.map (·.name) := by rw [Worker.needs, stage]; rfl
          have hneeds' : ({ k with stage := k.node.gather (got.insert c.name x) rest } :
              Worker).needs = rest.map (·.name) := Worker.needs_gather rfl
          rw [hneeds, hneeds']
        · rw [Conduit.queue_take permit pop]
          simp
      | foundNothing stage permit pop hsh => exact absurd hsh fails
      | gaveUp stage why hsh => exact absurd hsh fails
      | entered stage new entry =>
        exact moved entry.workers (by simp only [Worker.needs, stage])
          (.inl (by simp only [Worker.owes, stage]))
      | told stage ht =>
        exact moved ht.workers (by simp only [Worker.needs, stage]) (.inr List.nil_suffix)
      | called stage reply hsh =>
        exact moved hsh.workers (by simp only [Worker.needs, stage])
          (.inl (by simp only [Worker.owes, stage]))
      | left stage inner_run returned taken hsh =>
        exact moved hsh.workers (by simp only [Worker.needs, stage])
          (.inl (by simp only [Worker.owes, stage]))
      | checked stage fits hsh =>
        exact moved hsh.workers (by simp only [Worker.needs, stage])
          (.inl (by simp only [Worker.owes, stage]))
      | sent stage fits hsh =>
        refine moved hsh.workers (by simp only [Worker.needs, stage]) (.inr ?_)
        simp only [Worker.owes, stage, List.map_cons]
        exact List.suffix_cons _ _
      | finished stage hsh =>
        exact moved hsh.workers (by simp only [Worker.needs, stage]) (.inr List.nil_suffix)
      | _ => exact absurd (by assumption : v.Shift v' a k (.ended (.error _)) _) fails
    · rcases hc.tree.worker_of_ne hx hk₀ hst hax with hw | ⟨hn, -⟩
      · exact same hw
      · rw [hn] at hk
        cases hk
  · exact same (by rw [ht.workers])

/-- The worker has succeeded, or it waits on a channel on which nothing is. -/
def Settled (v : World) (a : Address) (k : Worker) : Prop :=
  k.stage = .reported (.ok ()) ∨ ∃ got c rest, k.stage = .gathering got (c :: rest) ∧
    (v.conduit c).queue = [] ∧ a ∈ (v.conduit c).waiting

/-- The worker at `o` is in line nowhere in the pipeline. -/
def Aloof (v : World) (p : Pipeline) (o : Address) : Prop :=
  ∀ path q c, p.level? path = some q → c ∈ q.channels → o ∉ (v.conduit c).line

lemma Smooth.aloof_nil (h : w.Smooth v r p seeds token) : v.Aloof p [] :=
  fun path q c hq hc hmem => h.guests path q c hq hc [] hmem

/-- In such a run a worker without a step is settled, or it waits for the run inside it. -/
lemma Smooth.worker_of_resting {o : Address} (h : w.Smooth v r p seeds token)
    (hc : v.Course r p) (ho : w.Outset w₁ r p seeds token) (hrest : v.Resting r o)
    (haloof : v.Aloof p o) (ha : Below r a) (hne : a ≠ o) (hk : v.workers a = some k) :
    v.Settled a k ∨ ∃ inner below, k.stage = .inside inner ∧ v.runs a = some below ∧
      Nested k.node k.token below ∧ ¬ below.Over := by
  rcases World.worker_of_resting hc.tree hrest ha hne hk with ⟨result, hs⟩ | hin | ⟨c, hb⟩
  · have hup := h.upright a k ha hk
    rw [Worker.Upright, hs] at hup
    exact .inl (.inl (hup ▸ hs))
  · exact .inr hin
  · obtain ⟨got, rest, hs⟩ := hb.stage
    obtain ⟨i, path, run, rfl, hp⟩ := exists_place hc.tree ha hk
    have hsuits := hc.tree.suits _ k ha hk
    rw [hs] at hsuits
    have hmem := hp.input ho.ready (hsuits.2.subset List.mem_cons_self)
    refine .inl (.inr ⟨got, c, rest, hs, queue_of_blocked hc hrest (fun g hg => ?_) hb, hb.waits⟩)
    have hline : g ∈ (v.conduit c).line := List.mem_append_right _ hg
    refine ⟨h.guests _ _ c hp.level hmem g hline, ?_⟩
    rintro rfl
    exact haloof _ _ c hp.level hmem hline

end World

/-- Logic anywhere in the pipeline that returns a fitting value for each output, whatever it is
called with. -/
def Pipeline.Obliging (p : Pipeline) : Prop :=
  ∀ path q n logic, p.level? path = some q → n ∈ q.nodes → n.logic? = some logic →
    ∀ calls inputs, ∃ outputs, (logic.act calls inputs).reply = .returned outputs ∧
      outputs.Yields n.outputs

lemma Pipeline.Obliging.answers {p : Pipeline} {v : World} {r : Address} (h : p.Obliging)
    (ht : v.Tree r p) : v.Answers r := by
  intro a k logic inputs ha hk hs
  obtain ⟨i, path, run, -, -, hpost, hlevel⟩ := ht.place ha hk
  have hsuits := ht.suits a k ha hk
  rw [hs] at hsuits
  exact h path _ _ logic hlevel (List.mem_of_getElem? hpost.node) hsuits v.calls inputs

lemma World.Outset.answers {w w₁ : World} {r : Address} {p : Pipeline} {seeds : Payload}
    {token : Token} (ho : w.Outset w₁ r p seeds token) (h : p.Obliging) {ms : List Move}
    {v : World} (hplay : w₁.Plays r World.Alone ms v) : v.Answers r :=
  h.answers (ho.course hplay).tree

/-- Logic that returns a text under every name, whatever it is called with. -/
def Logic.chatter (shape : Shape) (names : List String) : Logic :=
  .pure shape fun _ => .returned (.ofList (names.map fun x => (x, .text "")))

/-- The logic of the node returns texts, and its outputs are for texts. -/
def Node.Chatty (n : Node) : Prop :=
  ∀ logic, n.logic? = some logic →
    (∃ shape, logic = .chatter shape n.outs) ∧ ∀ c ∈ n.outputs, c.type = .text

lemma Pipeline.obliging_of_chatty {p : Pipeline}
    (h : ∀ path q, p.level? path = some q → ∀ n ∈ q.nodes, n.Chatty) : p.Obliging := by
  intro path q n logic hq hn hl calls inputs
  obtain ⟨⟨shape, rfl⟩, htypes⟩ := h path q hq n hn logic hl
  refine ⟨_, rfl, fun c hc => ⟨.text "", ?_, ?_⟩⟩
  · have hname : c.name ∈ n.outs := List.mem_map_of_mem hc
    rw [Payload.get?_ofList_map, if_pos hname]
  · rw [htypes c hc]
    rfl

lemma Node.chatty {n : Node} {shape : Shape} (h : n.logic? = some (.chatter shape n.outs))
    (htypes : ∀ c ∈ n.outputs, c.type = .text) : n.Chatty := fun _ hl =>
  ⟨⟨shape, Option.some.inj (hl.symm.trans h)⟩, htypes⟩

/-- A pipeline as it can be built, without composites and with logic that returns texts. -/
structure Pipeline.Plain (p : Pipeline) : Prop where
  names : (p.channels.map (·.name)).Nodup
  ids : (p.channels.map (·.id)).Nodup
  labels : (p.nodes.map (·.name)).Nodup
  nodes : ∀ n ∈ p.nodes,
    n.wiringFault? = none ∧ p.foreign? n = none ∧ n.inner? = none ∧ n.Chatty

namespace Pipeline.Plain

variable {p : Pipeline} {w₁ : World} {r : Address} {seeds : Payload} {token : Token}

lemma sound (h : p.Plain) : p.Sound :=
  ⟨h.names, h.ids, h.labels, fun n hn => (h.nodes n hn).1, fun n hn => (h.nodes n hn).2.1⟩

lemma outset (h : p.Plain) (ht : p.options.receiveTimeout = none)
    (hstart : World.initial.start r p seeds token true = .ok w₁) :
    World.initial.Outset w₁ r p seeds token :=
  World.outset_of_flat h.sound (fun n hn => (h.nodes n hn).2.2.1) ht hstart

lemma obliging (h : p.Plain) : p.Obliging := by
  refine obliging_of_chatty fun path q hq => ?_
  obtain ⟨-, rfl⟩ := Flat.level? (fun n hn => (h.nodes n hn).2.2.1) hq
  exact fun n hn => (h.nodes n hn).2.2.2

end Pipeline.Plain

end Dataflow
