import Dataflow.Proofs.Starvation

/-!
Types of values. A channel takes only values of its type, whoever sends them, so that whatever is
taken from it is of that type as well; and what a node hands to its body is what it has taken from
its inputs, one value from each.

Main statement: at all times, on every level, each value on a channel is of the channel's type, and
whatever logic was called with or an inner pipeline was seeded with has the names of the node's
inputs as its keys, each with a value of that channel's type (`values_conform`).
-/

namespace Dataflow

/-- What the worker holds fits its node: a value for each input that it has taken so far, and in the
end checked values for outputs. What its body has produced can be anything. -/
def Worker.Fitting (k : Worker) : Prop :=
  match k.stage with
  | .gathering got rest => ∃ taken, taken ++ rest = k.node.inputs ∧ got.Holds taken
  | .calling _ inputs => inputs.Holds k.node.inputs
  | .entering _ inputs => inputs.Holds k.node.inputs
  | .sending ready _ => ∀ e ∈ ready, e.1 ∈ k.node.outputs ∧ e.1.type.accepts e.2 = true
  | _ => True

lemma Worker.fitting_gather {k : Worker} {got : Payload} {taken rest : List Channel}
    (hs : k.stage = k.node.gather got rest) (hi : taken ++ rest = k.node.inputs)
    (hg : got.Holds taken) : k.Fitting := by
  unfold Fitting
  rw [hs]
  rcases k.node.gather_cases got rest with
    ⟨c, cs, rfl, hgather⟩ | ⟨rfl, ⟨logic, -, hgather⟩ | ⟨inner, -, hgather⟩⟩ <;> rw [hgather]
  · exact ⟨taken, hi, hg⟩
  · rw [List.append_nil] at hi
    exact hi ▸ hg
  · rw [List.append_nil] at hi
    exact hi ▸ hg

lemma Worker.fitting_new (n : Node) (token : Token) (limit : Option Duration) :
    (Worker.new n token limit).Fitting :=
  fitting_gather rfl rfl Payload.holds_empty

/-- Each entry is of the type of the channel that the pipeline has under its name. -/
def Pipeline.Receives (p : Pipeline) (seeds : Payload) : Prop :=
  ∀ e ∈ seeds.entries, ∃ c, p.channel? e.1 = some c ∧ c.type.accepts e.2 = true

/-- The values that a deed moves are of the right type: what goes through a channel is of the type
of the channel, and what a body is given is one value for each input of its node. -/
def Deed.Fitting (p : Pipeline) (r : Address) : Deed → Prop
  | took _ c x => c.type.accepts x = true
  | gained _ c x => c.type.accepts x = true
  | sent _ c x => c.type.accepts x = true
  | called a inputs _ => ∃ path n logic, a = path ++ r ∧ p.post? path = some n ∧
      n.logic? = some logic ∧ inputs.Holds n.inputs
  | entered a inputs => ∃ path n inner, a = path ++ r ∧ p.post? path = some n ∧
      n.inner? = some inner ∧ inputs.Holds n.inputs ∧ inner.Receives inputs
  | _ => True

lemma Conduit.queue_tryReceive_subset {ι : Type} (q : Conduit ι) :
    q.tryReceive.2.queue ⊆ q.queue := by
  unfold tryReceive takeFree?
  by_cases hf : 0 < q.free
  · simp only [hf, if_true]
    cases hp : ({ q with free := q.free - 1 } : Conduit ι).pop? with
    | none => exact List.Subset.refl _
    | some e =>
      have hq : q.queue = e.1 :: e.2.queue := (pop?_eq_some hp).1
      exact hq ▸ List.subset_cons_self _ _
  · simp only [hf, if_false]
    exact List.Subset.refl _

namespace World

variable {w w₁ w' v u : World} {r a b : Address} {p q inner : Pipeline} {k : Worker}
  {ds es : List Deed} {c : Channel} {d : Conduit Address} {seeds inputs : Payload} {path : Address}
  {x : Nat} {y : Value} {token : Token}

/-! ### What others may do -/

/-- Others run whatever else there is, cancel what they like, and send to the channels of the
pipeline and receive from them; but what they send has been checked. -/
structure Guarded (p : Pipeline) (r : Address) (v u : World) : Prop where
  outside : v.Outside r u
  values : ∀ path q c, p.level? path = some q → c ∈ q.channels →
    ∀ y ∈ (u.conduit c).queue, y ∈ (v.conduit c).queue ∨ c.type.accepts y = true

lemma HandsOff.guarded (h : HandsOff p r v u) : Guarded p r v u where
  outside := h.outside
  values path q c hq hc _ hy := .inl (h.channels path q c hq hc ▸ hy)

/-- Others deal with one channel. -/
lemma guarded_of_setConduit (ho : v.Outside r (v.setConduit c d))
    (hnew : ∀ y ∈ d.queue, y ∈ (v.conduit c).queue ∨ ∀ path q e, p.level? path = some q →
      e ∈ q.channels → e.id = c.id → e.type.accepts y = true) :
    Guarded p r v (v.setConduit c d) where
  outside := ho
  values path q e hq he y hy := by
    by_cases hid : e.id = c.id
    · have hd : (v.setConduit c d).conduit e = d := by
        rw [conduit, hid]
        exact conduit_setConduit_same v c d
      rw [hd] at hy
      have hold : v.conduit e = v.conduit c := by rw [conduit, hid, conduit]
      rw [hold]
      exact (hnew y hy).imp_right fun h => h path q e hq he hid
    · rw [conduit_setConduit_of_ne hid] at hy
      exact .inl hy

/-- A value sent by hand was checked against the type of the channel, and a channel of the pipeline
is known by its identity. -/
theorem guarded_send (hown : ∀ path q e, p.level? path = some q → e ∈ q.channels → e.id = c.id →
    e = c) (h : v.send c y = .ok u) : Guarded p r v u := by
  have ho : v.Outside r u := outside_send h
  unfold send at h
  cases hy : c.check y with
  | error fault => simp [hy, bind, Except.bind] at h
  | ok _ =>
    simp only [hy, bind, Except.bind, pure, Except.pure, Except.ok.injEq] at h
    subst h
    refine guarded_of_setConduit ho fun z hz => ?_
    rw [Conduit.queue_send, List.mem_append, List.mem_singleton] at hz
    refine hz.imp_right ?_
    rintro rfl path q e hq he hid
    exact hown path q e hq he hid ▸ Channel.check_eq_ok_iff.1 hy

theorem guarded_tryReceive (v : World) (c : Channel) : Guarded p r v (v.tryReceive c).2 :=
  guarded_of_setConduit (outside_tryReceive v r c) fun _ hy =>
    .inl (Conduit.queue_tryReceive_subset _ hy)

theorem guarded_poll {o : Address} (ho : ¬ Below r o) (v : World) (c : Channel)
    (token : Option Token) (expired : Option Duration) :
    Guarded p r v (v.poll o c token expired).2 := by
  have houtside := outside_poll ho v c token expired
  obtain ⟨q, hq, hsub⟩ : ∃ q, (v.poll o c token expired).2 = v.setConduit c q ∧
      q.queue ⊆ (v.conduit c).queue := by
    unfold poll
    split
    · exact ⟨_, rfl, by rw [Conduit.queue_abandon]; exact List.Subset.refl _⟩
    · split
      · next permit hu =>
        have hpermit : permit.queue = (v.conduit c).queue := by
          rcases Conduit.usePermit?_eq_some hu with ⟨-, rfl⟩ | ⟨-, -, rfl⟩ <;> rfl
        split
        · next hp =>
          refine ⟨_, rfl, ?_⟩
          rw [← hpermit, (Conduit.pop?_eq_some hp).1]
          exact List.subset_cons_self _ _
        · exact ⟨_, rfl, hpermit ▸ List.Subset.refl _⟩
      · split
        · exact ⟨_, rfl, by rw [Conduit.queue_abandon]; exact List.Subset.refl _⟩
        · split
          · exact ⟨v.conduit c, (by rw [setConduit, conduit, update_self rfl]),
              List.Subset.refl _⟩
          · exact ⟨_, rfl, List.Subset.refl _⟩
  rw [hq] at houtside ⊢
  exact guarded_of_setConduit houtside fun _ hy => .inl (hsub hy)

theorem guarded_leaveLine {o : Address} (ho : ¬ Below r o) (v : World) (c : Channel) :
    Guarded p r v (v.leaveLine o c) :=
  guarded_of_setConduit (outside_leaveLine ho v c) fun _ hy =>
    .inl (by rwa [Conduit.queue_abandon] at hy)

/-! ### Where values come from -/

/-- A value that was not on the channel before was sent there by a worker, or is a seed. -/
lemma Doing.arrival (h : w.Doing w' a k es) (ho : ∀ z, (w.conduits z).Orderly)
    (hy : y ∈ (w'.conduits x).queue) : y ∈ (w.conduits x).queue ∨
      (∃ c rest total, k.stage = .sending ((c, y) :: rest) total ∧ c.id = x) ∨
      ∃ inner inputs id, k.stage = .entering inner inputs ∧ w.Entered w' a k inner id inputs := by
  have same : w'.conduits = w.conduits → y ∈ (w.conduits x).queue := fun hsame => hsame ▸ hy
  cases h with
  | waited stage hsh queues =>
    rw [hsh.conduits, queues] at hy
    exact .inl hy
  | @took got c rest z f stage hsh queue others =>
    rw [hsh.conduits] at hy
    by_cases hx : x = c.id
    · subst hx
      exact .inl (queue ▸ List.mem_cons_of_mem _ hy)
    · exact .inl (others x hx ▸ hy)
  | failed early hsh queues =>
    rw [hsh.conduits, queues] at hy
    exact .inl hy
  | called stage reply hsh => exact .inl (same hsh.conduits)
  | crashed stage reply hsh => exact .inl (same hsh.conduits)
  | entered stage entry => exact .inr (.inr ⟨_, _, _, stage, entry⟩)
  | left stage inner_run finished taken hsh =>
    rw [hsh.conduits] at hy
    exact .inl ((queue_takeOutputs _ _ _ _ ho x).subset hy)
  | missed stage hsh =>
    rw [hsh.conduits] at hy
    exact .inl ((queue_takeOutputs _ _ _ _ ho x).subset hy)
  | checked stage fits hsh => exact .inl (same hsh.conduits)
  | @sent c z rest total stage hsh =>
    rw [hsh.conduits] at hy
    by_cases hx : x = c.id
    · subst hx
      rw [update_same, Conduit.queue_send, List.mem_append, List.mem_singleton] at hy
      rcases hy with hy | rfl
      · exact .inl hy
      · exact .inr (.inl ⟨c, rest, total, stage, rfl⟩)
    · rw [update_of_ne hx] at hy
      exact .inl hy
  | unsent stage misfit hsh => exact .inl (same hsh.conduits)
  | finished stage hsh => exact .inl (same hsh.conduits)
  | told stage told => exact .inl (same told.conduits)

/-- What a composite collects was on the channels inside. -/
lemma mem_queue_of_mem_collections (ho : ∀ z, (w.conduits z).Orderly)
    (hsep : ∀ e ∈ inner.channels, e.id = c.id → e = c) {outs : List Channel}
    (h : (c, y) ∈ w.collections inner outs) : y ∈ (w.conduit c).queue := by
  have hflow : (w.conduits c.id).queue = valuesOn (w.collections inner outs) c ++
      ((w.takeOutputs inner .empty outs).2.conduits c.id).queue := queue_collections ho hsep .empty
  have hmem : y ∈ valuesOn (w.collections inner outs) c :=
    List.mem_map.2 ⟨(c, y), List.mem_filter.2 ⟨h, by simp⟩, rfl⟩
  rw [conduit, hflow]
  exact List.mem_append_left _ hmem

/-! ### The run -/

/-- Every value of a level is of the type of the channel that it waits on. -/
def Conforms (v : World) (p : Pipeline) : Prop :=
  ∀ path q c, p.level? path = some q → c ∈ q.channels →
    ∀ y ∈ (v.conduit c).queue, c.type.accepts y = true

/-- Seeds that were checked join values of their type. -/
lemma Conforms.sow (h : v.Conforms p) (hlaid : p.Laid) (hq : p.level? path = some q)
    (hreceives : q.Receives seeds) (hu : u.conduits = q.sow seeds.entries v.conduits) :
    u.Conforms p := by
  intro path' q' c hq' hc y hy
  rw [conduit, hu] at hy
  by_cases hmem : ∃ d ∈ q.channels, d.id = c.id
  · obtain ⟨d, hd, hid⟩ := hmem
    obtain rfl := hlaid.eq_of_id hq hq' hd hc hid
    refine typed_sow (hlaid.sound _ _ hq) (fun e he d' hd' => ?_) hd (h path' q' d hq' hc) y hy
    obtain ⟨d, hd, hacc⟩ := hreceives e he
    exact Option.some.inj (hd.symm.trans hd') ▸ hacc
  · rw [Pipeline.sow_of_forall_ne fun d hd hid => hmem ⟨d, hd, hid⟩] at hy
    exact h path' q' c hq' hc y hy

/-- Wherever a value of the run at `r` is, or has been, its type allows it to be there. -/
structure Typing (v : World) (r : Address) (p : Pipeline) (ds : List Deed) : Prop where
  queued : v.Conforms p
  held : ∀ a k, Below r a → v.workers a = some k → k.Fitting
  done : ∀ d ∈ ds, d.Fitting p r

/-- A worker goes on to a stage that fits its node again. -/
lemma Typing.stage (h : v.Typing r p ds) (hlaid : p.Laid) (hc : v.Course r p) (ha : Below r a)
    (hk : v.workers a = some k) (hdo : v.Doing u a k es) :
    ∀ k', u.workers a = some k' → k'.Fitting := by
  have hfit := h.held a k ha hk
  unfold Worker.Fitting at hfit
  have shift : ∀ {s : Stage} {f : Nat → Conduit Address}, v.Shift u a k s f →
      ({ k with stage := s } : Worker).Fitting → ∀ k', u.workers a = some k' → k'.Fitting := by
    intro s f hsh hs k' hk'
    rw [hsh.workers, update_same] at hk'
    exact Option.some.inj hk' ▸ hs
  cases hdo with
  | waited stage hsh => exact shift hsh (h.held a k ha hk)
  | @took got c rest y f stage hsh queue =>
    rw [stage] at hfit
    obtain ⟨taken, hins, hholds⟩ := hfit
    obtain ⟨i, path, run, rfl, -, hpost, hlevel⟩ := hc.tree.place ha hk
    have hnode := List.mem_of_getElem? hpost.node
    have hin : c ∈ k.node.inputs := hins ▸ List.mem_append_right _ List.mem_cons_self
    have hy : c.type.accepts y = true :=
      h.queued _ _ c hlevel (hlaid.input hlevel hnode hin) y (by
        rw [conduit, queue]
        exact List.mem_cons_self)
    have hnew : c.name ∉ taken.map (·.name) := by
      have hnd := (Node.nodup_of_wiringFault? ((hlaid.sound _ _ hlevel).wired _ hnode)).1
      rw [Node.ins, ← hins, List.map_append, List.nodup_append] at hnd
      exact fun hmem => hnd.2.2 _ hmem c.name List.mem_cons_self rfl
    exact shift hsh (Worker.fitting_gather rfl (by simpa using hins) (hholds.insert hy hnew))
  | failed early hsh => exact shift hsh trivial
  | called stage reply hsh => exact shift hsh trivial
  | crashed stage reply hsh => exact shift hsh trivial
  | entered stage entry =>
    intro k' hk'
    rw [entry.worker_self] at hk'
    exact Option.some.inj hk' ▸ trivial
  | left stage inner_run finished taken hsh => exact shift hsh trivial
  | missed stage hsh => exact shift hsh trivial
  | @checked produced ready stage fits hsh =>
    obtain ⟨hready, hall⟩ := Node.prepare_eq_ok fits
    refine shift hsh fun e he => ⟨?_, hall e he⟩
    exact (k.node.restrict_sublist produced).subset (hready ▸ List.mem_map_of_mem he)
  | @sent c y rest total stage hsh =>
    rw [stage] at hfit
    exact shift hsh fun e he => hfit e (List.mem_cons_of_mem _ he)
  | unsent stage misfit hsh => exact shift hsh trivial
  | finished stage hsh => exact shift hsh trivial
  | told stage told =>
    intro k' hk'
    rw [told.workers, update_same] at hk'
    exact Option.some.inj hk' ▸ trivial

/-- A composite goes inside only with seeds that the inner pipeline accepts. -/
lemma receives_of_entered {expired : Bool} {id : Nat} (hk : v.workers a = some k)
    (hstage : k.stage = .entering inner inputs) (hs : v.work? a expired = some u)
    (he : v.Entered u a k inner id inputs) : inner.Receives inputs :=
  checkSeeds_eq_ok.1 (validate_eq_ok.1 (validate_of_entered hk hstage hs he.worker_self)).1

/-- The deeds of the step move only values of the right types. -/
lemma Typing.deeds (h : v.Typing r p ds) (hlaid : p.Laid) (hc : v.Course r p) (ha : Below r a)
    (hk : v.workers a = some k) {expired : Bool} (hs : v.work? a expired = some u)
    (hdo : v.Doing u a k es) : ∀ d ∈ es, d.Fitting p r := by
  obtain ⟨i, path, run, hplace, -, hpost, hlevel⟩ := hc.tree.place ha hk
  have hnode := List.mem_of_getElem? hpost.node
  have hsuits := hc.tree.suits a k ha hk
  have hfit := h.held a k ha hk
  unfold Worker.Fitting at hfit
  have hat : a = (i :: path) ++ r := hplace
  have hpost? : p.post? (i :: path) = some k.node := by
    rw [Pipeline.post?, hlevel, Option.bind_some, hpost.node]
  have gains : ∀ {inner : Pipeline}, k.node.inner? = some inner →
      ∀ d ∈ (v.collections inner k.node.outputs).map fun e => Deed.gained a e.1 e.2,
        d.Fitting p r := by
    intro inner hinner d hd
    obtain ⟨⟨c, y⟩, he, rfl⟩ := List.mem_map.1 hd
    have hbelow := Pipeline.level?_cons hlevel hpost.node hinner
    have hmem := mem_collections _ _ _ _ he
    refine h.queued _ _ c hbelow hmem y ?_
    exact mem_queue_of_mem_collections hc.lines.orderly
      (fun e hin hid => hlaid.eq_of_id hbelow hbelow hin hmem hid) he
  cases hdo with
  | @took got c rest y f stage hsh queue =>
    rw [stage] at hsuits
    have hin : c ∈ k.node.inputs := hsuits.2.subset List.mem_cons_self
    rintro d (_ | ⟨_, ⟨⟩⟩)
    refine h.queued _ _ c hlevel (hlaid.input hlevel hnode hin) y ?_
    rw [conduit, queue]
    exact List.mem_cons_self
  | called stage reply hsh =>
    rw [stage] at hfit hsuits
    rintro d (_ | ⟨_, ⟨⟩⟩)
    exact ⟨_, _, _, hat, hpost?, hsuits, hfit⟩
  | crashed stage reply hsh =>
    rw [stage] at hfit hsuits
    rintro d (_ | ⟨_, ⟨⟩⟩)
    exact ⟨_, _, _, hat, hpost?, hsuits, hfit⟩
  | entered stage entry =>
    have hreceives := receives_of_entered hk stage hs entry
    rw [stage] at hfit hsuits
    rintro d (_ | ⟨_, ⟨⟩⟩)
    exact ⟨_, _, _, hat, hpost?, hsuits, hfit, hreceives⟩
  | left stage inner_run finished taken hsh =>
    rw [stage] at hsuits
    intro d hd
    rcases List.mem_append.1 hd with hd | hd
    · exact gains hsuits d hd
    · rw [List.mem_singleton.1 hd]
      trivial
  | missed stage hsh =>
    rw [stage] at hsuits
    exact gains hsuits
  | sent stage hsh =>
    rw [stage] at hfit
    rintro d (_ | ⟨_, ⟨⟩⟩)
    exact (hfit _ List.mem_cons_self).2
  | told stage told =>
    rintro d (_ | ⟨_, ⟨⟩⟩)
    trivial
  | _ => exact fun d hd => by cases hd

/-- Whatever a worker sends, or goes inside with, is of the type of the channel where it ends. -/
lemma Typing.queues (h : v.Typing r p ds) (hlaid : p.Laid) (hc : v.Course r p) (ha : Below r a)
    (hk : v.workers a = some k) {expired : Bool} (hs : v.work? a expired = some u)
    (hdo : v.Doing u a k es) : u.Conforms p := by
  intro path q c hq hch y hy
  obtain ⟨i, path', run, rfl, -, hpost, hlevel⟩ := hc.tree.place ha hk
  have hnode := List.mem_of_getElem? hpost.node
  rcases hdo.arrival hc.lines.orderly hy with
    hold | ⟨d, rest, total, stage, hid⟩ | ⟨inner, inputs, id, stage, he⟩
  · exact h.queued path q c hq hch y hold
  · have hfit := h.held _ k ha hk
    rw [Worker.Fitting, stage] at hfit
    obtain ⟨hout, hy⟩ := hfit _ List.mem_cons_self
    exact hlaid.eq_of_id hlevel hq (hlaid.output hlevel hnode hout) hch hid ▸ hy
  · have hinner := hc.tree.inner_of_entering ha hk stage
    have hbelow := Pipeline.level?_cons hlevel hpost.node hinner
    exact h.queued.sow hlaid hbelow (receives_of_entered hk stage hs he) he.conduits path q c hq
      hch y hy

lemma Typing.work (h : v.Typing r p ds) (hlaid : p.Laid) (hc : v.Course r p) (ha : Below r a)
    {expired : Bool} (hs : v.work? a expired = some u) :
    u.Typing r p (ds ++ v.workDeeds a expired) := by
  obtain ⟨k, hk, hst⟩ := stride_of_work? hs
  have hdo := doing_of_work? hk hs
  refine ⟨h.queues hlaid hc ha hk hs hdo, fun b k' hb hk' => ?_, fun d hd => ?_⟩
  · by_cases hba : b = a
    · subst hba
      exact h.stage hlaid hc ha hk hdo k' hk'
    · rcases hc.tree.worker_of_ne ha hk hst hba with hsame | ⟨-, n, token, limit, hnew⟩
      · exact h.held b k' hb (hsame ▸ hk')
      · rw [hnew] at hk'
        exact Option.some.inj hk' ▸ Worker.fitting_new n token limit
  · rcases List.mem_append.1 hd with hd | hd
    · exact h.done d hd
    · exact h.deeds hlaid hc ha hk hs hdo d hd

/-- Whatever leaves the workers of the run, and sends nothing unchecked to its channels. -/
lemma Typing.same (h : v.Typing r p ds) (hw : ∀ a, Below r a → u.workers a = v.workers a)
    (hq : ∀ path q c, p.level? path = some q → c ∈ q.channels →
      ∀ y ∈ (u.conduit c).queue, y ∈ (v.conduit c).queue ∨ c.type.accepts y = true) :
    u.Typing r p ds where
  queued path q c hlevel hc y hy :=
    (hq path q c hlevel hc y hy).elim (h.queued path q c hlevel hc y) id
  held a k ha hk := h.held a k ha (hw a ha ▸ hk)
  done := h.done

/-- One step of the run keeps all values where their types allow them. -/
theorem Typing.step (h : v.Typing r p ds) (hlaid : p.Laid) (hc : v.Course r p) {m : Move}
    (hm : m.Of r) (hs : v.step? m = some u) : u.Typing r p (ds ++ v.deeds m) := by
  have turned : ∀ {b : Address} {run : Run}, v.Turned u b run → u.Typing r p (ds ++ []) :=
    fun ht => by
      rw [List.append_nil]
      refine h.same (fun _ _ => by rw [ht.workers]) fun _ _ _ _ _ y hy => .inl ?_
      rwa [conduit, ht.conduits] at hy
  cases m with
  | work a => exact h.work hlaid hc hm hs
  | expire a => exact h.work hlaid hc hm hs
  | collect b =>
    cases collected_of_collect? hs with
    | success _ _ _ _ ht => exact turned ht
    | failure _ _ _ _ _ ht => exact turned ht
  | conclude b =>
    obtain ⟨_, _, _, hcon⟩ := concluded_of_conclude? hs
    exact turned hcon.turned
  | cancel t => exact hm.elim

/-- When a run has just started, its channels hold what they held and seeds that were checked. -/
lemma typing_of_launched (hlaid : p.Laid) (hv : w.Vacant r) (hconforms : w.Conforms p)
    (hvalid : w.validate p seeds = .ok ()) (hl : w.Launched v r p seeds token) :
    v.Typing r p [] where
  queued := hconforms.sow hlaid (Pipeline.level?_nil p)
    (checkSeeds_eq_ok.1 (validate_eq_ok.1 hvalid).1) hl.conduits
  held a k ha hk := by
    by_cases hi : ∃ i, a = i :: r
    · obtain ⟨i, rfl⟩ := hi
      rw [hl.worker_new hv] at hk
      obtain ⟨n, -, rfl⟩ := Option.map_eq_some_iff.1 hk
      exact Worker.fitting_new n _ _
    · rw [hl.worker_old hv ha fun i h => hi ⟨i, h⟩] at hk
      cases hk
  done d hd := by cases hd

/-- Values stay where their types allow them through every play. -/
lemma typing_of_chronicle {runtime : Bool} {ms : List Move} (hlaid : p.Laid) (hv : w.Vacant r)
    (ho : ∀ z, (w.conduits z).Orderly) (hconforms : w.Conforms p)
    (hstart : w.start r p seeds token runtime = .ok w₁)
    (h : w₁.Chronicle r (Guarded p r) ms ds v) : v.Typing r p ds := by
  have course : ∀ {ms ds v}, w₁.Chronicle r (Guarded p r) ms ds v → v.Course r p :=
    fun h => course_of_plays hv ho hstart (fun _ _ hact => hact.outside) h.plays
  induction h with
  | start =>
    obtain ⟨-, hvalid, hl⟩ := start_eq_ok hstart
    exact typing_of_launched hlaid hv hconforms hvalid hl
  | move before own step ih => exact ih.step hlaid (course before) own step
  | await before ih =>
    obtain ⟨hw, hc, -⟩ := await_others _ r
    exact ih.same (fun _ _ => by rw [hw]) fun _ _ _ _ _ y hy => .inl (by rwa [conduit, hc] at hy)
  | others before act ih => exact ih.same act.outside.workers act.values

/-- **Values conform to their types** in every state that a run can come to, on all its levels,
whatever its logic returns, however it fares and whatever others send and take meanwhile. Whoever
calls logic, or seeds the pipeline inside it, has one value for each input of its node and nothing
else, each of the type of its channel; and those seeds are of the types of the channels inside. -/
theorem values_conform {runtime : Bool} {ms : List Move} (hlaid : p.Laid) (hv : w.Vacant r)
    (ho : ∀ z, (w.conduits z).Orderly) (hconforms : w.Conforms p)
    (hstart : w.start r p seeds token runtime = .ok w₁)
    (h : w₁.Chronicle r (Guarded p r) ms ds v) :
    v.Conforms p ∧
      (∀ a inputs reply, .called a inputs reply ∈ ds → ∃ path n logic, a = path ++ r ∧
        p.post? path = some n ∧ n.logic? = some logic ∧ inputs.keys = n.ins ∧
        ∀ c ∈ n.inputs, ∃ y, inputs.get? c.name = some y ∧ c.type.accepts y = true) ∧
      ∀ a inputs, .entered a inputs ∈ ds → ∃ path n inner, a = path ++ r ∧
        p.post? path = some n ∧ n.inner? = some inner ∧ inputs.keys = n.ins ∧
        (∀ c ∈ n.inputs, ∃ y, inputs.get? c.name = some y ∧ c.type.accepts y = true) ∧
        ∀ e ∈ inputs.entries, ∃ d, inner.channel? e.1 = some d ∧ d.type.accepts e.2 = true := by
  have htyping := typing_of_chronicle hlaid hv ho hconforms hstart h
  refine ⟨htyping.queued, fun a inputs reply hd => ?_, fun a inputs hd => ?_⟩
  · obtain ⟨path, n, logic, ha, hn, hl, hholds⟩ := htyping.done _ hd
    exact ⟨path, n, logic, ha, hn, hl, hholds.keys, hholds.yields⟩
  · obtain ⟨path, n, inner, ha, hn, hi, hholds, hreceives⟩ := htyping.done _ hd
    exact ⟨path, n, inner, ha, hn, hi, hholds.keys, hholds.yields, hreceives⟩

/-- A transform that answers an order with a text where a number is due, and with a value that
belongs to no output. -/
def forger : Pipeline where
  id := 0
  name := "forger"
  options := { validateInputs := false }
  channels := [⟨1, "order", .text⟩, ⟨2, "coin", .integer⟩]
  nodes := [⟨"forge", [⟨1, "order", .text⟩], [⟨2, "coin", .integer⟩],
    .transform (.pure .function fun _ =>
      .returned (.ofList [("coin", .text "one"), ("bill", .text "two")]))⟩]

/-- The transform was called with the order, and nothing of its answer has come to a channel. -/
theorem forger_conforms : ∃ w₁ ds v k, initial.start [3] forger (.singleton "order" (.text "one"))
    [3] true = .ok w₁ ∧
    w₁.Chronicle [3] (Guarded forger [3]) [.work [0, 3], .work [0, 3], .work [0, 3]] ds v ∧
    v.workers [0, 3] = some k ∧
    k.stage = .ended (.error (.channel "forge" (.typeMismatch "coin" .integer .text))) ∧
    v.Conforms forger ∧
      (∀ a inputs reply, .called a inputs reply ∈ ds → ∃ path n logic, a = path ++ [3] ∧
        forger.post? path = some n ∧ n.logic? = some logic ∧ inputs.keys = n.ins ∧
        ∀ c ∈ n.inputs, ∃ y, inputs.get? c.name = some y ∧ c.type.accepts y = true) ∧
      ∀ a inputs, .entered a inputs ∈ ds → ∃ path n inner, a = path ++ [3] ∧
        forger.post? path = some n ∧ n.inner? = some inner ∧ inputs.keys = n.ins ∧
        (∀ c ∈ n.inputs, ∃ y, inputs.get? c.name = some y ∧ c.type.accepts y = true) ∧
        ∀ e ∈ inputs.entries, ∃ d, inner.channel? e.1 = some d ∧ d.type.accepts e.2 = true := by
  have hflat : forger.Flat := by simp [Pipeline.Flat, forger, Node.inner?]
  have hsound : forger.Sound := ⟨by decide, by decide, by decide, by
    simp only [forger, List.forall_mem_singleton]
    rfl, by
    simp only [forger, List.forall_mem_singleton]
    rfl⟩
  have hready : initial.Ready forger :=
    ready_of_flat hsound hflat (fun _ _ => ⟨rfl, rfl⟩) fun _ _ _ h => by cases h
  obtain ⟨w₁, hw⟩ : ∃ w₁, initial.start [3] forger (.singleton "order" (.text "one")) [3] true =
      .ok w₁ := ⟨_, rfl⟩
  obtain ⟨v, k, hsteps, hk, hs⟩ : ∃ v k,
      w₁.steps [.work [0, 3], .work [0, 3], .work [0, 3]] = some v ∧ v.workers [0, 3] = some k ∧
      k.stage = .ended (.error (.channel "forge" (.typeMismatch "coin" .integer .text))) := by
    obtain rfl := Except.ok.inj hw
    exact ⟨_, _, rfl, rfl, rfl⟩
  obtain ⟨ds, htold⟩ := Chronicle.steps (r := [3]) .start (by simp [Move.Of]) hsteps
  exact ⟨w₁, ds, v, k, hw, htold, hk, hs, values_conform hready.laid (vacant_initial [3])
    orderly_initial hready.typed hw htold⟩

end World

end Dataflow
