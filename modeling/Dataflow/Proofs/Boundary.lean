import Dataflow.Proofs.Errand

/-!
The boundary of a composite. What was checked when the composite was made is enough for its first
call, however many values others have sent inside meanwhile: the pipeline inside starts, each
output comes out unless nothing was ever put there, and what comes out fits outside.

Main statements: `Underway.step` (what every step of the call preserves) and
`composite_call_sound`.
-/

namespace Dataflow

namespace Conduit

variable {ι : Type}

lemma Calm.foldl_send {k : Conduit ι} (h : k.Calm) (values : List Value) :
    (values.foldl Conduit.send k).Calm := by
  induction values generalizing k with
  | nil => exact h
  | cons x rest ih => exact ih (h.send x)

end Conduit

/-- A channel that no seed is for stays as it is. -/
lemma Pipeline.Sound.sow_of_notMem {q : Pipeline} (h : q.Sound) {c : Channel}
    (hc : c ∈ q.channels) {entries : List (String × Value)} (hnot : ∀ e ∈ entries, e.1 ≠ c.name)
    (f : Nat → Conduit Address) : q.sow entries f c.id = f c.id := by
  rw [h.sow_eq hc, List.filter_eq_nil_iff.2 fun e he => by simpa using hnot e he]
  rfl

lemma Pipeline.Laid.of_flat {p : Pipeline} (hs : p.Sound) (hflat : p.Flat) : p.Laid where
  sound path q hq := by
    obtain ⟨-, rfl⟩ := hflat.level? hq
    exact hs
  apart path path' q q' c d hq hq' _ _ _ := by
    rw [(hflat.level? hq).1, (hflat.level? hq').1]

namespace World

variable {w₀ w v u : World} {a b : Address} {k : Worker} {n : Node} {inner : Pipeline}
  {expired : Bool} {ds es : List Deed} {c : Channel} {e : ExecutionError} {m : Move}

/-! ### Before the call -/

/-- None of the channels of the node is one of those inside. -/
def Apart (n : Node) (inner : Pipeline) : Prop :=
  ∀ c ∈ n.channels, ∀ path q d, inner.level? path = some q → d ∈ q.channels → c.id ≠ d.id

/-- Between these worlds nobody has started `inner`, and all that was done to its channels is that
fitting values were sent to them. -/
structure Spares (inner : Pipeline) (v u : World) : Prop where
  started : u.started inner.id = v.started inner.id
  channels : ∀ c ∈ inner.channels, ∃ values : List Value,
    (∀ x ∈ values, c.type.accepts x = true) ∧ u.conduit c = values.foldl Conduit.send (v.conduit c)

/-- What others may do while the worker at `a` processes `n`, which wraps `inner`: whatever they
please, if they only send to the channels inside and leave the rest of the call alone. -/
structure Beside (a : Address) (n : Node) (inner : Pipeline) (v u : World) : Prop where
  outside : v.Outside a u
  worker : u.workers a = v.workers a
  spares : Spares inner v u
  typed : ∀ c ∈ n.inputs, (∀ x ∈ (v.conduit c).queue, c.type.accepts x = true) →
    ∀ x ∈ (u.conduit c).queue, c.type.accepts x = true

/-- The worker at `a` is about to process for the first time the node `n`, which was made of
`inner` in the world `w₀`. -/
structure Commissioned (w₀ w : World) (a : Address) (n : Node) (inner : Pipeline) : Prop where
  laid : inner.Laid
  /-- When the node was made, nobody was in line inside. -/
  calm : ∀ c ∈ inner.channels, (w₀.conduit c).Calm
  typed : ∀ c ∈ inner.channels, ∀ x ∈ (w₀.conduit c).queue, c.type.accepts x = true
  spared : Spares inner w₀ w
  addressed : a ≠ []
  worker : ∃ token limit, w.workers a = some (.new n token limit)
  vacant : w.Vacant a
  orderly : ∀ x, (w.conduits x).Orderly
  inputs : ∀ c ∈ n.inputs, ∀ x ∈ (w.conduit c).queue, c.type.accepts x = true

lemma Spares.refl (inner : Pipeline) (v : World) : Spares inner v v :=
  ⟨rfl, fun _ _ => ⟨[], by simp, rfl⟩⟩

lemma Spares.trans (h₁ : Spares inner w v) (h₂ : Spares inner v u) : Spares inner w u where
  started := h₂.started.trans h₁.started
  channels c hc := by
    obtain ⟨xs, hxs, hv⟩ := h₁.channels c hc
    obtain ⟨ys, hys, hu⟩ := h₂.channels c hc
    refine ⟨xs ++ ys, fun x hx => (List.mem_append.1 hx).elim (hxs x) (hys x), ?_⟩
    rw [hu, hv, List.foldl_append]

lemma Spares.same (hs : u.started = v.started)
    (hc : ∀ c ∈ inner.channels, u.conduit c = v.conduit c) : Spares inner v u :=
  ⟨by rw [hs], fun c hmem => ⟨[], by simp, hc c hmem⟩⟩

section

variable (h : Spares inner v u) (hc : c ∈ inner.channels)
include h hc

lemma Spares.calm (hcalm : (v.conduit c).Calm) : (u.conduit c).Calm := by
  obtain ⟨values, -, hu⟩ := h.channels c hc
  exact hu ▸ hcalm.foldl_send values

lemma Spares.queue : ∃ values : List Value, (∀ x ∈ values, c.type.accepts x = true) ∧
    (u.conduit c).queue = (v.conduit c).queue ++ values := by
  obtain ⟨values, hall, hu⟩ := h.channels c hc
  exact ⟨values, hall, by rw [hu, Conduit.queue_foldl_send]⟩

lemma Spares.typed (htyped : ∀ x ∈ (v.conduit c).queue, c.type.accepts x = true) :
    ∀ x ∈ (u.conduit c).queue, c.type.accepts x = true := by
  obtain ⟨values, hall, hq⟩ := h.queue hc
  intro x hx
  rw [hq] at hx
  exact (List.mem_append.1 hx).elim (htyped x) (hall x)

lemma Spares.queued_le : v.queued c ≤ u.queued c := by
  obtain ⟨values, -, hq⟩ := h.queue hc
  rw [queued, queued, hq, List.length_append]
  exact Nat.le_add_right _ _

lemma Spares.queue_eq_nil (hq : (u.conduit c).queue = []) : (v.conduit c).queue = [] := by
  obtain ⟨values, -, hu⟩ := h.queue hc
  exact (List.append_eq_nil_iff.1 (hu ▸ hq)).1

end

/-- `n` wraps `inner`, and whatever was checked when it was made holds of the world as it is. -/
structure Fitted (w : World) (n : Node) (inner : Pipeline) : Prop where
  wraps : n.inner? = some inner
  wired : n.wiringFault? = none
  new : w.started inner.id = false
  fits : inner.Fits w.queued n.inputs n.outputs
  laid : inner.Laid
  apart : Apart n inner
  calm : ∀ c ∈ inner.channels, (w.conduit c).Calm
  typed : ∀ c ∈ inner.channels, ∀ x ∈ (w.conduit c).queue, c.type.accepts x = true

/-- What the construction has checked still holds when the call begins. -/
theorem Commissioned.fitted {name : String} {inputs outputs : List Channel}
    (h : Commissioned w₀ w a n inner) (hapart : Apart n inner)
    (hbuilt : w₀.composite name inputs outputs inner = .ok n) : w.Fitted n inner := by
  obtain ⟨rfl, hwired, hfault⟩ := Node.composite_eq_ok hbuilt
  have hnew : w₀.started inner.id = false := by
    cases hs : w₀.started inner.id with
    | false => rfl
    | true =>
      rw [hs] at hfault
      simp [Pipeline.boundaryFault?] at hfault
  rw [hnew] at hfault
  have hfits := Pipeline.fits_of_boundaryFault? hfault
  have hsound := h.laid.sound [] inner rfl
  refine ⟨rfl, hwired, h.spared.started.trans hnew, ?_, h.laid, hapart,
    fun c hc => h.spared.calm hc (h.calm c hc), fun c hc => h.spared.typed hc (h.typed c hc)⟩
  exact ⟨hfits.consumed, hfits.produced, hfits.unread, hfits.types,
    Pipeline.checkSatisfiable_mono hsound.nodup_nodes (fun c hc => h.spared.queued_le hc)
      hfits.accepted⟩

section

variable (hf : w.Fitted n inner)
include hf

lemma Fitted.sound : inner.Sound := hf.laid.sound [] inner rfl

/-- Behind each output is a channel inside that nobody reads there. -/
lemma Fitted.behind {o : Channel} (ho : o ∈ n.outputs) : ∃ c ∈ inner.channels,
    c.name = o.name ∧ inner.channel? o.name = some c ∧ c.type = o.type ∧
      c.name ∉ Pipeline.reads inner.nodes := by
  obtain ⟨c, hc, hname, hchan⟩ := hf.sound.declared (.inr (hf.fits.produced o ho))
  exact ⟨c, hc, hname, hchan, hf.fits.types o (List.mem_append_right _ ho) c hchan,
    hname ▸ hf.fits.unread o ho⟩

lemma Fitted.conduit_of_input (hc : c ∈ n.inputs) {q : Conduit Address}
    (hcs : u.conduits = update v.conduits c.id q) {d : Channel} (hd : d ∈ inner.channels) :
    u.conduit d = v.conduit d := by
  rw [conduit, hcs, update_of_ne]
  · rfl
  · exact (hf.apart c (List.mem_append_left _ hc) [] inner d rfl hd).symm

/-- **The start inside never fails**, if the inputs have come and others have only sent. -/
theorem Fitted.accepted (hspared : Spares inner w v) {inputs : Payload}
    (hholds : inputs.Holds n.inputs) :
    v.started inner.id = false ∧ v.validate inner inputs = .ok () := by
  refine ⟨hspared.started.trans hf.new,
    validate_eq_ok.2 ⟨checkSeeds_eq_ok.2 fun e he => ?_, fun _ => ?_⟩⟩
  · obtain ⟨c, hmem, hname, hacc⟩ := hholds.entry he
    obtain ⟨d, -, -, hd⟩ := hf.sound.declared (.inl (hf.fits.consumed c hmem))
    refine ⟨d, hname ▸ hd, ?_⟩
    rw [hf.fits.types c (List.mem_append_left _ hmem) d hd]
    exact hacc
  · rw [hholds.keys]
    exact Pipeline.checkSatisfiable_mono hf.sound.nodup_nodes
      (fun c hc => hspared.queued_le hc) hf.fits.accepted

end

/-! ### How far the call has come -/

/-- An error with which the call may end. The start inside and the types outside are never to
blame, and an output is missing only where nothing was ever put. -/
structure Excused (w : World) (inner : Pipeline) (ds : List Deed) (e : ExecutionError) : Prop where
  setup : ∀ name g, e ≠ .innerSetup name g
  missing : ∀ name o, e = .missingOutput name o → ∃ c ∈ inner.channels,
    inner.channel? o = some c ∧ (w.conduit c).queue = [] ∧ ∀ b x, .sent b c x ∉ ds
  types : ∀ name c s t, e ≠ .channel name (.typeMismatch c s t)

/-- The composite gathers its inputs, and nobody has done anything inside but send. -/
structure Pending (w v : World) (a : Address) (n : Node) (inner : Pipeline) : Prop where
  vacant : v.Vacant a
  spared : Spares inner w v
  inputs : ∀ c ∈ n.inputs, ∀ x ∈ (v.conduit c).queue, c.type.accepts x = true

/-- Whatever was put on a channel that nobody reads inside is still there. -/
structure Stocked (w v : World) (inner : Pipeline) (ds : List Deed) : Prop where
  calm : ∀ c ∈ inner.channels, c.name ∉ Pipeline.reads inner.nodes → (v.conduit c).Calm
  typed : ∀ c ∈ inner.channels, c.name ∉ Pipeline.reads inner.nodes →
    ∀ x ∈ (v.conduit c).queue, c.type.accepts x = true
  stock : ∀ c ∈ inner.channels, c.name ∉ Pipeline.reads inner.nodes →
    (v.conduit c).queue = [] → (w.conduit c).queue = [] ∧ ∀ b x, .sent b c x ∉ ds

/-- The run inside is over. -/
structure Spent (v : World) (a : Address) (inner : Pipeline) : Prop where
  course : v.Course a inner
  finished : ∃ run, v.runs a = some run ∧ run.Over

/-- What the stage of the composite says about the call so far. -/
def Phase (w v : World) (a : Address) (n : Node) (inner : Pipeline) (ds : List Deed) :
    Stage → Prop
  | .gathering got rest => Pending w v a n inner ∧ ∃ pre, n.inputs = pre ++ rest ∧ got.Holds pre
  | .calling _ _ => False
  | .entering q inputs => q = inner ∧ Pending w v a n inner ∧ inputs.Holds n.inputs
  | .inside q => q = inner ∧ v.Course a inner ∧ Stocked w v inner ds
  | .checking produced => Spent v a inner ∧ produced.Yields n.outputs
  | .sending _ _ => Spent v a inner
  | .ended result => (v.Vacant a ∨ Spent v a inner) ∧
      ∀ e, result = .error e → Excused w inner ds e
  | .reported result => (v.Vacant a ∨ Spent v a inner) ∧
      ∀ e, result = .error e → Excused w inner ds e

/-- The state of the call at any time. -/
structure Underway (w v : World) (a : Address) (n : Node) (inner : Pipeline) (ds : List Deed) :
    Prop where
  kept : v.Kept a ds
  orderly : ∀ x, (v.conduits x).Orderly
  worker : ∃ k, v.workers a = some k ∧ k.node = n ∧ n.Suits k.stage ∧
    Phase w v a n inner ds k.stage

lemma Excused.append (h : Excused w inner ds e)
    (hes : ∀ b c x, c ∈ inner.channels → .sent b c x ∉ es) : Excused w inner (ds ++ es) e where
  setup := h.setup
  missing name o he := by
    obtain ⟨c, hc, hchan, hq, hsent⟩ := h.missing name o he
    exact ⟨c, hc, hchan, hq, fun b x hx =>
      (List.mem_append.1 hx).elim (hsent b x) (hes b c x hc)⟩
  types := h.types

/-! ### What others do -/

lemma Pending.beside (h : Pending w v a n inner) (ho : ∀ x, (v.conduits x).Orderly)
    (hb : Beside a n inner v u) : Pending w u a n inner :=
  ⟨h.vacant.outside ho hb.outside, h.spared.trans hb.spares,
    fun c hc => hb.typed c hc (h.inputs c hc)⟩

lemma Stocked.spares (h : Stocked w v inner ds) (hs : Spares inner v u) :
    Stocked w u inner ds where
  calm c hc hr := hs.calm hc (h.calm c hc hr)
  typed c hc hr := hs.typed hc (h.typed c hc hr)
  stock c hc hr hq := h.stock c hc hr (hs.queue_eq_nil hc hq)

lemma Spent.outside (h : Spent v a inner) (ho : v.Outside a u) : Spent u a inner := by
  obtain ⟨run, hrun, hover⟩ := h.finished
  exact ⟨h.course.outside ho, run, (ho.runs a List.suffix_rfl).trans hrun, hover⟩

lemma Underway.beside (h : Underway w v a n inner ds) (hb : Beside a n inner v u) :
    Underway w u a n inner ds := by
  have hworkers : ∀ b, a <:+ b → u.workers b = v.workers b := fun b h => by
    rcases suffix_cases h with rfl | h
    · exact hb.worker
    · exact hb.outside.workers b h
  obtain ⟨k, hk, hn, hsuits, hphase⟩ := h.worker
  refine ⟨h.kept.same hworkers, fun x => (hb.outside.conduits x (h.orderly x)).1, k,
    hb.worker.trans hk, hn, hsuits, ?_⟩
  have hout := hb.outside
  have hafter : v.Vacant a ∨ Spent v a inner → u.Vacant a ∨ Spent u a inner :=
    Or.imp (·.outside h.orderly hout) (·.outside hout)
  cases hs : k.stage <;> rw [hs] at hphase <;> simp only [Phase] at hphase ⊢
  case gathering => exact ⟨hphase.1.beside h.orderly hb, hphase.2⟩
  case entering => exact ⟨hphase.1, hphase.2.1.beside h.orderly hb, hphase.2.2⟩
  case inside => exact ⟨hphase.1, hphase.2.1.outside hout, hphase.2.2.spares hb.spares⟩
  case checking => exact ⟨hphase.1.outside hout, hphase.2⟩
  case sending => exact hphase.outside hout
  case ended => exact ⟨hafter hphase.1, hphase.2⟩
  case reported => exact ⟨hafter hphase.1, hphase.2⟩

/-! ### What goes on inside -/

section

variable (hf : w.Fitted n inner) (hc : v.Course a inner) (hkept : v.Kept a ds)
include hf hc hkept

/-- Who publishes on a channel of the pipeline inside is one of its own workers. -/
lemma Fitted.sender {x : Value} {rest : List (Channel × Value)} {total : Nat} (hb : Below a b)
    (hk : v.workers b = some k) (hs : k.stage = .sending ((c, x) :: rest) total)
    (hmem : c ∈ inner.channels) : ∃ i, b = i :: a := by
  obtain ⟨i, path, run, rfl, -, hpost, hlevel⟩ := hc.tree.place hb hk
  have hout := output_of_sending (hs ▸ hkept.page _ k hb.suffix hk)
  have hmem' := hf.laid.output hlevel (List.mem_of_getElem? hpost.node) hout
  obtain rfl := hf.laid.apart _ _ _ _ _ _ hlevel (Pipeline.level?_nil inner) hmem' hmem rfl
  exact ⟨i, rfl⟩

/-- A channel that nobody reads inside is only sent to there. -/
lemma Fitted.unread_conduit (hb : Below a b) (hk : v.workers b = some k)
    (hst : v.Stride u b k expired) (hmem : c ∈ inner.channels)
    (hread : c.name ∉ Pipeline.reads inner.nodes) : u.conduits c.id = v.conduits c.id ∨
      ∃ y, c.type.accepts y = true ∧ u.conduits c.id = (v.conduits c.id).send y := by
  obtain ⟨i, path, run, rfl, -, hpost, hlevel⟩ := hc.tree.place hb hk
  have hnode := List.mem_of_getElem? hpost.node
  have hroot := Pipeline.level?_nil inner
  rcases hst.conduit_cases (hc.tree.suits _ k hb hk) (hkept.page _ k hb.suffix hk) c.id with
    hsame | ⟨d, hd, hid⟩ | ⟨q, hq, d, hd, hid⟩ | ⟨d, y, -, -, hd, hid, -, hacc, hsent⟩
  · exact .inl hsame
  · -- an input of a node inside
    have hd' := hf.laid.input hlevel hnode hd
    obtain rfl := hf.laid.apart _ _ _ _ _ _ hlevel hroot hd' hmem hid
    obtain rfl := hf.laid.eq_of_id hlevel hroot hd' hmem hid
    obtain rfl : inner = run.pipeline := Option.some.inj hlevel
    exact absurd (Pipeline.name_mem_reads hnode hd) hread
  · -- a channel of a level further in
    have := hf.laid.apart _ _ _ _ _ _ (Pipeline.level?_cons hlevel hpost.node hq) hroot hd hmem hid
    cases this
  · obtain rfl := hf.laid.eq_of_id hlevel hroot (hf.laid.output hlevel hnode hd) hmem hid
    exact .inr ⟨y, hacc, hsent⟩

lemma Stocked.step (h : Stocked w v inner ds) (hm : m.Of a) (hs : v.step? m = some u) :
    Stocked w u inner (ds ++ v.deeds m) := by
  rcases below_cases hm hs with ⟨b, k, expired, hb, hk, hstep, hdeeds⟩ | ⟨hdeeds, -, hcs, hst⟩
  · have hst := stride_of_worker hk hstep
    rw [hdeeds]
    refine ⟨fun c hmem hr => ?_, fun c hmem hr x hx => ?_, fun c hmem hr hq => ?_⟩ <;>
      have hcases := hf.unread_conduit hc hkept hb hk hst hmem hr
    · rw [conduit]
      rcases hcases with hsame | ⟨y, -, hsent⟩
      · exact hsame ▸ h.calm c hmem hr
      · exact hsent ▸ (h.calm c hmem hr).send y
    · rw [conduit] at hx
      rcases hcases with hsame | ⟨y, hacc, hsent⟩
      · rw [hsame] at hx
        exact h.typed c hmem hr x hx
      · rw [hsent, Conduit.queue_send, List.mem_append, List.mem_singleton] at hx
        exact hx.elim (h.typed c hmem hr x) fun hx => hx ▸ hacc
    · rw [conduit] at hq
      have hold : (v.conduit c).queue = [] := by
        rcases hcases with hsame | ⟨y, -, hsent⟩
        · rwa [hsame] at hq
        · simp [hsent] at hq
      obtain ⟨hstart, hunsent⟩ := h.stock c hmem hr hold
      refine ⟨hstart, fun b' x hx => ?_⟩
      rcases List.mem_append.1 hx with hx | hx
      · exact hunsent b' x hx
      · obtain ⟨rfl, hacc, rest, total, hstage⟩ := (sent_mem_workDeeds hk).1 hx
        rw [conduits_of_sending hk hstage hacc hstep, update_same] at hq
        simp at hq
  · rw [hdeeds, List.append_nil]
    exact h.spares (.same hst fun c _ => congrFun hcs c.id)

/-- Once the run inside is over, nothing more is published there. -/
lemma Spent.unsent (h : Spent v a inner) (hm : m.Of a) (hs : v.step? m = some u) :
    ∀ b c x, c ∈ inner.channels → .sent b c x ∉ v.deeds m := by
  intro b' c x hmem hx
  rcases below_cases hm hs with ⟨b, k, expired, hb, hk, hstep, hdeeds⟩ | ⟨hdeeds, -⟩
  · rw [hdeeds] at hx
    obtain ⟨rfl, -, rest, total, hstage⟩ := (sent_mem_workDeeds hk).1 hx
    obtain ⟨i, rfl⟩ := hf.sender hc hkept hb hk hstage hmem
    obtain ⟨run, hrun, hover⟩ := h.finished
    obtain ⟨result, hrep⟩ := ((hc.hearing a run List.suffix_rfl hrun).closed hover).2 i k hk
    rw [hstage] at hrep
    cases hrep
  · rw [hdeeds] at hx
    cases hx

end

lemma Spent.step (h : Spent v a inner) (hm : m.Of a) (hs : v.step? m = some u) :
    Spent u a inner := by
  obtain ⟨run, hrun, result, hres⟩ := h.finished
  have honward : v.Onward u a := onward_of_step h.course.tree hm hs
  obtain ⟨run', hrun', hkeeps⟩ := honward.runs a run List.suffix_rfl hrun
  exact ⟨h.course.step hm hs, run', hrun', result, hkeeps.returned result hres⟩

lemma Phase.vacant_or_course {s : Stage} (h : Phase w v a n inner ds s) :
    v.Vacant a ∨ v.Course a inner := by
  cases s <;> simp only [Phase] at h
  case gathering => exact .inl h.1.vacant
  case entering => exact .inl h.2.1.vacant
  case inside => exact .inr h.2.1
  case checking => exact .inr h.1.course
  case sending => exact .inr h.course
  case ended => exact h.1.imp_right Spent.course
  case reported => exact h.1.imp_right Spent.course

/-- Whoever moves below it leaves the composite where it is. -/
lemma Underway.below (hf : w.Fitted n inner) (h : Underway w v a n inner ds) (hm : m.Of a)
    (hs : v.step? m = some u) : Underway w u a n inner (ds ++ v.deeds m) := by
  obtain ⟨k, hk, rfl, hsuits, hphase⟩ := h.worker
  have nothing : ¬ v.Vacant a := fun hv => by
    rw [hv.step?_eq_none hm] at hs
    cases hs
  have hc := hphase.vacant_or_course.resolve_left nothing
  obtain ⟨hkept, hself⟩ := h.kept.below hf.laid hc hk hm hs
  have hspent : v.Vacant a ∨ Spent v a inner → Spent v a inner := fun h => h.resolve_left nothing
  refine ⟨hkept, (hc.step hm hs).lines.orderly, k, hself, rfl, hsuits, ?_⟩
  cases hstage : k.stage <;> rw [hstage] at hphase <;> simp only [Phase] at hphase ⊢
  case gathering => exact absurd hphase.1.vacant nothing
  case entering => exact absurd hphase.2.1.vacant nothing
  case inside =>
    exact ⟨hphase.1, hc.step hm hs, hphase.2.2.step hf hc h.kept hm hs⟩
  case checking => exact ⟨hphase.1.step hm hs, hphase.2⟩
  case sending => exact hphase.step hm hs
  case ended =>
    have hs' := hspent hphase.1
    exact ⟨.inr (hs'.step hm hs),
      fun e he => (hphase.2 e he).append (hs'.unsent hf hc h.kept hm hs)⟩
  case reported =>
    have hs' := hspent hphase.1
    exact ⟨.inr (hs'.step hm hs),
      fun e he => (hphase.2 e he).append (hs'.unsent hf hc h.kept hm hs)⟩

/-! ### What the composite does -/

/-- A composite gets no further than the first of its outputs of which nothing is left inside. -/
lemma takeOutputs_of_empty (hs : inner.Sound) (outs : List Channel)
    (hnd : (outs.map (·.name)).Nodup) (v : World) (got : Payload)
    (hcalm : ∀ o ∈ outs, ∃ c, inner.channel? o.name = some c ∧ (v.conduit c).Calm)
    (hempty : ∃ o ∈ outs, ∃ c, inner.channel? o.name = some c ∧ (v.conduit c).queue = []) :
    ∃ o ∈ outs, ∃ c, inner.channel? o.name = some c ∧ (v.conduit c).queue = [] ∧
      (v.takeOutputs inner got outs).1 = .error o.name := by
  induction outs generalizing v got with
  | nil =>
    obtain ⟨o, ho, -⟩ := hempty
    cases ho
  | cons o rest ih =>
    rw [List.map_cons, List.nodup_cons] at hnd
    obtain ⟨c, hc, hcc⟩ := hcalm o List.mem_cons_self
    by_cases hq : (v.conduit c).queue = []
    · refine ⟨o, List.mem_cons_self, c, hc, hq, ?_⟩
      have hfree : (v.conduit c).free = 0 := by rw [hcc.free, hq, List.length_nil]
      simp [takeOutputs, hc, tryReceive, Conduit.tryReceive, Conduit.takeFree?, hfree]
    · obtain ⟨x, q, hrec, -⟩ := tryReceive_of_queue hcc.orderly hcc.line hq
      have hother : ∀ o' ∈ rest, ∀ d, inner.channel? o'.name = some d →
          (v.setConduit c q).conduit d = v.conduit d := by
        intro o' ho' d hd
        refine conduit_setConduit_of_ne fun hid => hnd.1 ?_
        have heq := hs.eq_of_id (Pipeline.mem_of_channel? hd).1 (Pipeline.mem_of_channel? hc).1 hid
        rw [← (Pipeline.mem_of_channel? hc).2, ← heq, (Pipeline.mem_of_channel? hd).2]
        exact List.mem_map_of_mem ho'
      obtain ⟨o', ho', d, hd, hqd, herr⟩ := ih hnd.2 (v.setConduit c q) (got.insert o.name x)
        (fun o' ho' => by
          obtain ⟨d, hd, hdc⟩ := hcalm o' (List.mem_cons_of_mem _ ho')
          exact ⟨d, hd, by rwa [hother o' ho' d hd]⟩) (by
          obtain ⟨o', ho', d, hd, hqd⟩ := hempty
          rcases List.mem_cons.1 ho' with rfl | ho'
          · obtain rfl := Option.some.inj (hc.symm.trans hd)
            exact absurd hqd hq
          · exact ⟨o', ho', d, hd, by rwa [hother o' ho' d hd]⟩)
      refine ⟨o', List.mem_cons_of_mem _ ho', d, hd, hother o' ho' d hd ▸ hqd, ?_⟩
      simp only [takeOutputs, hc, hrec]
      exact herr

/-- What the composite takes from inside fits outside, or an output is missing to which nothing
was ever sent. -/
lemma Stocked.takeOutputs (hf : w.Fitted n inner) (h : Stocked w v inner ds) :
    (∀ produced, (v.takeOutputs inner .empty n.outputs).1 = .ok produced →
      produced.Yields n.outputs) ∧
    ∀ x, (v.takeOutputs inner .empty n.outputs).1 = .error x → ∃ c ∈ inner.channels,
      inner.channel? x = some c ∧ (w.conduit c).queue = [] ∧ ∀ b y, .sent b c y ∉ ds := by
  have hnd := (Node.nodup_of_wiringFault? hf.wired).2
  have hcalm : ∀ o ∈ n.outputs, ∃ c, inner.channel? o.name = some c ∧ (v.conduit c).Calm :=
    fun o ho => by
      obtain ⟨c, hc, -, hchan, -, hread⟩ := hf.behind ho
      exact ⟨c, hchan, h.calm c hc hread⟩
  by_cases hempty : ∃ o ∈ n.outputs, ∃ c, inner.channel? o.name = some c ∧
      (v.conduit c).queue = []
  · obtain ⟨o, ho, c, hchan, hq, herr⟩ :=
      takeOutputs_of_empty hf.sound n.outputs hnd v .empty hcalm hempty
    refine ⟨fun produced hok => (by rw [herr] at hok; cases hok), fun x hx => ?_⟩
    obtain rfl : o.name = x := Except.error.inj (herr.symm.trans hx)
    obtain ⟨d, hd, -, hchan', -, hread⟩ := hf.behind ho
    obtain rfl := Option.some.inj (hchan.symm.trans hchan')
    exact ⟨c, hd, hchan, h.stock c hd hread hq⟩
  · obtain ⟨produced, hok, -, hall⟩ := takeOutputs_of_queues hf.sound n.outputs hnd v .empty
      fun o ho => by
        obtain ⟨c, hchan, hc⟩ := hcalm o ho
        exact ⟨c, hchan, hc.orderly, hc.line, fun hq => hempty ⟨o, ho, c, hchan, hq⟩⟩
    refine ⟨fun produced' hok' o ho => ?_, fun x hx => (by rw [hok] at hx; cases hx)⟩
    obtain rfl := Except.ok.inj (hok.symm.trans hok')
    obtain ⟨c, hc, -, hchan, htype, hread⟩ := hf.behind ho
    obtain ⟨x, hx, hget⟩ := hall o ho c hchan
    exact ⟨x, hget, htype ▸ h.typed c hc hread x hx⟩

/-- A step of a composite that gathers touches none of the channels inside. -/
lemma Pending.dealt (hf : w.Fitted n inner) (h : Pending w v a n inner)
    (ho : ∀ x, (v.conduits x).Orderly) (hout : v.Outside a u) (hc : c ∈ n.inputs)
    {s : Stage} {q : Conduit Address} (hsh : v.Shift u a k s (update v.conduits c.id q))
    (hq : q.queue ⊆ (v.conduit c).queue) : Pending w u a n inner where
  vacant := h.vacant.outside ho hout
  spared := h.spared.trans (.same hsh.started fun _ hd => hf.conduit_of_input hc hsh.conduits hd)
  inputs d hd x hx := by
    rw [conduit, hsh.conduits] at hx
    refine h.inputs d hd x ?_
    by_cases hid : d.id = c.id
    · rw [hid, update_same] at hx
      rw [conduit, hid]
      exact hq hx
    · rwa [update_of_ne hid] at hx

/-- When the composite goes inside, all that was sent there is there. -/
lemma Pending.stocked (hf : w.Fitted n inner) (h : Pending w v a n inner) (hkept : v.Kept a ds)
    (hk : v.workers a = some k) {inputs : Payload} {id : Nat}
    (hs : k.stage = .entering inner inputs) (hholds : inputs.Holds n.inputs)
    (he : v.Entered u a k inner id inputs) (hes : ∀ b c x, .sent b c x ∉ es) :
    Stocked w u inner (ds ++ es) := by
  have hunsent : ∀ b c x, .sent b c x ∉ ds := by
    intro b c x hx
    have hb : a <:+ b := hkept.own _ hx
    have hsent := mem_diary_sent.2 hx
    rcases suffix_cases hb with rfl | hbelow
    · have hpage := hkept.page b k hb hk
      rw [hs] at hpage
      obtain ⟨taken, hd, -⟩ := hpage
      rw [hd] at hsent
      cases hsent
    · rw [hkept.blank b hb (h.vacant.workers b hbelow)] at hsent
      cases hsent
  have hsame : ∀ c ∈ inner.channels, c.name ∉ Pipeline.reads inner.nodes →
      u.conduit c = v.conduit c := by
    intro c hc hread
    rw [conduit, he.conduits]
    refine hf.sound.sow_of_notMem hc (fun e hmem hname => hread ?_) _
    obtain ⟨d, hd, hdname, -⟩ := hholds.entry hmem
    rw [← hname, ← hdname]
    exact hf.fits.consumed d hd
  refine ⟨fun c hc hr => ?_, fun c hc hr => ?_, fun c hc hr hq => ⟨?_, fun b x hx => ?_⟩⟩
  · exact hsame c hc hr ▸ h.spared.calm hc (hf.calm c hc)
  · rw [hsame c hc hr]
    exact h.spared.typed hc (hf.typed c hc)
  · exact h.spared.queue_eq_nil hc (hsame c hc hr ▸ hq)
  · exact (List.mem_append.1 hx).elim (hunsent b c x) (hes b c x)

lemma Excused.of_channel {name : String} {x : ChannelError}
    (hx : ∀ c s t, x ≠ .typeMismatch c s t) : Excused w inner ds (.channel name x) :=
  ⟨by simp, by simp, fun _ c s t h => hx c s t (ExecutionError.channel.inj h).2⟩

/-- Only who is sending publishes. -/
lemma unsent_of_stage (hk : v.workers a = some k)
    (hs : ∀ rest total, k.stage ≠ .sending rest total) (b : Address) (c : Channel) (x : Value) :
    .sent b c x ∉ v.workDeeds a expired := fun hx => by
  obtain ⟨-, -, rest, total, hstage⟩ := (sent_mem_workDeeds hk).1 hx
  exact hs _ total hstage

/-- An output that the composite finds missing is one to which nothing was ever sent. -/
lemma Stocked.excused (hf : w.Fitted n inner) (h : Stocked w v inner ds) {x : String}
    (taken : (v.takeOutputs inner .empty n.outputs).1 = .error x) (name : String) :
    Excused w inner ds (.missingOutput name x) where
  setup := by simp
  missing _ o ho := by
    obtain ⟨-, rfl⟩ := ExecutionError.missingOutput.inj ho
    exact (h.takeOutputs hf).2 x taken
  types := by simp

section

variable (ho : ∀ x, (v.conduits x).Orderly)
include ho

/-- A composite that gives up before all its inputs are there has started nothing. -/
lemma Pending.ended (h : Pending w v a n inner) (hout : v.Outside a u) {x : ChannelError}
    (hx : ∀ c s t, x ≠ .typeMismatch c s t) (name : String) :
    Phase w u a n inner ds (.ended (.error (.channel name x))) :=
  ⟨.inl (h.vacant.outside ho hout), fun e he => by
    obtain rfl := Except.error.inj he
    exact .of_channel hx⟩

/-- With the value it takes the composite gathers on, or it has all its inputs. -/
lemma Pending.took (hf : w.Fitted k.node inner) (h : Pending w v a k.node inner)
    (hout : v.Outside a u) {got : Payload} {pre rest : List Channel}
    (hins : k.node.inputs = pre ++ c :: rest) (hholds : got.Holds pre) {x : Value}
    {q₁ q₂ : Conduit Address} (permit : (v.conduit c).usePermit? a = some q₁)
    (pop : q₁.pop? = some (x, q₂))
    (hsh : v.Shift u a k (k.node.gather (got.insert c.name x) rest)
      (update v.conduits c.id q₂)) :
    Phase w u a k.node inner ds (k.node.gather (got.insert c.name x) rest) := by
  have hmem : c ∈ k.node.inputs := by simp [hins]
  have hqueue := Conduit.queue_take permit pop
  have hx := h.inputs c hmem x (hqueue ▸ List.mem_cons_self)
  have hnd := (Node.nodup_of_wiringFault? hf.wired).1
  rw [Node.ins, hins, List.map_append, List.map_cons, List.nodup_append] at hnd
  have hholds' := hholds.insert hx fun hm => hnd.2.2 _ hm _ List.mem_cons_self rfl
  have hins' : k.node.inputs = (pre ++ [c]) ++ rest := by simpa using hins
  have hpend := h.dealt hf ho hout hmem hsh (hqueue ▸ List.subset_cons_self _ _)
  rcases k.node.gather_cases (got.insert c.name x) rest with
    ⟨d, cs, rfl, hg⟩ | ⟨rfl, ⟨logic, hl, -⟩ | ⟨q, hq, hg⟩⟩
  · rw [hg]
    exact ⟨hpend, _, hins', hholds'⟩
  · -- a composite has no logic of its own
    have hnone := Node.inner?_of_logic? hl
    rw [hf.wraps] at hnone
    cases hnone
  · rw [hg]
    obtain rfl := Option.some.inj (hf.wraps.symm.trans hq)
    rw [List.append_nil] at hins'
    exact ⟨rfl, hpend, hins' ▸ hholds'⟩

/-- What was so before the composite reports is so after it has. -/
lemma Phase.told {result : Except ExecutionError Unit}
    (h : Phase w v a n inner ds (.ended result)) (hout : v.Outside a u)
    (hes : ∀ b c x, .sent b c x ∉ es) : Phase w u a n inner (ds ++ es) (.reported result) :=
  ⟨h.1.imp (·.outside ho hout) (·.outside hout), fun e he =>
    (h.2 e he).append fun b c x _ => hes b c x⟩

end

/-- Nothing stands in the way of the composite when it has its inputs. -/
lemma Phase.enters (hf : w.Fitted n inner) {q : Pipeline} {inputs : Payload}
    (h : Phase w v a n inner ds (.entering q inputs)) :
    ¬ (v.started q.id = true ∨ v.validate q inputs ≠ .ok ()) := by
  obtain ⟨rfl, hpending, hholds⟩ := h
  obtain ⟨hnew, hvalid⟩ := hf.accepted hpending.spared hholds
  rintro (hstarted | hinvalid)
  · rw [hnew] at hstarted
    cases hstarted
  · exact hinvalid hvalid

section

variable {q : Pipeline} {run : Run} {result : Except ExecutionError Report}
  (h : Phase w v a n inner ds (.inside q)) (hout : v.Outside a u) (hrun : v.runs a = some run)
  (hret : run.collector = .returned result)
include h hout hrun hret

lemma Phase.spent : Spent u a inner :=
  Spent.outside ⟨h.2.1, run, hrun, result, hret⟩ hout

lemma Phase.innerFailed (name : String) (e : ExecutionError) :
    Phase w u a n inner es (.ended (.error (.innerPipeline name e))) :=
  ⟨.inr (h.spent hout hrun hret), fun _ he => by
    obtain rfl := Except.error.inj he
    exact ⟨by simp, by simp, by simp⟩⟩

lemma Phase.left (hf : w.Fitted n inner) {produced : Payload}
    (taken : (v.takeOutputs q .empty n.outputs).1 = .ok produced) :
    Phase w u a n inner es (.checking produced) := by
  refine ⟨h.spent hout hrun hret, ?_⟩
  obtain ⟨rfl, -, hstocked⟩ := h
  exact (hstocked.takeOutputs hf).1 produced taken

lemma Phase.missed (hf : w.Fitted n inner) {x : String}
    (taken : (v.takeOutputs q .empty n.outputs).1 = .error x) (name : String)
    (hes : ∀ b c y, .sent b c y ∉ es) :
    Phase w u a n inner (ds ++ es) (.ended (.error (.missingOutput name x))) := by
  refine ⟨.inr (h.spent hout hrun hret), fun e he => ?_⟩
  obtain rfl := Except.error.inj he
  obtain ⟨rfl, -, hstocked⟩ := h
  exact (hstocked.excused hf taken name).append fun b c y _ => hes b c y

end

/-- A step of its own takes the composite to a stage of which all that `Phase` says holds. -/
lemma Underway.restaged (hf : w.Fitted k.node inner) (ha : a ≠ [])
    (h : Underway w v a k.node inner ds) (hk : v.workers a = some k)
    (hst : v.Stride u a k expired) :
    ∃ s, u.workers a = some { k with stage := s } ∧ k.node.Suits s ∧
      Phase w u a k.node inner (ds ++ v.workDeeds a expired) s := by
  obtain ⟨k', hk', -, hsuits, hphase⟩ := h.worker
  obtain rfl := Option.some.inj (hk.symm.trans hk')
  have ho := h.orderly
  have hpage := h.kept.page a k List.suffix_rfl hk
  have unsent : (∀ rest total, k.stage ≠ .sending rest total) →
      ∀ b c x, .sent b c x ∉ v.workDeeds a expired := unsent_of_stage hk
  have beside : ∀ {s f}, v.Shift u a k s f → (∀ q, s ≠ .inside q) → v.Outside a u :=
    hst.outside_of_shift ha
  have report : ∀ {result}, v.Told u a k result → v.Outside a u := hst.outside_of_told ha
  have on : ∀ {s f}, v.Shift u a k s f → k.node.Suits s →
      Phase w u a k.node inner (ds ++ v.workDeeds a expired) s →
      ∃ s, u.workers a = some { k with stage := s } ∧ k.node.Suits s ∧
        Phase w u a k.node inner (ds ++ v.workDeeds a expired) s :=
    fun {s _} hsh hs hp => ⟨s, by rw [hsh.workers, update_same], hs, hp⟩
  cases hst with
  | @linedUp got c rest stage alive empty new hsh =>
    rw [stage] at hphase hsuits hsh
    have hmem : c ∈ k.node.inputs := hsuits.2.subset List.mem_cons_self
    exact on hsh hsuits ⟨hphase.1.dealt hf ho (beside hsh (by simp)) hmem hsh
      (List.Subset.refl _), hphase.2⟩
  | took stage alive permit pop hsh =>
    rw [stage] at hphase hsuits
    obtain ⟨hpending, pre, hins, hholds⟩ := hphase
    exact on hsh (Node.suits_gather _ ((List.suffix_cons _ _).trans hsuits.2))
      (hpending.took ho hf (beside hsh (k.node.gather_ne_inside _ _)) hins hholds permit pop hsh)
  | foundNothing stage permit pop hsh =>
    rw [stage] at hphase
    exact on hsh trivial (hphase.1.ended ho (beside hsh (by simp)) (by simp) _)
  | gaveUp stage why hsh =>
    rw [stage] at hphase
    refine on hsh trivial (hphase.1.ended ho (beside hsh (by simp)) ?_ _)
    rcases why with ⟨-, rfl⟩ | ⟨-, d, -, rfl⟩ <;> simp
  | called stage =>
    rw [stage] at hphase
    exact hphase.elim
  | crashed stage =>
    rw [stage] at hphase
    exact hphase.elim
  | entered stage new entry =>
    rw [stage] at hphase hsuits
    obtain ⟨rfl, hpending, hholds⟩ := hphase
    exact ⟨_, entry.worker_self, hsuits, rfl, entry.course hpending.vacant ho,
      hpending.stocked hf h.kept hk stage hholds entry (unsent (by simp [stage]))⟩
  | refused stage why =>
    rw [stage] at hphase
    exact absurd why (hphase.enters hf)
  | innerFailed stage inner_run returned hsh =>
    rw [stage] at hphase
    exact on hsh trivial (hphase.innerFailed (beside hsh (by simp)) inner_run returned _ _)
  | left stage inner_run returned taken hsh =>
    rw [stage] at hphase
    exact on hsh trivial (hphase.left (beside hsh (by simp)) inner_run returned hf taken)
  | missed stage inner_run returned taken hsh =>
    have hunsent := unsent (by simp [stage])
    rw [stage] at hphase
    exact on hsh trivial
      (hphase.missed (beside hsh (by simp)) inner_run returned hf taken _ hunsent)
  | checked stage fits hsh =>
    rw [stage] at hphase
    exact on hsh trivial (hphase.1.outside (beside hsh (by simp)))
  | rejected stage misfit hsh =>
    rw [stage] at hphase
    obtain ⟨ready, hready, -⟩ := Node.prepare_of_yields hphase.2
    rw [misfit] at hready
    cases hready
  | sent stage fits hsh =>
    rw [stage] at hphase
    exact on hsh trivial (Spent.outside hphase (beside hsh (by simp)))
  | unsent stage misfit hsh =>
    rw [stage] at hpage
    obtain ⟨result, -, -, -, hall⟩ := hpage
    rw [hall _ List.mem_cons_self] at misfit
    cases misfit
  | finished stage hsh =>
    rw [stage] at hphase
    exact on hsh trivial ⟨.inr (Spent.outside hphase (beside hsh (by simp))),
      fun e he => by cases he⟩
  | @told result stage told =>
    have hunsent := unsent (by simp [stage])
    rw [stage] at hphase
    exact ⟨.reported result, by rw [told.workers, update_same], trivial,
      hphase.told ho (report told) hunsent⟩

/-- With each step of its own the composite goes on as it should. -/
theorem Underway.own (hf : w.Fitted n inner) (ha : a ≠ []) (h : Underway w v a n inner ds)
    (hstep : v.work? a expired = some u) :
    Underway w u a n inner (ds ++ v.workDeeds a expired) := by
  obtain ⟨k, hk, rfl, hsuits, hphase⟩ := h.worker
  have hst := stride_of_worker hk hstep
  have hkept := h.kept.work List.suffix_rfl hk hf.wired hsuits
    (fun q inputs hs i => by
      rw [hs] at hphase
      exact hphase.2.1.vacant.workers _ (below_cons.2 List.suffix_rfl)) hstep
  obtain ⟨s, hself, hsuits', hphase'⟩ := h.restaged hf ha hk hst
  exact ⟨hkept, fun x => (hst.aside x (h.orderly x)).1, _, hself, rfl, hsuits', hphase'⟩

/-! ### The whole call -/

theorem Underway.step (hf : w.Fitted n inner) (ha : a ≠ []) (h : Underway w v a n inner ds)
    (hm : m.From a) (hs : v.step? m = some u) : Underway w u a n inner (ds ++ v.deeds m) := by
  rcases from_cases hm with (rfl | rfl) | hbelow
  · exact h.own hf ha hs
  · exact h.own hf ha hs
  · exact h.below hf hbelow hs

lemma Commissioned.underway (hcom : Commissioned w₀ w a n inner) (hf : w.Fitted n inner) :
    Underway w w a n inner [] := by
  obtain ⟨token, limit, hk⟩ := hcom.worker
  have hpending : Pending w w a n inner := ⟨hcom.vacant, .refl _ _, hcom.inputs⟩
  have hkept : w.Kept a [] := by
    refine ⟨fun b k hb hk' => ?_, fun _ _ _ => rfl, fun _ hd => by cases hd⟩
    rcases suffix_cases hb with rfl | hb
    · obtain rfl := Option.some.inj (hk.symm.trans hk')
      exact page_gather rfl rfl
    · rw [hcom.vacant.workers b hb] at hk'
      cases hk'
  refine ⟨hkept, hcom.orderly, _, hk, rfl, Node.suits_gather _ List.suffix_rfl, ?_⟩
  rcases n.gather_cases .empty n.inputs with
    ⟨c, cs, hins, hg⟩ | ⟨hins, ⟨logic, hl, hg⟩ | ⟨q, hq, hg⟩⟩ <;> simp only [Worker.new, hg]
  · exact ⟨hpending, [], hins, Payload.holds_empty⟩
  · have := Node.inner?_of_logic? hl
    rw [hf.wraps] at this
    cases this
  · obtain rfl := Option.some.inj (hf.wraps.symm.trans hq)
    exact ⟨rfl, hpending, hins ▸ Payload.holds_empty⟩

theorem underway_of_errand (hcom : Commissioned w₀ w a n inner) (hf : w.Fitted n inner)
    (h : w.Errand a (Beside a n inner) ds v) : Underway w v a n inner ds := by
  induction h with
  | start => exact hcom.underway hf
  | move _ own step ih => exact ih.step hf hcom.addressed own step
  | others _ act ih => exact ih.beside act

/-- What was published inside stays inside. -/
lemma Underway.inward (hf : w.Fitted n inner) (h : Underway w v a n inner ds) {x : Value}
    (hx : .sent b c x ∈ ds) (hb : b ≠ a) :
    ∃ path q, inner.level? path = some q ∧ c ∈ q.channels := by
  obtain ⟨k, hk, -, -, hphase⟩ := h.worker
  have hbelow : Below a b := (suffix_cases (h.kept.own _ hx)).resolve_left hb
  rcases hphase.vacant_or_course with hv | hc
  · obtain ⟨k', hk'⟩ := h.kept.exists_worker hx
    rw [hv.workers b hbelow] at hk'
    cases hk'
  · exact h.kept.inward hf.laid hc hbelow hx

/-- A move of the call touches the channels of the node and those inside, and no others. -/
lemma Underway.touched (hf : w.Fitted n inner) (h : Underway w v a n inner ds) (hm : m.From a)
    (hs : v.step? m = some u) {x : Nat} (hx : u.conduits x ≠ v.conduits x) :
    (∃ c ∈ n.channels, c.id = x) ∨
      ∃ path q c, inner.level? path = some q ∧ c ∈ q.channels ∧ c.id = x := by
  obtain ⟨k, hk, rfl, hsuits, hphase⟩ := h.worker
  have own : ∀ {expired}, v.work? a expired = some u → (∃ c ∈ k.node.channels, c.id = x) ∨
      ∃ path q c, inner.level? path = some q ∧ c ∈ q.channels ∧ c.id = x := by
    intro expired hstep
    have hst := stride_of_worker hk hstep
    rcases hst.conduit_cases hsuits (h.kept.page a k List.suffix_rfl hk) x with
      hsame | ⟨c, hc, hid⟩ | ⟨q, hq, c, hc, hid⟩ | ⟨c, -, -, -, hc, hid, -⟩
    · exact absurd hsame hx
    · exact .inl ⟨c, List.mem_append_left _ hc, hid⟩
    · obtain rfl := Option.some.inj (hf.wraps.symm.trans hq)
      exact .inr ⟨[], inner, c, rfl, hc, hid⟩
    · exact .inl ⟨c, List.mem_append_right _ hc, hid⟩
  rcases from_cases hm with (rfl | rfl) | hbelow
  · exact own hs
  · exact own hs
  · rcases hphase.vacant_or_course with hv | hc
    · rw [hv.step?_eq_none hbelow] at hs
      cases hs
    · exact .inr ((hc.conduit_cases hf.laid (fun b k' hb => h.kept.page b k' hb.suffix) hbelow hs
        x).resolve_left hx)

/-- **The boundary of a composite is sound.** In the first call of a node that was made of `inner`,
whoever else is at work meanwhile, the start inside is accepted whenever the node comes to it. If
the call fails, it is neither for the start inside nor for the type of what comes out, an output is
missing only if nothing was there before and nobody inside published to it, and nothing was
published on the node's own outputs. And no step of the call touches any channel but those of the
node and those inside. -/
theorem composite_call_sound {name : String} {inputs outputs : List Channel}
    (hbuilt : w₀.composite name inputs outputs inner = .ok n) (hapart : Apart n inner)
    (hcom : Commissioned w₀ w a n inner) (h : w.Errand a (Beside a n inner) ds v) :
    (∀ k q seeds token, v.workers a = some k → k.stage = .entering q seeds →
      q = inner ∧ ∃ u, v.start a q seeds token true = .ok u) ∧
    (∀ k e, v.workers a = some k → k.Ended (.error e) → Excused w inner ds e ∧
      ∀ o ∈ n.outputs, ∀ b c x, .sent b c x ∈ ds → c.id ≠ o.id) ∧
    ∀ m u, m.From a → v.step? m = some u → ∀ x, u.conduits x ≠ v.conduits x →
      (∃ c ∈ n.channels, c.id = x) ∨
        ∃ path q c, inner.level? path = some q ∧ c ∈ q.channels ∧ c.id = x := by
  have hf := hcom.fitted hapart hbuilt
  have hun := underway_of_errand hcom hf h
  refine ⟨fun k q seeds token hk hs => ?_, fun k e hk hended => ⟨?_, fun o ho b c x hx hid => ?_⟩,
    fun m u hm hs x hx => hun.touched hf hm hs hx⟩
  · obtain ⟨k', hk', rfl, -, hphase⟩ := hun.worker
    obtain rfl := Option.some.inj (hk.symm.trans hk')
    rw [hs] at hphase
    obtain ⟨rfl, hpending, hholds⟩ := hphase
    obtain ⟨hnew, hvalid⟩ := hf.accepted hpending.spared hholds
    exact ⟨rfl, exists_start a token hnew hvalid⟩
  · obtain ⟨k', hk', rfl, -, hphase⟩ := hun.worker
    obtain rfl := Option.some.inj (hk.symm.trans hk')
    rcases hended with hs | hs <;> rw [hs] at hphase <;> exact hphase.2 e rfl
  · by_cases hb : b = a
    · subst hb
      have hpage := hun.kept.page b k List.suffix_rfl hk
      have hnone : (diary ds b).sent = [] := by
        rcases hended with hs | hs <;> rw [hs] at hpage <;> exact hpage.1.2
      have hsent := mem_diary_sent.2 hx
      rw [hnone] at hsent
      cases hsent
    · obtain ⟨path, q, hlevel, hc⟩ := hun.inward hf hx hb
      exact hf.apart o (List.mem_append_right _ ho) path q c hlevel hc hid.symm

/-- A pipeline whose one node gives nothing. -/
def mute : Pipeline where
  id := 0
  name := "mute"
  options := { validateInputs := false }
  channels := [⟨1, "x", .text⟩, ⟨2, "y", .text⟩]
  nodes := [⟨"t", [⟨1, "x", .text⟩], [⟨2, "y", .text⟩],
    .transform (.pure .function fun _ => .returned .empty)⟩]

/-- The mute pipeline as a node. -/
def mumbler : Node := ⟨"k", [⟨3, "x", .text⟩], [⟨4, "y", .text⟩], .composite mute⟩

/-- A world in which the node has an input and is about to be processed. -/
def asked : World :=
  (initial.setConduit ⟨3, "x", .text⟩ (({} : Conduit Address).send (.text "hi"))).spawn [9] mumbler
    [9] none

/-- A composite of the mute pipeline starts it, and then misses its output. -/
theorem mute_gives_nothing :
    initial.composite "k" [⟨3, "x", .text⟩] [⟨4, "y", .text⟩] mute = .ok mumbler ∧
      Apart mumbler mute ∧ Commissioned initial asked [9] mumbler mute ∧ ∃ ds v k e,
      asked.Errand [9] (Beside [9] mumbler mute) ds v ∧ v.workers [9] = some k ∧
      k.Ended (.error e) ∧ e = .missingOutput "k" "y" ∧ Excused asked mute ds e ∧
      ∀ o ∈ mumbler.outputs, ∀ b c x, .sent b c x ∈ ds → c.id ≠ o.id := by
  have hbuilt : initial.composite "k" [⟨3, "x", .text⟩] [⟨4, "y", .text⟩] mute = .ok mumbler := by
    cbv
  have hflat : mute.Flat := by simp [Pipeline.Flat, mute, Node.inner?]
  have hlaid : mute.Laid := by
    refine .of_flat ⟨by decide, by decide, by decide, ?_, ?_⟩ hflat <;>
      simp only [mute, List.forall_mem_cons]
    · exact ⟨rfl, fun _ h => by cases h⟩
    · exact ⟨rfl, fun _ h => by cases h⟩
  have hconduit : ∀ x, asked.conduits x = initial.conduits x ∨
      asked.conduits x = ({} : Conduit Address).send (.text "hi") := by
    intro x
    by_cases hx : x = 3
    · exact .inr (by rw [hx]; rfl)
    · exact .inl (update_of_ne hx)
  have hcalm : ∀ x, (asked.conduits x).Calm := fun x => by
    rcases hconduit x with h | h <;> rw [h] <;> exact ⟨rfl, rfl⟩
  have hapart : Apart mumbler mute := fun c hc path q d hq hd => by
    obtain ⟨-, rfl⟩ := hflat.level? hq
    revert c d
    decide
  have hcom : Commissioned initial asked [9] mumbler mute := by
    refine ⟨hlaid, fun _ _ => ⟨rfl, rfl⟩,
      fun _ _ _ h => (by cases h), ⟨rfl, fun c hc => ⟨[], by simp, ?_⟩⟩, by simp, ⟨_, _, rfl⟩,
      ⟨fun _ _ => rfl, fun b hb => update_of_ne hb.ne, fun x b hb => ?_⟩,
      fun x => (hcalm x).orderly, fun c hc x hx => ?_⟩
    · refine update_of_ne ?_
      revert c
      decide
    · rw [(hcalm x).line] at hb
      cases hb
    · obtain rfl : c = ⟨3, "x", .text⟩ := by simpa [mumbler] using hc
      obtain rfl : x = .text "hi" := List.mem_singleton.1 hx
      rfl
  obtain ⟨v, k, hsteps, hk, hs⟩ : ∃ v k, asked.steps [.work [9], .work [9], .work [0, 9],
      .work [0, 9], .work [0, 9], .work [0, 9], .work [0, 9], .collect [9], .conclude [9],
      .work [9]] = some v ∧ v.workers [9] = some k ∧
        k.stage = .ended (.error (.missingOutput "k" "y")) := ⟨_, _, rfl, rfl, rfl⟩
  have hbegin : asked.Errand [9] (Beside [9] mumbler mute) [] asked := .start
  obtain ⟨ds, h⟩ := hbegin.steps (by simp [Move.From]) hsteps
  obtain ⟨-, hfail, -⟩ := composite_call_sound hbuilt hapart hcom h
  obtain ⟨hexcused, hsilent⟩ := hfail k _ hk (.inl hs)
  exact ⟨hbuilt, hapart, hcom, _, v, k, _, h, hk, .inl hs, rfl, hexcused, hsilent⟩

/-- A source that says something, and a source that fails. -/
def leak : Pipeline where
  id := 0
  name := "leak"
  options := { failureStrategy := .continueOnError, validateInputs := false }
  channels := [⟨1, "y", .text⟩, ⟨2, "z", .text⟩]
  nodes := [⟨"s", [], [⟨1, "y", .text⟩],
      .source (.pure .producer fun _ => .returned (.singleton "y" (.text "hi")))⟩,
    ⟨"f", [], [⟨2, "z", .text⟩], .source (.pure .producer fun _ => .failed (.of "boom"))⟩]

/-- The leak as a node whose output is the channel inside. -/
def spout : Node := ⟨"k", [], [⟨1, "y", .text⟩], .composite leak⟩

/-- A node whose output is one of the channels inside may fail, and yet something has arrived on its
output. -/
theorem leak_fills_output :
    initial.composite "k" [] [⟨1, "y", .text⟩] leak = .ok spout ∧
      Commissioned initial (initial.spawn [9] spout [9] none) [9] spout leak ∧
      ∃ ds v k e, (initial.spawn [9] spout [9] none).Errand [9] (Beside [9] spout leak) ds v ∧
        v.workers [9] = some k ∧ k.Ended (.error e) ∧
        ∃ o ∈ spout.outputs, (initial.conduit o).queue = [] ∧ (v.conduit o).queue ≠ [] := by
  have hbuilt : initial.composite "k" [] [⟨1, "y", .text⟩] leak = .ok spout := by cbv
  have hlaid : leak.Laid := by
    refine .of_flat ⟨by decide, by decide, by decide, ?_, ?_⟩
      (by simp [Pipeline.Flat, leak, Node.inner?]) <;> simp only [leak, List.forall_mem_cons]
    · exact ⟨rfl, rfl, fun _ h => by cases h⟩
    · exact ⟨rfl, rfl, fun _ h => by cases h⟩
  have hcom : Commissioned initial (initial.spawn [9] spout [9] none) [9] spout leak :=
    ⟨hlaid, fun _ _ => ⟨rfl, rfl⟩, fun _ _ _ h => (by cases h), .same rfl fun _ _ => rfl, by simp,
      ⟨_, _, rfl⟩, ⟨fun _ _ => rfl, fun b hb => update_of_ne hb.ne, fun _ _ h => by cases h⟩,
      orderly_initial, fun c hc => by cases hc⟩
  obtain ⟨v, k, hsteps, hk, hs, hq⟩ : ∃ v k, (initial.spawn [9] spout [9] none).steps [.work [9],
      .work [0, 9], .work [0, 9], .work [0, 9], .work [0, 9], .work [0, 9], .work [1, 9],
      .work [1, 9], .collect [9], .collect [9], .conclude [9], .work [9]] = some v ∧
      v.workers [9] = some k ∧
        k.stage = .ended (.error (.innerPipeline "k" (.logic "f" (.of "boom")))) ∧
        (v.conduits 1).queue = [.text "hi"] := ⟨_, _, rfl, rfl, rfl, rfl⟩
  have hbegin : (initial.spawn [9] spout [9] none).Errand [9] (Beside [9] spout leak) []
    (initial.spawn [9] spout [9] none) := .start
  obtain ⟨ds, h⟩ := hbegin.steps (by simp [Move.From]) hsteps
  refine ⟨hbuilt, hcom, _, v, k, _, h, hk, .inl hs, ⟨1, "y", .text⟩, List.mem_singleton_self _,
    rfl, ?_⟩
  rw [conduit, hq]
  exact List.cons_ne_nil _ _

end World

end Dataflow
