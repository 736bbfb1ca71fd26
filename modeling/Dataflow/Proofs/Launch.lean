import Dataflow.Proofs.Nesting
import Dataflow.Proofs.Permit
import Dataflow.Run.Work

/-!
What starting a run does to the world, and what a composite takes from the channels inside it.

Main statements: a start that is accepted puts the seeds on their channels, makes one worker for
each node, and touches nothing else (`start_eq_ok`); a start is refused only for a pipeline that
was started before or that does not pass its validation (`start_eq_error`).
-/

namespace Dataflow

lemma aside_update {f : Nat → Conduit Address} {a : Address} {y : Nat} {c : Conduit Address}
    (h : (f y).Aside a c) (x : Nat) : (f x).Aside a (update f y c x) := by
  by_cases hx : x = y
  · subst hx
    rwa [update_same]
  · rw [update_of_ne hx]
    exact .refl _ _

namespace Pipeline

/-- The conduits after the entries have been sent to the channels of their names. -/
def sow (p : Pipeline) :
    List (String × Value) → (Nat → Conduit Address) → Nat → Conduit Address
  | [], f => f
  | (name, v) :: rest, f =>
    match p.channel? name with
    | none => p.sow rest f
    | some c => p.sow rest (update f c.id ((f c.id).send v))

lemma mem_of_channel? {p : Pipeline} {name : String} {c : Channel}
    (h : p.channel? name = some c) : c ∈ p.channels ∧ c.name = name :=
  ⟨List.mem_of_find?_eq_some h, by simpa using List.find?_some h⟩

/-- Seeds only touch the channels of the pipeline. -/
lemma sow_of_forall_ne {p : Pipeline} {x : Nat} (hx : ∀ c ∈ p.channels, c.id ≠ x)
    (entries : List (String × Value)) (f : Nat → Conduit Address) :
    p.sow entries f x = f x := by
  induction entries generalizing f with
  | nil => rfl
  | cons e rest ih =>
    obtain ⟨name, v⟩ := e
    cases hc : p.channel? name with
    | none => simpa only [sow, hc] using ih f
    | some c =>
      simp only [sow, hc]
      rw [ih, update_of_ne (hx c (mem_of_channel? hc).1).symm]

lemma aside_sow (p : Pipeline) (a : Address) (x : Nat) (entries : List (String × Value))
    (f : Nat → Conduit Address) : (f x).Aside a (p.sow entries f x) := by
  induction entries generalizing f with
  | nil => exact .refl _ _
  | cons e rest ih =>
    obtain ⟨name, v⟩ := e
    cases hc : p.channel? name with
    | none => simpa only [sow, hc] using ih f
    | some c =>
      simp only [sow, hc]
      exact (aside_update (Conduit.aside_send _ _ _) x).trans (ih _)

end Pipeline

namespace World

lemma checkSeeds_eq_ok {p : Pipeline} {entries : List (String × Value)} :
    checkSeeds p entries = .ok () ↔
      ∀ e ∈ entries, ∃ c, p.channel? e.1 = some c ∧ c.type.accepts e.2 = true := by
  induction entries with
  | nil => simp [checkSeeds]
  | cons e rest ih =>
    obtain ⟨name, v⟩ := e
    rw [checkSeeds, List.forall_mem_cons, ← ih]
    cases hc : p.channel? name with
    | none => simp
    | some c =>
      by_cases hv : c.type.accepts v = true
      · simp [Channel.check_eq_ok_iff.2 hv, hv]
      · simp [Channel.check_eq_error (Bool.eq_false_iff.2 hv), hv]

lemma validate_eq_ok {w : World} {p : Pipeline} {initial : Payload} :
    w.validate p initial = .ok () ↔ checkSeeds p initial.entries = .ok () ∧
      (p.options.validateInputs = true → p.checkSatisfiable w.queued initial.keys = .ok ()) := by
  unfold validate
  cases checkSeeds p initial.entries with
  | error e => simp [bind, Except.bind]
  | ok u =>
    cases p.options.validateInputs <;> simp [bind, Except.bind, pure, Except.pure]

/-- Seeds that were checked are all sent. -/
lemma seed_of_checkSeeds {p : Pipeline} {entries : List (String × Value)}
    (h : checkSeeds p entries = .ok ()) (w : World) :
    ∃ w', w.seed p entries = .ok w' ∧ w'.conduits = p.sow entries w.conduits ∧
      w'.workers = w.workers ∧ w'.runs = w.runs ∧ w'.started = w.started ∧
      w'.cancelled = w.cancelled ∧ w'.calls = w.calls := by
  rw [checkSeeds_eq_ok] at h
  induction entries generalizing w with
  | nil => exact ⟨w, rfl, rfl, rfl, rfl, rfl, rfl, rfl⟩
  | cons e rest ih =>
    obtain ⟨name, v⟩ := e
    obtain ⟨⟨c, hc, hv⟩, hrest⟩ := List.forall_mem_cons.1 h
    have hsend : w.send c v = .ok (w.setConduit c ((w.conduit c).send v)) := by
      simp [send, Channel.check_eq_ok_iff.2 hv, bind, Except.bind, pure, Except.pure]
    obtain ⟨w', hw', hcs, hothers⟩ := ih hrest
      ((w.setConduit c ((w.conduit c).send v)).say (.initialValueSeeded p.name name))
    refine ⟨w', ?_, ?_, hothers⟩
    · simp only [seed, hc, hsend, hw']
    · rw [hcs, Pipeline.sow, hc]
      rfl

/-- The workers after those of a run at `r` have been made. -/
def staff (f : Address → Option Worker) (r : Address) (nodes : List Node) (token : Token)
    (limit : Option Duration) : Address → Option Worker
  | [] => f []
  | i :: b =>
    if b = r then (nodes[i]?).elim (f (i :: b)) fun n => some (.new n token limit)
    else f (i :: b)

lemma staff_cons_same (f : Address → Option Worker) (r : Address) (nodes : List Node)
    (token : Token) (limit : Option Duration) (i : Nat) :
    staff f r nodes token limit (i :: r) =
      (nodes[i]?).elim (f (i :: r)) fun n => some (.new n token limit) := by
  simp [staff]

lemma staff_of_tail_ne {f : Address → Option Worker} {r x : Address} {nodes : List Node}
    {token : Token} {limit : Option Duration} (h : ∀ i, x ≠ i :: r) :
    staff f r nodes token limit x = f x := by
  cases x with
  | nil => rfl
  | cons i b =>
    have hb : b ≠ r := fun hb => h i (hb ▸ rfl)
    simp [staff, hb]

lemma workers_spawnAll (w : World) (r : Address) (token : Token) (limit : Option Duration)
    (i : Nat) (nodes : List Node) :
    (w.spawnAll r token limit i nodes).workers [] = w.workers [] ∧
      ∀ j b, (w.spawnAll r token limit i nodes).workers (j :: b) =
        if b = r ∧ i ≤ j then
          (nodes[j - i]?).elim (w.workers (j :: b)) fun n => some (.new n token limit)
        else w.workers (j :: b) := by
  induction nodes generalizing w i with
  | nil => exact ⟨rfl, fun j b => by simp [spawnAll]⟩
  | cons n rest ih =>
    have hspawn : ∀ x, (w.spawn (i :: r) n token limit).workers x =
        update w.workers (i :: r) (some (.new n token limit)) x := fun _ => rfl
    obtain ⟨hnil, hcons⟩ := ih (w.spawn (i :: r) n token limit) (i + 1)
    refine ⟨?_, fun j b => ?_⟩
    · rw [spawnAll, hnil, hspawn, update_of_ne (by simp)]
    · rw [spawnAll, hcons, hspawn]
      by_cases hb : b = r
      · subst hb
        rcases Nat.lt_trichotomy j i with hj | rfl | hj
        · rw [update_of_ne (by simpa using Nat.ne_of_lt hj)]
          simp [show ¬ i + 1 ≤ j by omega, show ¬ i ≤ j by omega]
        · simp [show ¬ j + 1 ≤ j by omega]
        · rw [update_of_ne (by simpa using (Nat.ne_of_lt hj).symm)]
          obtain ⟨d, rfl⟩ : ∃ d, j = i + 1 + d := ⟨j - (i + 1), by omega⟩
          simp [show i ≤ i + 1 + d by omega, show i + 1 + d - i = d + 1 by omega]
      · rw [update_of_ne (by simp [hb])]
        simp [hb]

lemma spawnAll_others (w : World) (r : Address) (token : Token) (limit : Option Duration)
    (i : Nat) (nodes : List Node) :
    (w.spawnAll r token limit i nodes).runs = w.runs ∧
      (w.spawnAll r token limit i nodes).conduits = w.conduits ∧
      (w.spawnAll r token limit i nodes).started = w.started ∧
      (w.spawnAll r token limit i nodes).cancelled = w.cancelled ∧
      (w.spawnAll r token limit i nodes).calls = w.calls := by
  induction nodes generalizing w i with
  | nil => exact ⟨rfl, rfl, rfl, rfl, rfl⟩
  | cons n rest ih => exact ih (w.spawn (i :: r) n token limit) (i + 1)

/-- The world in which a run has just been started. -/
structure Launched (w w' : World) (r : Address) (p : Pipeline) (initial : Payload)
    (token : Token) : Prop where
  workers : w'.workers = staff w.workers r p.nodes token p.options.receiveTimeout
  runs : w'.runs = update w.runs r (some ⟨p, token, [], .idle⟩)
  conduits : w'.conduits = p.sow initial.entries w.conduits
  started : w'.started = update w.started p.id true
  cancelled : w'.cancelled = w.cancelled
  calls : w'.calls = w.calls

lemma launched_launch (w : World) (r : Address) (p : Pipeline) (token : Token) :
    (w.launch r p token).workers = staff w.workers r p.nodes token p.options.receiveTimeout ∧
      (w.launch r p token).runs = update w.runs r (some ⟨p, token, [], .idle⟩) := by
  refine ⟨?_, (spawnAll_others _ _ _ _ _ _).1⟩
  obtain ⟨hnil, hcons⟩ := workers_spawnAll
    ((w.say (.pipelineStarted p.name p.nodes.length p.channels.length)).setRun r
      ⟨p, token, [], .idle⟩) r token p.options.receiveTimeout 0 p.nodes
  funext x
  cases x with
  | nil => exact hnil
  | cons j b =>
    refine (hcons j b).trans ?_
    by_cases hb : b = r <;> simp [staff, hb, setRun, say]

theorem start_eq_ok {w w' : World} {r : Address} {p : Pipeline} {initial : Payload}
    {token : Token} {runtime : Bool} (h : w.start r p initial token runtime = .ok w') :
    w.started p.id = false ∧ w.validate p initial = .ok () ∧
      w.Launched w' r p initial token := by
  unfold start at h
  cases hs : w.started p.id with
  | true => simp [hs] at h
  | false =>
    cases hv : w.validate p initial with
    | error e => simp [hs, hv, bind, Except.bind] at h
    | ok u =>
      cases hr : runtime with
      | false => simp [hs, hv, hr, bind, Except.bind, throw, throwThe, MonadExceptOf.throw] at h
      | true =>
        obtain ⟨v, hseed, hcs, hworkers, hruns, hstarted, hcancelled, hcalls⟩ :=
          seed_of_checkSeeds (validate_eq_ok.1 hv).1 (w.markStarted p)
        simp only [hs, hv, hr, hseed, bind, Except.bind, pure, Except.pure] at h
        obtain rfl : v.launch r p token = w' := by simpa using h
        obtain ⟨hlw, hlr⟩ := launched_launch v r p token
        obtain ⟨-, hlc, hls, hlx, hlk⟩ := spawnAll_others
          ((v.say (.pipelineStarted p.name p.nodes.length p.channels.length)).setRun r
            ⟨p, token, [], .idle⟩) r token p.options.receiveTimeout 0 p.nodes
        exact ⟨rfl, rfl, hlw.trans (by rw [hworkers]; rfl), hlr.trans (by rw [hruns]; rfl),
          hlc.trans hcs, hls.trans hstarted, hlx.trans hcancelled, hlk.trans hcalls⟩

theorem start_eq_error {w : World} {r : Address} {p : Pipeline} {initial : Payload}
    {token : Token} {e : GraphError} (h : w.start r p initial token true = .error e) :
    w.started p.id = true ∨ w.validate p initial ≠ .ok () := by
  cases hs : w.started p.id with
  | true => exact .inl rfl
  | false =>
    refine .inr fun hv => ?_
    obtain ⟨v, hseed, -⟩ := seed_of_checkSeeds (validate_eq_ok.1 hv).1 (w.markStarted p)
    simp [start, hs, hv, hseed, bind, Except.bind, pure, Except.pure] at h

/-- Whatever is new and valid can be started. -/
lemma exists_start {w : World} {p : Pipeline} {initial : Payload} (r : Address) (token : Token)
    (hnew : w.started p.id = false) (hvalid : w.validate p initial = .ok ()) :
    ∃ w', w.start r p initial token true = .ok w' := by
  cases hs : w.start r p initial token true with
  | ok w' => exact ⟨w', rfl⟩
  | error e =>
    rcases start_eq_error hs with hst | hv
    · rw [hnew] at hst
      cases hst
    · exact absurd hvalid hv

/-- Taking outputs changes nothing but the conduits inside. -/
lemma takeOutputs_others (w : World) (inner : Pipeline) (got : Payload) (outs : List Channel) :
    (w.takeOutputs inner got outs).2.workers = w.workers ∧
      (w.takeOutputs inner got outs).2.runs = w.runs ∧
      (w.takeOutputs inner got outs).2.started = w.started ∧
      (w.takeOutputs inner got outs).2.cancelled = w.cancelled ∧
      (w.takeOutputs inner got outs).2.calls = w.calls := by
  induction outs generalizing w got with
  | nil => exact ⟨rfl, rfl, rfl, rfl, rfl⟩
  | cons o rest ih =>
    rw [takeOutputs]
    split
    · exact ⟨rfl, rfl, rfl, rfl, rfl⟩
    · next c _ =>
      rcases hrec : w.tryReceive c with ⟨_ | v, w₁⟩
      · obtain rfl : w.setConduit c (w.conduit c).tryReceive.2 = w₁ := congrArg Prod.snd hrec
        exact ⟨rfl, rfl, rfl, rfl, rfl⟩
      · obtain rfl : w.setConduit c (w.conduit c).tryReceive.2 = w₁ := congrArg Prod.snd hrec
        exact ih _ _

lemma takeOutputs_of_forall_ne {inner : Pipeline} {x : Nat}
    (hx : ∀ c ∈ inner.channels, c.id ≠ x) (w : World) (got : Payload) (outs : List Channel) :
    (w.takeOutputs inner got outs).2.conduits x = w.conduits x := by
  induction outs generalizing w got with
  | nil => rfl
  | cons o rest ih =>
    rw [takeOutputs]
    split
    · rfl
    · next c hc =>
      have hne := (hx c (Pipeline.mem_of_channel? hc).1).symm
      rcases hrec : w.tryReceive c with ⟨_ | v, w₁⟩ <;>
        obtain rfl : w.setConduit c (w.conduit c).tryReceive.2 = w₁ := congrArg Prod.snd hrec
      · exact update_of_ne hne
      · exact (ih _ _).trans (update_of_ne hne)

lemma aside_takeOutputs (a : Address) (x : Nat) (w : World) (inner : Pipeline) (got : Payload)
    (outs : List Channel) :
    (w.conduits x).Aside a ((w.takeOutputs inner got outs).2.conduits x) := by
  induction outs generalizing w got with
  | nil => exact .refl _ _
  | cons o rest ih =>
    rw [takeOutputs]
    split
    · exact .refl _ _
    · next c hc =>
      have hstep : (w.conduits x).Aside a
          ((w.setConduit c (w.conduit c).tryReceive.2).conduits x) :=
        aside_update (Conduit.aside_tryReceive _ _) x
      rcases hrec : w.tryReceive c with ⟨_ | v, w₁⟩ <;>
        obtain rfl : w.setConduit c (w.conduit c).tryReceive.2 = w₁ := congrArg Prod.snd hrec
      · exact hstep
      · exact hstep.trans (ih _ _)

end World

end Dataflow
