import Dataflow.Proofs.Crew
import Dataflow.Proofs.Standstill

/-!
Runs in which nothing goes wrong. Where a pipeline is run as it was built, without time limits and
cancellations, with logic that always answers in full, no worker and no run ever fails, and the
books of every level stay balanced.
-/

namespace Dataflow

/-- The worker is through with its body. -/
def Stage.Past : Stage → Prop
  | .checking _ => True
  | .sending _ _ => True
  | .ended _ => True
  | .reported _ => True
  | _ => False

/-- What the worker holds is what its node declares, and it has not failed. -/
def Worker.Upright (k : Worker) : Prop :=
  match k.stage with
  | .gathering got rest => ∃ taken, k.node.inputs = taken ++ rest ∧ got.Holds taken
  | .calling _ inputs => inputs.Holds k.node.inputs
  | .entering _ inputs => inputs.Holds k.node.inputs
  | .inside _ => True
  | .checking produced => produced.Yields k.node.outputs
  | .sending ready _ => ready.map Prod.fst <:+ k.node.outputs ∧
      ∀ e ∈ ready, e.1.type.accepts e.2 = true
  | .ended result => result = .ok ()
  | .reported result => result = .ok ()

/-- Nothing that the receiver has seen, or is about to see, is a failure. -/
structure Run.Clean (run : Run) : Prop where
  unfailed : ¬ run.Failed
  mailbox : ∀ o ∈ run.mailbox, o.result = .ok ()

lemma Run.clean_self (run? : Option Run) : (run? = none ∧ run? = none) ∨ ∃ run run',
    run? = some run ∧ run? = some run' ∧ run'.token = run.token ∧ (run.Clean → run'.Clean) := by
  cases run? with
  | none => exact .inl ⟨rfl, rfl⟩
  | some run => exact .inr ⟨run, run, rfl, rfl, rfl, id⟩

/-- The names that are seeded on the level at an address: those of the whole run, or the inputs
of the composite around the level. -/
def Pipeline.seededAt (p : Pipeline) (seeds : Payload) : Address → List String
  | [] => seeds.keys
  | i :: path => (p.post? (i :: path)).elim [] Node.ins

lemma Worker.upright_gather {k : Worker} {got : Payload} {taken rest : List Channel}
    (hs : k.stage = k.node.gather got rest) (hi : k.node.inputs = taken ++ rest)
    (hg : got.Holds taken) : k.Upright := by
  unfold Upright
  rw [hs]
  rcases k.node.gather_cases got rest with
    ⟨c, cs, rfl, hgather⟩ | ⟨rfl, ⟨logic, -, hgather⟩ | ⟨inner, -, hgather⟩⟩ <;> rw [hgather]
  · exact ⟨taken, hi, hg⟩
  · rw [List.append_nil] at hi
    exact hi ▸ hg
  · rw [List.append_nil] at hi
    exact hi ▸ hg

lemma Stage.not_past_gather (n : Node) (got : Payload) (rest : List Channel) :
    ¬ (n.gather got rest).Past := by
  rcases n.gather_cases got rest with
    ⟨c, cs, -, hg⟩ | ⟨-, ⟨logic, -, hg⟩ | ⟨inner, -, hg⟩⟩ <;> rw [hg] <;> exact id

namespace World

variable {w w₁ v v' : World} {r a b : Address} {p q : Pipeline} {k : Worker} {run : Run}
  {seeds : Payload} {token : Token} {path : Address}

/-- A run of `p` was started at `r` in the world `w` in which `p` was built, without a time limit
on any level and under a token that nobody has cancelled. -/
structure Outset (w w₁ : World) (r : Address) (p : Pipeline) (seeds : Payload) (token : Token) :
    Prop where
  vacant : w.Vacant r
  orderly : ∀ x, (w.conduits x).Orderly
  ready : w.Ready p
  start : w.start r p seeds token true = .ok w₁
  patient : ∀ path q, p.level? path = some q → q.options.receiveTimeout = none
  unrelated : ∀ t ∈ w.cancelled, ¬ t <:+ token ∧ ¬ token <:+ t

lemma Outset.length_le (ho : w.Outset w₁ r p seeds token) {ms : List Move}
    (hplay : w₁.Plays r Alone ms v) : ms.length ≤ 2 * p.effort :=
  length_plays_le ho.vacant ho.orderly ho.start (fun _ _ h => h.elim) hplay

lemma Outset.course (ho : w.Outset w₁ r p seeds token) {ms : List Move}
    (hplay : w₁.Plays r Alone ms v) : v.Course r p :=
  course_of_plays ho.vacant ho.orderly ho.start (fun _ _ h => h.elim) hplay

/-- The run can be played to a standstill, from wherever it has come. -/
lemma Outset.exists_still_after (ho : w.Outset w₁ r p seeds token) {ms : List Move}
    (hplay : w₁.Plays r Alone ms v) : ∃ ns u, v.Plays r Alone ns u ∧ u.Still r := by
  have hbound : ∀ ns u, v.Plays r Alone ns u → ns.length ≤ 2 * p.effort := fun ns u hplay' =>
    (List.suffix_append ms ns).length_le.trans (ho.length_le (hplay.trans hplay'))
  obtain ⟨ns, u, hplay', -, hrest⟩ : ∃ ns u, v.Plays r Alone ns u ∧ True ∧ u.Resting r [] :=
    exists_resting hbound (fun _ _ _ _ _ h _ _ _ _ => h) .start trivial
  exact ⟨ns, u, hplay', hrest.still⟩

lemma Outset.exists_still (ho : w.Outset w₁ r p seeds token) :
    ∃ ms v, w₁.Plays r Alone ms v ∧ v.Still r := ho.exists_still_after .start

/-- In an empty world a run of a pipeline without composites has all that it takes. -/
lemma outset_of_flat (hs : p.Sound) (hflat : p.Flat) (ht : p.options.receiveTimeout = none)
    (hstart : initial.start r p seeds token true = .ok w₁) :
    initial.Outset w₁ r p seeds token where
  vacant := ⟨fun _ _ => rfl, fun _ _ => rfl, fun _ _ h => by cases h⟩
  orderly _ := Conduit.Calm.orderly ⟨rfl, rfl⟩
  ready := ready_of_flat hs hflat (fun _ _ => ⟨rfl, rfl⟩) fun _ _ _ h => by cases h
  start := hstart
  patient path q hq := by
    obtain ⟨-, rfl⟩ := hflat.level? hq
    exact ht
  unrelated _ h := by cases h

/-- Logic that is about to be called will return a fitting value for each output of its node. -/
def Answers (v : World) (r : Address) : Prop :=
  ∀ a k logic inputs, Below r a → v.workers a = some k → k.stage = .calling logic inputs →
    ∃ outputs, (logic.act v.calls inputs).reply = .returned outputs ∧
      outputs.Yields k.node.outputs

/-- The level at `path` has been entered and not left. -/
def Open (v : World) (r path : Address) : Prop :=
  path = [] ∨ ∃ k inner, v.workers (path ++ r) = some k ∧ k.stage = .inside inner

/-- What holds at all times of a run in which nothing goes wrong; `w` is the world before it. -/
structure Smooth (w v : World) (r : Address) (p : Pipeline) (seeds : Payload) (token : Token) :
    Prop where
  cancelled : v.cancelled = w.cancelled
  token : ∃ run, v.runs r = some run ∧ run.token = token
  upright : ∀ a k, Below r a → v.workers a = some k → k.Upright
  entered : ∀ a k inner, Below r a → v.workers a = some k → k.node.inner? = some inner →
    k.stage.Past → v.runs a ≠ none
  clean : ∀ b run, r <:+ b → v.runs b = some run → run.Clean
  typed : ∀ path q c, p.level? path = some q → c ∈ q.channels →
    ∀ x ∈ (v.conduit c).queue, c.type.accepts x = true
  guests : ∀ path q c, p.level? path = some q → c ∈ q.channels →
    ∀ a ∈ (v.conduit c).line, Below r a
  fresh : ∀ path q, p.level? path = some q → v.runs (path ++ r) = none →
    v.started q.id = false ∧ ∀ c ∈ q.channels, v.conduit c = w.conduit c
  balanced : ∀ path q, p.level? path = some q → v.Open r path →
    ∃ crew, v.Crew (path ++ r) crew ∧ w.Balanced v q (p.seededAt seeds path) crew

section

variable {got inputs : Payload} {rest : List Channel} {inner : Pipeline}

/-- A worker that gathers has got all its inputs up to the next. -/
lemma Smooth.gathered (h : w.Smooth v r p seeds token) (ha : Below r a) (hk : v.workers a = some k)
    (hs : k.stage = .gathering got rest) :
    ∃ taken, k.node.inputs = taken ++ rest ∧ got.Holds taken := by
  have hup := h.upright a k ha hk
  rwa [Worker.Upright, hs] at hup

lemma Smooth.holds_of_entering (h : w.Smooth v r p seeds token) (ha : Below r a)
    (hk : v.workers a = some k) (hs : k.stage = .entering inner inputs) :
    inputs.Holds k.node.inputs := by
  have hup := h.upright a k ha hk
  rwa [Worker.Upright, hs] at hup

end

/-! ### Steps that change one stage -/

lemma Smooth.shift (h : w.Smooth v r p seeds token) {i : Nat}
    (hq : p.level? path = some q) (hk : v.workers (i :: (path ++ r)) = some k) {s : Stage}
    {f : Nat → Conduit Address} (hsh : v.Shift v' (i :: (path ++ r)) k s f)
    (hup : ({ k with stage := s } : Worker).Upright)
    (hpast : ∀ inner, k.node.inner? = some inner → s.Past → v.runs (i :: (path ++ r)) ≠ none)
    (hinside : ∀ inner, s ≠ .inside inner)
    (htyped : ∀ path' q' c, p.level? path' = some q' → c ∈ q'.channels →
      ∀ x ∈ (f c.id).queue, c.type.accepts x = true)
    (hguests : ∀ x, ∀ b ∈ (f x).line, b ∈ (v.conduits x).line ∨ Below r b)
    (hframe : ∀ path' q' c, p.level? path' = some q' → c ∈ q'.channels → path' ≠ path →
      path' ≠ i :: path ∨ v.runs (path' ++ r) = none → f c.id = v.conduits c.id)
    (hbooks : ∀ c ∈ q.channels, (f c.id).queue.length +
        ({ k with stage := s } : Worker).owes.count c.name + k.needs.count c.name =
      (v.conduit c).queue.length + k.owes.count c.name +
        ({ k with stage := s } : Worker).needs.count c.name)
    (hrun : v.runs (path ++ r) ≠ none) : w.Smooth v' r p seeds token := by
  have hself : v'.workers (i :: (path ++ r)) = some { k with stage := s } := by
    rw [hsh.workers, update_same]
  have hothers : ∀ x, x ≠ i :: (path ++ r) → v'.workers x = v.workers x := fun x hx => by
    rw [hsh.workers, update_of_ne hx]
  have hcond : ∀ c, v'.conduit c = f c.id := fun c => by rw [conduit, hsh.conduits]
  refine ⟨hsh.cancelled.trans h.cancelled, hsh.runs ▸ h.token, fun x k' hx hk' => ?_,
    fun x k' inner hx hk' hi hp => ?_, hsh.runs ▸ h.clean, fun path' q' c hq' hc => ?_,
    fun path' q' c hq' hc b hb => ?_, fun path' q' hq' hnone => ?_, fun path' q' hq' hopen => ?_⟩
  · by_cases hxa : x = i :: (path ++ r)
    · subst hxa
      obtain rfl := Option.some.inj (hself.symm.trans hk')
      exact hup
    · exact h.upright x k' hx (hothers x hxa ▸ hk')
  · rw [hsh.runs]
    by_cases hxa : x = i :: (path ++ r)
    · subst hxa
      obtain rfl := Option.some.inj (hself.symm.trans hk')
      exact hpast inner hi hp
    · exact h.entered x k' inner hx (hothers x hxa ▸ hk') hi hp
  · rw [hcond]
    exact htyped path' q' c hq' hc
  · rw [hcond] at hb
    rcases hguests c.id b hb with hb | hb
    · exact h.guests path' q' c hq' hc b hb
    · exact hb
  · rw [hsh.runs] at hnone
    obtain ⟨hst, hcs⟩ := h.fresh path' q' hq' hnone
    refine ⟨hsh.started ▸ hst, fun c hc => ?_⟩
    have hne : path' ≠ path := by
      rintro rfl
      exact hrun hnone
    rw [hcond, hframe path' q' c hq' hc hne (.inr hnone)]
    exact hcs c hc
  · have hne : path' ≠ i :: path := by
      rintro rfl
      rcases hopen with hnil | ⟨k', inner, hk', hs⟩
      · cases hnil
      · obtain rfl := Option.some.inj (hself.symm.trans hk')
        exact hinside inner hs
    have hopen' : v.Open r path' := by
      refine hopen.imp id ?_
      rintro ⟨k', inner, hk', hs⟩
      refine ⟨k', inner, ?_, hs⟩
      rwa [hothers _ fun heq => hne (List.append_cancel_right (heq.trans (List.cons_append).symm))]
        at hk'
    obtain ⟨crew, hcrew, hbal⟩ := h.balanced path' q' hq' hopen'
    by_cases hpath : path' = path
    · subst hpath
      obtain rfl := Option.some.inj (hq.symm.trans hq')
      refine ⟨_, hcrew.set hk hself fun j hj => hothers _ fun heq => hj (List.cons.inj heq).1, ?_⟩
      exact hbal.set ((hcrew i).trans hk) fun c hc => by rw [hcond]; exact hbooks c hc
    · refine ⟨crew, hcrew.congr fun j => hothers _ fun heq => hpath ?_,
        hbal.congr fun c hc => ?_⟩
      · exact List.append_cancel_right (List.cons.inj heq).2
      · rw [hcond, hframe path' q' c hq' hc hpath (.inl hne)]
        rfl

/-- Runs that go on cleanly. -/
lemma Smooth.turn (h : w.Smooth v r p seeds token) (hw : v'.workers = v.workers)
    (hc : v'.conduits = v.conduits) (hs : v'.started = v.started)
    (hx : v'.cancelled = v.cancelled)
    (hr : ∀ b, r <:+ b → (v.runs b = none ∧ v'.runs b = none) ∨ ∃ run run',
      v.runs b = some run ∧ v'.runs b = some run' ∧ run'.token = run.token ∧
        (run.Clean → run'.Clean)) : w.Smooth v' r p seeds token := by
  have hcond : ∀ c, v'.conduit c = v.conduit c := fun c => by rw [conduit, conduit, hc]
  have hnone : ∀ b, r <:+ b → (v'.runs b = none ↔ v.runs b = none) := by
    intro b hb
    rcases hr b hb with ⟨h₁, h₂⟩ | ⟨run, run', h₁, h₂, -⟩ <;> simp [h₁, h₂]
  refine ⟨hx.trans h.cancelled, ?_, fun a k ha hk => h.upright a k ha (hw ▸ hk),
    fun a k inner ha hk hi hp => ?_, fun b run hb hrun => ?_, fun path q c hq hmem => ?_,
    fun path q c hq hmem => ?_, fun path q hq hn => ?_, fun path q hq hopen => ?_⟩
  · obtain ⟨run, hrun, htok⟩ := h.token
    rcases hr r List.suffix_rfl with ⟨h₁, -⟩ | ⟨run₀, run', h₁, h₂, ht, -⟩
    · rw [h₁] at hrun
      cases hrun
    · obtain rfl := Option.some.inj (h₁.symm.trans hrun)
      exact ⟨run', h₂, ht.trans htok⟩
  · rw [Ne, hnone a ha.suffix]
    exact h.entered a k inner ha (hw ▸ hk) hi hp
  · rcases hr b hb with ⟨-, h₂⟩ | ⟨run₀, run', h₁, h₂, -, hclean⟩
    · rw [h₂] at hrun
      cases hrun
    · obtain rfl := Option.some.inj (h₂.symm.trans hrun)
      exact hclean (h.clean b run₀ hb h₁)
  · rw [hcond]
    exact h.typed path q c hq hmem
  · rw [hcond]
    exact h.guests path q c hq hmem
  · obtain ⟨hst, hcs⟩ := h.fresh path q hq ((hnone _ (List.suffix_append _ _)).1 hn)
    exact ⟨hs ▸ hst, fun c hmem => (hcond c).trans (hcs c hmem)⟩
  · obtain ⟨crew, hcrew, hbal⟩ := h.balanced path q hq (by rwa [Open, hw] at hopen)
    exact ⟨crew, hcrew.congr fun i => by rw [hw], hbal.congr fun c _ => by rw [hcond]⟩

/-! ### What cannot happen -/

/-- The place of a worker: the level of its node, and the channels of that level. -/
structure Place (v : World) (r : Address) (p : Pipeline) (i : Nat) (path : Address) (k : Worker)
    (run : Run) : Prop where
  running : v.runs (path ++ r) = some run
  posted : Posted run i k
  level : p.level? path = some run.pipeline

lemma Place.mem (h : v.Place r p i path k run) : k.node ∈ run.pipeline.nodes :=
  List.mem_of_getElem? h.posted.node

variable {i : Nat} {c : Channel}

lemma Place.below (_ : v.Place r p i path k run) : Below r (i :: (path ++ r)) :=
  List.suffix_append path r

lemma Place.inner (h : v.Place r p i path k run) {inner : Pipeline}
    (hi : k.node.inner? = some inner) : p.level? (i :: path) = some inner :=
  Pipeline.level?_cons h.level h.posted.node hi

lemma Place.seededAt (h : v.Place r p i path k run) (seeds : Payload) :
    p.seededAt seeds (i :: path) = k.node.ins := by
  simp [Pipeline.seededAt, Pipeline.post?, h.level, h.posted.node]

lemma Place.input (h : v.Place r p i path k run) (hr : w.Ready p) (hc : c ∈ k.node.inputs) :
    c ∈ run.pipeline.channels :=
  (hr.sound _ _ h.level).mem_input h.mem hc

lemma Place.output (h : v.Place r p i path k run) (hr : w.Ready p) (hc : c ∈ k.node.outputs) :
    c ∈ run.pipeline.channels :=
  (hr.sound _ _ h.level).mem_output h.mem hc

lemma exists_place (ht : v.Tree r p) (ha : Below r a) (hk : v.workers a = some k) :
    ∃ i path run, a = i :: (path ++ r) ∧ v.Place r p i path k run := by
  obtain ⟨i, path, run, heq, hrun, hpost, hlevel⟩ := ht.place ha hk
  exact ⟨i, path, run, heq, hrun, hpost, hlevel⟩

/-- No token of the run is ever cancelled. -/
lemma Smooth.alive (h : w.Smooth v r p seeds token) (ht : v.Tree r p)
    (ho : w.Outset w₁ r p seeds token) (hrun : v.runs (path ++ r) = some run) :
    v.isCancelled run.token = false := by
  obtain ⟨root, hroot, rfl⟩ := h.token
  have hsuf := ht.token_suffix hroot hrun
  rw [Bool.eq_false_iff]
  intro hx
  obtain ⟨t, hmem, ht'⟩ := isCancelled_eq_true.1 hx
  obtain ⟨h₁, h₂⟩ := ho.unrelated t (h.cancelled ▸ hmem)
  rcases List.suffix_or_suffix_of_suffix ht' hsuf with hs | hs
  · exact h₁ hs
  · exact h₂ hs

lemma Place.limit (h : v.Place r p i path k run) (ho : w.Outset w₁ r p seeds token) :
    k.limit = none := by
  rw [h.posted.limit]
  exact ho.patient _ _ h.level

/-- Once the run inside is over, a value is left there for every output. -/
lemma outputs_left (h : w.Smooth v r p seeds token) (hc : v.Course r p)
    (ho : w.Outset w₁ r p seeds token) (hp : v.Place r p i path k run)
    (hk : v.workers (i :: (path ++ r)) = some k) {inner : Pipeline} (hs : k.stage = .inside inner)
    {below : Run} (hrun : v.runs (i :: (path ++ r)) = some below) (hover : below.Over) :
    ∀ o ∈ k.node.outputs, ∃ c, inner.channel? o.name = some c ∧ (v.conduit c).Orderly ∧
      (v.conduit c).line = [] ∧ (v.conduit c).queue ≠ [] := by
  intro o hmem
  have hi := hc.tree.inner_of_inside hp.below hk hs
  have hlevel := hp.inner hi
  have hsound := ho.ready.sound _ _ hlevel
  obtain ⟨-, hfits⟩ := ho.ready.fits hp.level hp.mem hi
  obtain ⟨c, hcmem, hname, hchan⟩ := hsound.declared (.inr (hfits.produced o hmem))
  have hreported := ((hc.hearing _ below hp.below.suffix hrun).closed hover).2
  refine ⟨c, hchan, hc.lines.orderly c.id, ?_, ?_⟩
  · -- whoever is in line gathers on this level, where everybody has reported
    refine List.eq_nil_iff_forall_not_mem.2 fun x hx => ?_
    have hbelow := h.guests _ _ c hlevel hcmem x hx
    obtain ⟨k', got, c', rest, hk', hs', hid⟩ := hc.lines.member c.id x hx hbelow
    obtain ⟨j, path', run', rfl, hp'⟩ := exists_place hc.tree hbelow hk'
    have hsuits := hc.tree.suits _ k' hbelow hk'
    rw [hs'] at hsuits
    have hc' := hp'.input ho.ready (hsuits.2.subset List.mem_cons_self)
    obtain rfl := ho.ready.level_eq hp'.level hlevel hc' hcmem hid
    obtain ⟨result, hrep⟩ := hreported j k' hk'
    rw [hs'] at hrep
    cases hrep
  · obtain ⟨crew, hcrew, hbal⟩ := h.balanced (i :: path) inner hlevel (.inr ⟨k, inner, hk, hs⟩)
    have hempty : ∀ f : Worker → List String,
        (∀ k' result, k'.stage = .reported result → f k' = []) → crew.flatMap f = [] := by
      intro f hf
      refine List.flatMap_eq_nil_iff.2 fun k' hk' => ?_
      obtain ⟨j, hj⟩ := hcrew.mem.1 hk'
      obtain ⟨result, hrep⟩ := hreported j k' hj
      exact hf k' result hrep
    have hbooks := hbal c hcmem
    rw [hempty Worker.owes fun k' _ hr => by simp [Worker.owes, hr],
      hempty Worker.needs fun k' _ hr => by simp [Worker.needs, hr], hname,
      List.count_eq_zero_of_not_mem (hfits.unread o hmem)] at hbooks
    have hwritten := List.count_pos_iff.2 (hfits.produced o hmem)
    intro hq
    rw [hq] at hbooks
    simp only [List.length_nil, List.count_nil] at hbooks
    omega

/-- The inner pipeline of a composite is accepted when the composite comes to start it. -/
lemma start_accepted (h : w.Smooth v r p seeds token) (hc : v.Course r p)
    (ho : w.Outset w₁ r p seeds token) (hp : v.Place r p i path k run)
    (hk : v.workers (i :: (path ++ r)) = some k) {inner : Pipeline} {inputs : Payload}
    (hs : k.stage = .entering inner inputs) :
    v.started inner.id = false ∧ v.validate inner inputs = .ok () := by
  have hi := hc.tree.inner_of_entering hp.below hk hs
  have hnone := hc.tree.runs_of_entering hp.below hk hs
  have hholds := h.holds_of_entering hp.below hk hs
  have hlevel := hp.inner hi
  have hsound := ho.ready.sound _ _ hlevel
  obtain ⟨-, hfits⟩ := ho.ready.fits hp.level hp.mem hi
  obtain ⟨hstarted, hsame⟩ := h.fresh _ _ hlevel hnone
  refine ⟨hstarted, validate_eq_ok.2 ⟨checkSeeds_eq_ok.2 fun e he => ?_, fun _ => ?_⟩⟩
  · obtain ⟨c, hmem, hname, hacc⟩ := hholds.entry he
    obtain ⟨d, -, -, hd⟩ := hsound.declared (.inl (hfits.consumed c hmem))
    refine ⟨d, hname ▸ hd, ?_⟩
    rw [hfits.types c (List.mem_append_left _ hmem) d hd]
    exact hacc
  · have hkeys : inputs.keys = k.node.inputs.map (·.name) := hholds.keys
    have hcounts : inner.counts v.queued inputs.keys =
        inner.counts w.queued (k.node.inputs.map (·.name)) := by
      rw [hkeys]
      unfold Pipeline.counts
      congr 1
      funext x
      cases hx : inner.channel? x with
      | none => rfl
      | some c =>
        have := hsame c (Pipeline.mem_of_channel? hx).1
        simp only [queued, this]
    have hacc := hfits.accepted
    unfold Pipeline.checkSatisfiable Pipeline.starved? at hacc ⊢
    rwa [hcounts]

/-! ### What each step does -/

/-- A step that touches no channel. -/
lemma Smooth.quiet (h : w.Smooth v r p seeds token) (hp : v.Place r p i path k run)
    (hk : v.workers (i :: (path ++ r)) = some k) {s : Stage}
    (hsh : v.Shift v' (i :: (path ++ r)) k s v.conduits)
    (hup : ({ k with stage := s } : Worker).Upright)
    (hpast : ∀ inner, k.node.inner? = some inner → s.Past → v.runs (i :: (path ++ r)) ≠ none)
    (hinside : ∀ inner, s ≠ .inside inner)
    (howes : ({ k with stage := s } : Worker).owes = k.owes)
    (hneeds : ({ k with stage := s } : Worker).needs = k.needs) :
    w.Smooth v' r p seeds token :=
  h.shift hp.level hk hsh hup hpast hinside h.typed (fun _ _ hb => .inl hb)
    (fun _ _ _ _ _ _ _ => rfl) (fun c _ => by rw [howes, hneeds]; rfl)
    (by rw [hp.running]; simp)

/-- A step that deals with one channel of the worker's own level. -/
lemma Smooth.deal (h : w.Smooth v r p seeds token) (hr : w.Ready p)
    (hp : v.Place r p i path k run) (hk : v.workers (i :: (path ++ r)) = some k) {s : Stage}
    {d : Conduit Address} (hc : c ∈ run.pipeline.channels)
    (hsh : v.Shift v' (i :: (path ++ r)) k s (update v.conduits c.id d))
    (hup : ({ k with stage := s } : Worker).Upright)
    (hpast : ∀ inner, k.node.inner? = some inner → s.Past → v.runs (i :: (path ++ r)) ≠ none)
    (hinside : ∀ inner, s ≠ .inside inner)
    (htyped : ∀ x ∈ d.queue, c.type.accepts x = true)
    (hline : ∀ b ∈ d.line, b ∈ (v.conduit c).line ∨ Below r b)
    (hhere : d.queue.length + ({ k with stage := s } : Worker).owes.count c.name +
        k.needs.count c.name =
      (v.conduit c).queue.length + k.owes.count c.name +
        ({ k with stage := s } : Worker).needs.count c.name)
    (helse : ∀ x, x ≠ c.name → ({ k with stage := s } : Worker).owes.count x + k.needs.count x =
      k.owes.count x + ({ k with stage := s } : Worker).needs.count x) :
    w.Smooth v' r p seeds token := by
  refine h.shift hp.level hk hsh hup hpast hinside (fun path' q' e hq' he x hx => ?_)
    (fun x b hb => ?_) (fun path' q' e hq' he hne _ => ?_) (fun e he => ?_)
    (by rw [hp.running]; simp)
  · by_cases hid : e.id = c.id
    · obtain rfl := hr.level_eq hq' hp.level he hc hid
      obtain rfl := Option.some.inj (hq'.symm.trans hp.level)
      obtain rfl := (hr.sound _ _ hq').eq_of_id he hc hid
      rw [update_same] at hx
      exact htyped x hx
    · rw [update_of_ne hid] at hx
      exact h.typed path' q' e hq' he x hx
  · by_cases hid : x = c.id
    · subst hid
      rw [update_same] at hb
      exact hline b hb
    · rw [update_of_ne hid] at hb
      exact .inl hb
  · exact update_of_ne fun hid => hne (hr.level_eq hq' hp.level he hc hid)
  · by_cases hec : e = c
    · subst hec
      rw [update_same]
      exact hhere
    · have hs := hr.sound _ _ hp.level
      rw [update_of_ne fun hid => hec (hs.eq_of_id he hc hid)]
      have := helse e.name fun hname => hec (hs.eq_of_name he hc hname)
      change (v.conduit e).queue.length + _ + _ = _
      omega

lemma Smooth.took (h : w.Smooth v r p seeds token) (hr : w.Ready p)
    (hp : v.Place r p i path k run) (hk : v.workers (i :: (path ++ r)) = some k)
    {got : Payload} {rest : List Channel} {q₁ q₂ : Conduit Address} {x : Value}
    (hs : k.stage = .gathering got (c :: rest))
    (hu : (v.conduit c).usePermit? (i :: (path ++ r)) = some q₁) (hpop : q₁.pop? = some (x, q₂))
    (hsh : v.Shift v' (i :: (path ++ r)) k (k.node.gather (got.insert c.name x) rest)
      (update v.conduits c.id q₂)) : w.Smooth v' r p seeds token := by
  obtain ⟨taken, hins, hholds⟩ := h.gathered hp.below hk hs
  have hqueue := Conduit.queue_take hu hpop
  have hmem : c ∈ k.node.inputs := by simp [hins]
  have hc := hp.input hr hmem
  have hacc : c.type.accepts x = true :=
    h.typed _ _ c hp.level hc x (hqueue ▸ List.mem_cons_self)
  have hnd := (Node.nodup_of_wiringFault? ((hr.sound _ _ hp.level).wired _ hp.mem)).1
  have hnew : c.name ∉ taken.map (·.name) := by
    rw [Node.ins, hins, List.map_append, List.map_cons] at hnd
    exact fun hin => (List.nodup_append.1 hnd).2.2 _ hin _ List.mem_cons_self rfl
  have hneeds : k.needs = c.name :: rest.map (·.name) := by rw [Worker.needs, hs]; rfl
  have howes : k.owes = k.node.outs := by rw [Worker.owes, hs]
  have hins' : k.node.inputs = (taken ++ [c]) ++ rest := by simpa using hins
  have howes' : ({ k with stage := k.node.gather (got.insert c.name x) rest } : Worker).owes =
      k.node.outs := Worker.owes_gather rfl
  have hneeds' : ({ k with stage := k.node.gather (got.insert c.name x) rest } : Worker).needs =
      rest.map (·.name) := Worker.needs_gather rfl
  refine h.deal hr hp hk hc hsh
    (Worker.upright_gather rfl hins' (hholds.insert hacc hnew))
    (fun _ _ hpast => absurd hpast (Stage.not_past_gather _ _ _)) (Node.gather_ne_inside _ _ _)
    (fun y hy => ?_) (fun b hb => ?_) ?_ (fun y hy => ?_)
  · exact h.typed _ _ c hp.level hc y (hqueue ▸ List.mem_cons_of_mem _ hy)
  · by_cases hba : b = i :: (path ++ r)
    · exact .inr (hba ▸ hp.below)
    · exact .inl ((Conduit.mem_line_take hu hpop hba).1 hb)
  · rw [howes', hneeds', howes, hneeds, hqueue, List.count_cons_self, List.length_cons]
    omega
  · rw [howes', hneeds', howes, hneeds, List.count_cons_of_ne (Ne.symm hy)]

lemma Smooth.sent (h : w.Smooth v r p seeds token) (hr : w.Ready p)
    (hp : v.Place r p i path k run) (hk : v.workers (i :: (path ++ r)) = some k) {x : Value}
    {rest : List (Channel × Value)} {total : Nat} (hs : k.stage = .sending ((c, x) :: rest) total)
    (hpast : ∀ inner, k.node.inner? = some inner → v.runs (i :: (path ++ r)) ≠ none)
    (hsh : v.Shift v' (i :: (path ++ r)) k (.sending rest total)
      (update v.conduits c.id ((v.conduit c).send x))) : w.Smooth v' r p seeds token := by
  obtain ⟨hsuf, hall⟩ : ((c, x) :: rest).map Prod.fst <:+ k.node.outputs ∧
      ∀ e ∈ (c, x) :: rest, e.1.type.accepts e.2 = true := by
    have := h.upright _ k hp.below hk
    rwa [Worker.Upright, hs] at this
  have hmem : c ∈ k.node.outputs := hsuf.subset List.mem_cons_self
  have hc := hp.output hr hmem
  have howes : k.owes = c.name :: rest.map (·.1.name) := by rw [Worker.owes, hs]; rfl
  have hneeds : k.needs = [] := by rw [Worker.needs, hs]
  refine h.deal hr hp hk hc hsh
    ⟨(List.suffix_cons _ _).trans hsuf, fun e he => hall e (List.mem_cons_of_mem _ he)⟩
    (fun inner hi _ => hpast inner hi) (by simp) (fun y hy => ?_)
    (fun b hb => .inl (Conduit.mem_line_send.1 hb)) ?_ (fun y hy => ?_)
  · rw [Conduit.queue_send, List.mem_append, List.mem_singleton] at hy
    rcases hy with hy | rfl
    · exact h.typed _ _ c hp.level hc y hy
    · exact hall (c, y) List.mem_cons_self
  · rw [howes, hneeds, Conduit.queue_send, List.length_append, List.length_singleton,
      List.count_cons_self]
    simp only [Worker.owes, Worker.needs, List.count_nil]
    omega
  · rw [howes, hneeds, List.count_cons_of_ne (Ne.symm hy)]
    rfl

lemma Smooth.left (h : w.Smooth v r p seeds token) (hc : v.Course r p)
    (ho : w.Outset w₁ r p seeds token) (hp : v.Place r p i path k run)
    (hk : v.workers (i :: (path ++ r)) = some k) {inner : Pipeline} (hs : k.stage = .inside inner)
    {below : Run} (hrun : v.runs (i :: (path ++ r)) = some below) (hover : below.Over)
    {produced : Payload} (htaken : (v.takeOutputs inner .empty k.node.outputs).1 = .ok produced)
    (hsh : v.Shift v' (i :: (path ++ r)) k (.checking produced)
      (v.takeOutputs inner .empty k.node.outputs).2.conduits) : w.Smooth v' r p seeds token := by
  have hi := hc.tree.inner_of_inside hp.below hk hs
  have hlevel := hp.inner hi
  have hsound := ho.ready.sound _ _ hlevel
  obtain ⟨-, hfits⟩ := ho.ready.fits hp.level hp.mem hi
  have hleft := outputs_left h hc ho hp hk hs hrun hover
  have hnd := (Node.nodup_of_wiringFault? ((ho.ready.sound _ _ hp.level).wired _ hp.mem)).2
  have hframe : ∀ path' q' c', p.level? path' = some q' → c' ∈ q'.channels → path' ≠ i :: path →
      (v.takeOutputs inner .empty k.node.outputs).2.conduits c'.id = v.conduits c'.id := by
    intro path' q' c' hq' hc' hne
    refine takeOutputs_of_forall_ne (fun d hd hid => hne ?_) v _ _
    exact ho.ready.level_eq hq' hlevel hc' hd hid.symm
  have hne : path ≠ i :: path := (cons_ne_self i path).symm
  refine h.shift hp.level hk hsh ?_ (fun _ _ _ => by rw [hrun]; simp) (by simp)
    (fun path' q' c' hq' hc' x hx => ?_) (fun x b hb => ?_)
    (fun path' q' c' hq' hc' _ hor => ?_) (fun c' hc' => ?_) (by rw [hp.running]; simp)
  · intro o hmem
    obtain ⟨got, hgot, -, hall⟩ := takeOutputs_of_queues hsound k.node.outputs hnd v .empty hleft
    obtain rfl := Except.ok.inj (hgot.symm.trans htaken)
    obtain ⟨d, hd, -⟩ := hleft o hmem
    obtain ⟨x, hx, hget⟩ := hall o hmem d hd
    refine ⟨x, hget, ?_⟩
    rw [← hfits.types o (List.mem_append_right _ hmem) d hd]
    exact h.typed _ _ d hlevel (Pipeline.mem_of_channel? hd).1 x hx
  · have := (queue_takeOutputs inner k.node.outputs v .empty hc.lines.orderly c'.id).subset hx
    exact h.typed path' q' c' hq' hc' x this
  · refine .inl ?_
    have haside := aside_takeOutputs (0 :: b) x v inner .empty k.node.outputs
    exact ((haside (hc.lines.orderly x)).2 b (cons_ne_self 0 b).symm).1 hb
  · refine hframe path' q' c' hq' hc' ?_
    rcases hor with hor | hor
    · exact hor
    · rintro rfl
      rw [List.cons_append, hrun] at hor
      cases hor
  · rw [hframe path _ c' hp.level hc' hne]
    simp only [Worker.owes, Worker.needs, hs]
    rfl

lemma upright_new (n : Node) (token : Token) (limit : Option Duration) :
    (Worker.new n token limit).Upright :=
  Worker.upright_gather rfl rfl Payload.holds_empty

/-! ### Levels that are entered -/

section

variable {level path' : Address} {q' : Pipeline} {entries : List (String × Value)}

/-- On a level that is entered, the seeds join what has been there. -/
lemma typed_sow (hs : q.Sound) {f : Nat → Conduit Address}
    (hacc : ∀ e ∈ entries, ∀ c, q.channel? e.1 = some c → c.type.accepts e.2 = true)
    (hc : c ∈ q.channels) (hold : ∀ x ∈ (f c.id).queue, c.type.accepts x = true) :
    ∀ x ∈ (q.sow entries f c.id).queue, c.type.accepts x = true := by
  intro x hx
  rw [hs.queue_sow hc, List.mem_append] at hx
  rcases hx with hx | hx
  · exact hold x hx
  · obtain ⟨e, he, rfl⟩ := List.mem_map.1 hx
    obtain ⟨hmem, hname⟩ := List.mem_filter.1 he
    refine hacc e hmem c ?_
    rw [of_decide_eq_true hname]
    exact hs.channel?_self hc

/-- The other levels keep what is on their channels. -/
lemma conduit_of_sow (hr : w.Ready p) (hv : v'.conduits = q.sow entries v.conduits)
    (hlevel : p.level? level = some q) (hq' : p.level? path' = some q') (hc : c ∈ q'.channels)
    (hne : path' ≠ level) : v'.conduit c = v.conduit c := by
  rw [conduit, hv, Pipeline.sow_of_forall_ne fun d hd hid => hne ?_]
  · rfl
  · exact hr.level_eq hq' hlevel hc hd hid.symm

/-- Nobody comes into line. -/
lemma mem_line_of_sow (hv : v'.conduits = q.sow entries v.conduits)
    (horder : (v.conduit c).Orderly) (ha : a ∈ (v'.conduit c).line) : a ∈ (v.conduit c).line := by
  rw [conduit, hv] at ha
  have haside := Pipeline.aside_sow q (0 :: a) c.id entries v.conduits
  exact ((haside horder).2 a (cons_ne_self 0 a).symm).1 ha

end

section

variable {inner q' : Pipeline} {inputs : Payload} {t : Nat} {path' : Address}

lemma append_ne (h : path' ≠ i :: path) : path' ++ r ≠ i :: (path ++ r) := fun heq =>
  h (List.append_cancel_right (heq.trans List.cons_append.symm))

/-- No other level is open that was not open before. -/
lemma Entered.open_of_ne (he : v.Entered v' (i :: (path ++ r)) k inner t inputs)
    (hbare : ∀ j, v.workers (j :: i :: (path ++ r)) = none) (hne : path' ≠ i :: path)
    (hopen : v'.Open r path') : v.Open r path' := by
  refine hopen.imp id ?_
  rintro ⟨k', inner', hk', hs'⟩
  rcases entry_cases (i :: (path ++ r)) (path' ++ r) with heq | ⟨j, heq⟩ | ⟨hxa, hxj⟩
  · exact absurd heq (append_ne hne)
  · rw [heq, he.worker_new hbare] at hk'
    obtain ⟨n, -, rfl⟩ := Option.map_eq_some_iff.1 hk'
    exact absurd hs' (Node.gather_ne_inside _ _ _ _)
  · exact ⟨k', inner', he.worker_old hxa hxj ▸ hk', hs'⟩

/-- The books of the level that is entered. -/
lemma Smooth.entered_books (h : w.Smooth v r p seeds token) (hc : v.Course r p)
    (ho : w.Outset w₁ r p seeds token) (hp : v.Place r p i path k run)
    (hk : v.workers (i :: (path ++ r)) = some k) (hs : k.stage = .entering inner inputs)
    (he : v.Entered v' (i :: (path ++ r)) k inner t inputs) :
    ∃ crew, v'.Crew (i :: path ++ r) crew ∧
      w.Balanced v' inner (p.seededAt seeds (i :: path)) crew := by
  have hlevel := hp.inner (hc.tree.inner_of_entering hp.below hk hs)
  have hnone := hc.tree.runs_of_entering hp.below hk hs
  have hbare := hc.tree.workers_of_runs_none hp.below.suffix hnone
  have hsound := ho.ready.sound _ _ hlevel
  obtain ⟨-, hsame⟩ := h.fresh _ _ hlevel hnone
  refine ⟨inner.nodes.map fun n => .new n (t :: k.token) inner.options.receiveTimeout,
    fun j => ?_, ?_⟩
  · rw [List.cons_append, he.worker_new hbare, List.getElem?_map]
  · have hkeys : inputs.keys = k.node.ins := (h.holds_of_entering hp.below hk hs).keys
    rw [hp.seededAt, ← hkeys]
    refine balanced_new hsound inputs _ _ fun c hmem => ?_
    rw [conduit, he.conduits, hsound.length_queue_sow hmem]
    change (v.conduit c).queue.length + _ = _
    rw [hsame c hmem]
    rfl

/-- The books of the other levels. -/
lemma Smooth.books_of_ne (h : w.Smooth v r p seeds token) (hc : v.Course r p)
    (ho : w.Outset w₁ r p seeds token) (hp : v.Place r p i path k run)
    (hk : v.workers (i :: (path ++ r)) = some k) (hs : k.stage = .entering inner inputs)
    (he : v.Entered v' (i :: (path ++ r)) k inner t inputs) (hq' : p.level? path' = some q')
    (hne : path' ≠ i :: path) (hopen : v'.Open r path') :
    ∃ crew, v'.Crew (path' ++ r) crew ∧ w.Balanced v' q' (p.seededAt seeds path') crew := by
  have hlevel := hp.inner (hc.tree.inner_of_entering hp.below hk hs)
  have hnone := hc.tree.runs_of_entering hp.below hk hs
  have hbare := hc.tree.workers_of_runs_none hp.below.suffix hnone
  obtain ⟨crew, hcrew, hbal⟩ := h.balanced path' q' hq' (he.open_of_ne hbare hne hopen)
  have hbal' : w.Balanced v' q' (p.seededAt seeds path') crew := hbal.congr fun c hmem => by
    rw [conduit_of_sow ho.ready he.conduits hlevel hq' hmem hne]
  have hothers : ∀ j, j :: (path' ++ r) ≠ i :: (path ++ r) →
      v'.workers (j :: (path' ++ r)) = v.workers (j :: (path' ++ r)) := fun j hj =>
    he.worker_old hj fun l hl => append_ne hne (List.cons.inj hl).2
  by_cases hpp : path' = path
  · subst hpp
    refine ⟨_,
      hcrew.set hk he.worker_self fun j hj => hothers j fun heq => hj (List.cons.inj heq).1,
      hbal'.set ((hcrew i).trans hk) fun c _ => ?_⟩
    simp only [Worker.owes, Worker.needs, hs]
  · refine ⟨crew, hcrew.congr fun j => hothers j fun heq => hpp ?_, hbal'⟩
    exact List.append_cancel_right (List.cons.inj heq).2

lemma Smooth.enter (h : w.Smooth v r p seeds token) (hc : v.Course r p)
    (ho : w.Outset w₁ r p seeds token) (hp : v.Place r p i path k run)
    (hk : v.workers (i :: (path ++ r)) = some k) (hs : k.stage = .entering inner inputs)
    (he : v.Entered v' (i :: (path ++ r)) k inner t inputs) : w.Smooth v' r p seeds token := by
  have hi := hc.tree.inner_of_entering hp.below hk hs
  have hlevel := hp.inner hi
  have hnone := hc.tree.runs_of_entering hp.below hk hs
  have hbare := hc.tree.workers_of_runs_none hp.below.suffix hnone
  -- a worker is the composite's, or it is new, or it was there before
  have hworkers : ∀ {x k'}, v'.workers x = some k' → k' = { k with stage := .inside inner } ∨
      (∃ n, k' = .new n (t :: k.token) inner.options.receiveTimeout) ∨
      x ≠ i :: (path ++ r) ∧ v.workers x = some k' := by
    intro x k' hk'
    rcases entry_cases (i :: (path ++ r)) x with rfl | ⟨j, rfl⟩ | ⟨hxa, hxj⟩
    · exact .inl (Option.some.inj (hk'.symm.trans he.worker_self))
    · rw [he.worker_new hbare] at hk'
      obtain ⟨n, -, rfl⟩ := Option.map_eq_some_iff.1 hk'
      exact .inr (.inl ⟨n, rfl⟩)
    · exact .inr (.inr ⟨hxa, he.worker_old hxa hxj ▸ hk'⟩)
  refine ⟨he.cancelled.trans h.cancelled, ?_, fun x k' hx hk' => ?_,
    fun x k' inner' hx hk' hi' hpast => ?_, fun b run' hb hrun => ?_, fun path' q' c hq' hmem => ?_,
    fun path' q' c hq' hmem x hx => ?_, fun path' q' hq' hnone' => ?_,
    fun path' q' hq' hopen => ?_⟩
  · rw [he.run_old hp.below.ne.symm]
    exact h.token
  · rcases hworkers hk' with rfl | ⟨n, rfl⟩ | ⟨-, hold⟩
    · trivial
    · exact upright_new _ _ _
    · exact h.upright x k' hx hold
  · rcases hworkers hk' with rfl | ⟨n, rfl⟩ | ⟨hxa, hold⟩
    · exact hpast.elim
    · exact absurd hpast (Stage.not_past_gather _ _ _)
    · rw [he.run_old hxa]
      exact h.entered x k' inner' hx hold hi' hpast
  · by_cases hba : b = i :: (path ++ r)
    · subst hba
      obtain rfl := Option.some.inj (he.run_self.symm.trans hrun)
      exact ⟨by simp [Run.Failed], by simp⟩
    · exact h.clean b run' hb (he.run_old hba ▸ hrun)
  · by_cases hpath : path' = i :: path
    · subst hpath
      obtain rfl := Option.some.inj (hq'.symm.trans hlevel)
      obtain ⟨-, hfits⟩ := ho.ready.fits hp.level hp.mem hi
      rw [conduit, he.conduits]
      refine typed_sow (ho.ready.sound _ _ hlevel) (fun e hin d hd => ?_) hmem
        (h.typed _ _ c hq' hmem)
      obtain ⟨c₀, hc₀, hname, hacc⟩ := (h.holds_of_entering hp.below hk hs).entry hin
      rw [hfits.types c₀ (List.mem_append_left _ hc₀) d (hname ▸ hd)]
      exact hacc
    · rw [conduit_of_sow ho.ready he.conduits hlevel hq' hmem hpath]
      exact h.typed path' q' c hq' hmem
  · exact h.guests path' q' c hq' hmem x (mem_line_of_sow he.conduits (hc.lines.orderly _) hx)
  · have hpath : path' ≠ i :: path := by
      rintro rfl
      rw [List.cons_append, he.run_self] at hnone'
      cases hnone'
    rw [he.run_old (append_ne hpath)] at hnone'
    obtain ⟨hst, hsame⟩ := h.fresh path' q' hq' hnone'
    refine ⟨?_, fun c hmem => ?_⟩
    · rw [he.started, update_of_ne (ho.ready.apart _ _ _ _ hq' hlevel hpath).1]
      exact hst
    · exact (conduit_of_sow ho.ready he.conduits hlevel hq' hmem hpath).trans (hsame c hmem)
  · by_cases hpath : path' = i :: path
    · subst hpath
      obtain rfl := Option.some.inj (hq'.symm.trans hlevel)
      exact h.entered_books hc ho hp hk hs he
    · exact h.books_of_ne hc ho hp hk hs he hq' hpath hopen

end

lemma Smooth.told (h : w.Smooth v r p seeds token) (hp : v.Place r p i path k run)
    (hk : v.workers (i :: (path ++ r)) = some k) {result : Except ExecutionError Unit}
    (hs : k.stage = .ended result) (ht : v.Told v' (i :: (path ++ r)) k result) :
    w.Smooth v' r p seeds token := by
  have hok : result = .ok () := by
    have := h.upright _ k hp.below hk
    rwa [Worker.Upright, hs] at this
  have hmid : w.Smooth { v with workers := v'.workers } r p seeds token :=
    h.quiet hp hk ⟨ht.workers, rfl, rfl, rfl, rfl⟩ hok
      (fun inner hi _ => h.entered _ k inner hp.below hk hi (by rw [hs]; trivial)) (by simp)
      (by simp only [Worker.owes, hs]) (by simp only [Worker.needs, hs])
  refine hmid.turn rfl ht.conduits ht.started ht.cancelled fun b hb => ?_
  have hruns : v'.runs = update v.runs (path ++ r)
      (some (delivered run ⟨k.node.name, result⟩)) := by
    rw [ht.runs, List.tail_cons, hp.running, Option.elim_some]
  by_cases hbp : b = path ++ r
  · subst hbp
    refine .inr ⟨run, _, hp.running, by rw [hruns, update_same], ?_, fun hclean => ?_⟩
    · exact (later_delivered run _).token
    · unfold delivered
      split
      · exact hclean
      · refine ⟨hclean.unfailed, fun o ho => ?_⟩
        rcases List.mem_append.1 ho with ho | ho
        · exact hclean.mailbox o ho
        · rw [List.mem_singleton.1 ho]
          exact hok
  · have hsame : v'.runs b = v.runs b := by rw [hruns, update_of_ne hbp]
    rw [hsame]
    exact Run.clean_self _

/-- **Nothing goes wrong in a step of a worker.** -/
theorem Smooth.stride (h : w.Smooth v r p seeds token) (hc : v.Course r p)
    (ho : w.Outset w₁ r p seeds token) (hans : v.Answers r) (ha : Below r a)
    (hk : v.workers a = some k) {expired : Bool} (hst : v.Stride v' a k expired) :
    w.Smooth v' r p seeds token := by
  obtain ⟨i, path, run, rfl, hp⟩ := exists_place hc.tree ha hk
  have hup := h.upright _ k ha hk
  have hsuits := hc.tree.suits _ k ha hk
  have hpast := fun inner hi => h.entered _ k inner ha hk hi
  have hsound := ho.ready.sound _ _ hp.level
  have noInner : ∀ {logic inner}, k.node.logic? = some logic → k.node.inner? ≠ some inner := by
    intro logic inner hl hi
    rw [Node.inner?_of_logic? hl] at hi
    cases hi
  cases hst with
  | @linedUp got c rest stage alive empty new hsh =>
    rw [stage] at hsuits
    have hmem := hp.input ho.ready (hsuits.2.subset List.mem_cons_self)
    refine h.deal ho.ready hp hk hmem hsh hup (fun inner hi hpst => hpast inner hi hpst)
      (by simp [stage]) (h.typed _ _ c hp.level hmem) (fun b hb => ?_) rfl fun _ _ => rfl
    rcases Conduit.mem_line_enqueue.1 hb with hb | rfl
    · exact .inl hb
    · exact .inr ha
  | took stage alive permit pop hsh => exact h.took ho.ready hp hk stage permit pop hsh
  | @foundNothing got c rest q₁ stage permit pop hsh =>
    exact absurd pop ((hc.lines.orderly c.id).pop?_isSome permit)
  | gaveUp stage why hsh =>
    rcases why with ⟨hx, -⟩ | ⟨-, d, hd, -⟩
    · rw [hp.posted.token, h.alive hc.tree ho hp.running] at hx
      cases hx
    · rw [hp.limit ho] at hd
      cases hd
  | @called logic inputs outputs stage reply hsh =>
    rw [stage] at hsuits
    obtain ⟨outputs', hreply, hyields⟩ := hans _ k logic inputs ha hk stage
    obtain rfl : outputs' = outputs := by
      rw [hreply] at reply
      exact Reply.returned.inj reply
    refine h.quiet hp hk hsh ?_ (fun inner hi _ => absurd hi (noInner hsuits)) (by simp)
      (by simp only [Worker.owes, stage]) (by simp only [Worker.needs, stage])
    change Payload.Yields (if k.node.kind = .sink then .empty else outputs') k.node.outputs
    split
    · next hsink =>
      rw [Node.outputs_of_sink (hsound.wired _ hp.mem) hsink]
      exact fun _ hmem => by cases hmem
    · exact hyields
  | crashed stage reply hsh =>
    obtain ⟨outputs, hreply, -⟩ := hans _ k _ _ ha hk stage
    exact absurd hreply (reply outputs)
  | entered stage new entry => exact h.enter hc ho hp hk stage entry
  | refused stage why hsh =>
    obtain ⟨hnew, hvalid⟩ := start_accepted h hc ho hp hk stage
    rcases why with hst | hv
    · rw [hnew] at hst
      cases hst
    · exact absurd hvalid hv
  | innerFailed stage inner_run returned hsh =>
    exact absurd (.inr ⟨_, returned⟩) (h.clean _ _ ha.suffix inner_run).unfailed
  | left stage inner_run returned taken hsh =>
    exact h.left hc ho hp hk stage inner_run ⟨_, returned⟩ taken hsh
  | @missed inner below report c stage inner_run returned taken hsh =>
    have hi : k.node.inner? = some inner := by rwa [stage] at hsuits
    obtain ⟨produced, hok, -⟩ := takeOutputs_of_queues (ho.ready.sound _ _ (hp.inner hi))
      k.node.outputs (Node.nodup_of_wiringFault? (hsound.wired _ hp.mem)).2 v .empty
      (outputs_left h hc ho hp hk stage inner_run ⟨_, returned⟩)
    rw [taken] at hok
    cases hok
  | @checked produced ready stage fits hsh =>
    rw [Worker.Upright, stage] at hup
    obtain ⟨ready', hready, hmap, hall⟩ := Node.prepare_of_yields hup
    obtain rfl : ready' = ready := Except.ok.inj (hready.symm.trans fits)
    refine h.quiet hp hk hsh ⟨hmap ▸ List.suffix_rfl, hall⟩
      (fun inner hi _ => hpast inner hi (by rw [stage]; trivial)) (by simp) ?_
      (by simp only [Worker.needs, stage])
    simp only [Worker.owes, stage, Node.outs, ← hmap, List.map_map]
    rfl
  | rejected stage misfit hsh =>
    rw [Worker.Upright, stage] at hup
    obtain ⟨ready, hready, -⟩ := Node.prepare_of_yields hup
    rw [hready] at misfit
    cases misfit
  | sent stage fits hsh =>
    exact h.sent ho.ready hp hk stage (fun inner hi => hpast inner hi (by rw [stage]; trivial)) hsh
  | unsent stage misfit hsh =>
    rw [Worker.Upright, stage] at hup
    have hacc := hup.2 _ List.mem_cons_self
    rw [misfit] at hacc
    cases hacc
  | finished stage hsh =>
    exact h.quiet hp hk hsh rfl (fun inner hi _ => hpast inner hi (by rw [stage]; trivial))
      (by simp) (by simp only [Worker.owes, stage]; rfl) (by simp only [Worker.needs, stage])
  | told stage ht => exact h.told hp hk stage ht

lemma Smooth.turned (h : w.Smooth v r p seeds token) {run' : Run} (hb : v.runs b = some run)
    (ht : v.Turned v' b run') (hx : v'.cancelled = v.cancelled) (htok : run'.token = run.token)
    (hclean : run.Clean → run'.Clean) : w.Smooth v' r p seeds token := by
  refine h.turn ht.workers ht.conduits ht.started hx fun b' _ => ?_
  rw [ht.runs]
  by_cases hbb : b' = b
  · subst hbb
    exact .inr ⟨run, run', hb, update_same _ _ _, htok, hclean⟩
  · rw [update_of_ne hbb]
    exact Run.clean_self _

theorem Smooth.step (h : w.Smooth v r p seeds token) (hc : v.Course r p)
    (ho : w.Outset w₁ r p seeds token) (hans : v.Answers r) {m : Move} (hm : m.Of r)
    (hs : v.step? m = some v') : w.Smooth v' r p seeds token := by
  cases m with
  | work a =>
    obtain ⟨k, hk, hst⟩ := stride_of_work? hs
    exact h.stride hc ho hans hm hk hst
  | expire a =>
    obtain ⟨k, hk, hst⟩ := stride_of_work? hs
    exact h.stride hc ho hans hm hk hst
  | collect b =>
    cases collected_of_collect? hs with
    | success running collector mailbox result turned cancelled =>
      refine h.turned running turned cancelled rfl fun hclean => ⟨?_, fun o hmem => ?_⟩
      · have := hclean.unfailed
        simpa [Run.Failed, collector] using this
      · exact hclean.mailbox o (mailbox ▸ List.mem_cons_of_mem _ hmem)
    | failure running collector mailbox result kept turned cancelled =>
      have := (h.clean b _ hm running).mailbox _ (mailbox ▸ List.mem_cons_self)
      rw [result] at this
      cases this
  | conclude b =>
    obtain ⟨run, completed, failure, hcl⟩ := concluded_of_conclude? hs
    refine h.turned hcl.running hcl.turned hcl.cancelled rfl fun hclean => ⟨?_, hclean.mailbox⟩
    have hun := hclean.unfailed
    cases failure with
    | none => simp [Run.Failed]
    | some e => exact absurd (.inl ⟨_, _, hcl.collector⟩) hun
  | cancel t => exact hm.elim

lemma Smooth.await (h : w.Smooth v r p seeds token) : w.Smooth (v.await r) r p seeds token := by
  obtain ⟨hw, hc, hs, hx, -⟩ := await_others v r
  refine h.turn hw hc hs hx fun b _ => ?_
  rw [runs_await]
  split
  · cases hb : v.runs b with
    | none => exact .inl ⟨rfl, rfl⟩
    | some run =>
      obtain ⟨-, htok, hmail⟩ := attended_others run
      refine .inr ⟨run, _, rfl, rfl, htok, fun hclean => ⟨?_, hmail ▸ hclean.mailbox⟩⟩
      exact fun hf => hclean.unfailed (failed_attended.1 hf)
  · exact Run.clean_self _

lemma smooth_of_launched (ho : w.Outset w₁ r p seeds token) :
    w.Smooth w₁ r p seeds token := by
  obtain ⟨-, hvalid, hl⟩ := start_eq_ok ho.start
  have hseeds := checkSeeds_eq_ok.1 (validate_eq_ok.1 hvalid).1
  have hroot : p.level? [] = some p := rfl
  have hsound := ho.ready.sound _ _ hroot
  have hrun := hl.run_self
  have hruns := fun b hb hne => hl.run_old (b := b) ho.vacant hb hne
  have hnew := hl.worker_new ho.vacant
  have hworkers : ∀ x k, Below r x → w₁.workers x = some k →
      ∃ n t l, k = .new n t l := by
    intro x k hx hk
    by_cases hi : ∃ i, x = i :: r
    · obtain ⟨i, rfl⟩ := hi
      rw [hnew] at hk
      obtain ⟨n, -, rfl⟩ := Option.map_eq_some_iff.1 hk
      exact ⟨n, _, _, rfl⟩
    · rw [hl.worker_old ho.vacant hx fun i h => hi ⟨i, h⟩] at hk
      cases hk
  have hframe : ∀ path q c, p.level? path = some q → c ∈ q.channels → path ≠ [] →
      w₁.conduit c = w.conduit c := fun _ _ _ => conduit_of_sow ho.ready hl.conduits hroot
  refine ⟨hl.cancelled, ⟨_, hrun, rfl⟩, fun x k hx hk => ?_, fun x k inner hx hk _ hpast => ?_,
    fun b run hb hb' => ?_, fun path q c hq hc => ?_, fun path q c hq hc x hx => ?_,
    fun path q hq hn => ?_, fun path q hq hopen => ?_⟩
  · obtain ⟨n, t, l, rfl⟩ := hworkers x k hx hk
    exact upright_new n t l
  · obtain ⟨n, t, l, rfl⟩ := hworkers x k hx hk
    exact absurd hpast (Stage.not_past_gather _ _ _)
  · by_cases hbr : b = r
    · subst hbr
      obtain rfl := Option.some.inj (hrun.symm.trans hb')
      exact ⟨by simp [Run.Failed], by simp⟩
    · rw [hruns b hb hbr] at hb'
      cases hb'
  · by_cases hpath : path = []
    · subst hpath
      obtain rfl := Option.some.inj hq
      rw [conduit, hl.conduits]
      refine typed_sow hsound (fun e he d hd => ?_) hc (ho.ready.typed _ _ c hroot hc)
      obtain ⟨d', hd', hacc⟩ := hseeds e he
      obtain rfl := Option.some.inj (hd.symm.trans hd')
      exact hacc
    · rw [hframe path q c hq hc hpath]
      exact ho.ready.typed path q c hq hc
  · have hmem := mem_line_of_sow hl.conduits (ho.orderly _) hx
    rw [(ho.ready.calm path q c hq hc).line] at hmem
    cases hmem
  · have hpath : path ≠ [] := by
      rintro rfl
      rw [List.nil_append, hrun] at hn
      cases hn
    refine ⟨?_, fun c hc => hframe path q c hq hc hpath⟩
    rw [hl.started, update_of_ne (ho.ready.apart _ _ _ _ hq hroot hpath).1]
    obtain ⟨i, path', rfl⟩ := List.exists_cons_of_ne_nil hpath
    obtain ⟨q', n, hq', hn', hi⟩ := Pipeline.level?_cons_inv hq
    exact (ho.ready.fits hq' (List.mem_of_getElem? hn') hi).1
  · by_cases hpath : path = []
    · subst hpath
      obtain rfl := Option.some.inj hq
      refine ⟨p.nodes.map fun n => .new n token p.options.receiveTimeout, fun i => ?_, ?_⟩
      · rw [List.nil_append, hnew, List.getElem?_map]
      · refine balanced_new hsound seeds _ _ fun c hc => ?_
        rw [conduit, hl.conduits, hsound.length_queue_sow hc]
        rfl
    · -- only the whole run has been entered so far
      obtain ⟨k, inner, hk, hs⟩ := hopen.resolve_left hpath
      have hbelow : Below r (path ++ r) := by
        obtain ⟨i, path', rfl⟩ := List.exists_cons_of_ne_nil hpath
        exact List.suffix_append path' r
      obtain ⟨n, t, l, rfl⟩ := hworkers _ k hbelow hk
      exact absurd hs (Node.gather_ne_inside _ _ _ _)

/-- **Nothing goes wrong in a whole play.** -/
theorem smooth_of_plays (ho : w.Outset w₁ r p seeds token) {ms : List Move}
    (hans : ∀ ns u, w₁.Plays r Alone ns u → u.Answers r) (hplay : w₁.Plays r Alone ms v) :
    v.Course r p ∧ w.Smooth v r p seeds token := by
  refine ⟨ho.course hplay, ?_⟩
  induction hplay with
  | start => exact smooth_of_launched ho
  | move before own step ih =>
    exact ih.step (ho.course before) ho (hans _ _ before) own step
  | await _ ih => exact ih.await
  | others _ act _ => exact act.elim

end World

end Dataflow
