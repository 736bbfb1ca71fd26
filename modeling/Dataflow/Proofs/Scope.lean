import Dataflow.Proofs.Blame
import Dataflow.Proofs.Doomed

/-!
How far a cancellation reaches. The run inside a composite has a token of its own, a child of its
worker's: it is cancelled with the runs around it, and when it cancels itself, no run around or
beside it is.

Main statement: in every state of a run whoever ended with a cancellation did so under a cancelled
token; every cancelled token was asked to be, or belongs to a run that fails fast and has recorded
its first failure; and where a token is cancelled nothing more is gathered, while whoever is past
gathering publishes all of its result or nothing (`cancellation_scoped`).
-/

namespace Dataflow

lemma Below.trans {r b a : Address} (hb : r <:+ b) (ha : Below b a) : Below r a := by
  cases a with
  | nil => exact ha.elim
  | cons i c => exact hb.trans (below_cons.1 ha)

namespace World

variable {w w₁ v u : World} {r a b c : Address} {p q : Pipeline} {k : Worker} {token t : Token}
  {seeds : Payload} {run run' : Run} {e : ExecutionError} {expired : Bool} {ds es : List Deed}
  {path : Address} {asked : Token → Prop}

/-! ### Tokens of runs inside each other -/

/-- What is at and below a run of the tree is a tree. -/
lemma Tree.sub (h : w.Tree r p) (hb : r <:+ b) (hrun : w.runs b = some run) :
    w.Tree b run.pipeline where
  root := ⟨run, hrun, rfl⟩
  manned c i run n hc := h.manned c i run n (hb.trans hc)
  posted c i k hc := h.posted c i k (hb.trans hc)
  suits a k ha := h.suits a k (.trans hb ha)
  above a k ha := h.above a k (.trans hb ha)
  bare a ha := h.bare a (.trans hb ha)

lemma Tree.token_suffix_of_suffix (h : w.Tree r p) (hb : r <:+ b) (hrun : w.runs b = some run)
    (hbc : b <:+ c) (hrun' : w.runs c = some run') : run.token <:+ run'.token := by
  obtain ⟨path, rfl⟩ := hbc
  exact (h.sub hb hrun).token_suffix hrun hrun'

/-- Whoever works below a run has a token below that of the run. -/
lemma Tree.token_suffix_worker (h : w.Tree r p) (hb : r <:+ b) (hrun : w.runs b = some run)
    (ha : Below b a) (hk : w.workers a = some k) : run.token <:+ k.token := by
  obtain ⟨i, path, run', rfl, hrun', hpost, -⟩ := (h.sub hb hrun).place ha hk
  rw [hpost.token]
  exact h.token_suffix_of_suffix hb hrun (List.suffix_append path b) hrun'

/-! ### What others may cancel -/

/-- The token `t` is nobody's that is still to be made, and reaches no run inside the one at `r`
unless it reaches that one: nobody else has a handle on a run inside a composite. -/
structure Foreign (v : World) (r : Address) (token t : Token) : Prop where
  used : ∀ i ∈ t, i < v.fresh
  whole : ∀ b run, r <:+ b → v.runs b = some run → t <:+ run.token → t <:+ token

/-- Others may do anything, but the tokens that they cancel are `asked` to be. -/
structure Asking (asked : Token → Prop) (r : Address) (token : Token) (v u : World) : Prop where
  outside : v.Outside r u
  cancelled : ∀ t ∈ u.cancelled, t ∈ v.cancelled ∨ asked t ∧ u.Foreign r token t
  fresh : v.fresh ≤ u.fresh

lemma Foreign.same (h : v.Foreign r token t) (hfresh : v.fresh ≤ u.fresh)
    (hruns : ∀ b run', r <:+ b → u.runs b = some run' → ∃ run, v.runs b = some run ∧
      run'.token = run.token) : u.Foreign r token t where
  used i hi := (h.used i hi).trans_le hfresh
  whole b run' hb hrun' hsuf := by
    obtain ⟨run, hrun, htok⟩ := hruns b run' hb hrun'
    exact h.whole b run hb hrun (htok ▸ hsuf)

/-- A new run has a number in its token that nobody could ask for. -/
lemma Foreign.step (h : v.Foreign r token t) (ht : v.Tree r p) {m : Move} (hm : m.Of r)
    (hs : v.step? m = some u) : u.Foreign r token t := by
  rcases tokens_of_step hm hs with ⟨a, k, inner, inputs, ha, hk, entry, hfresh⟩ | hold
  · refine ⟨fun i hi => (h.used i hi).trans_le (fresh_step hs), fun b run hb hrun hsuf => ?_⟩
    by_cases hba : b = a
    · subst hba
      obtain rfl := Option.some.inj (entry.run_self.symm.trans hrun)
      obtain ⟨i, path, above, rfl, habove, hpost, -⟩ := ht.place ha hk
      rcases List.suffix_cons_iff.1 hsuf with heq | hsuf
      · exact absurd (h.used v.fresh (heq ▸ List.mem_cons_self)) (Nat.lt_irrefl _)
      · exact h.whole _ above (List.suffix_append path r) habove (hpost.token ▸ hsuf)
    · exact h.whole b run hb (entry.run_old hba ▸ hrun) hsuf
  · exact h.same (fresh_step hs) hold

/-! ### What a cancellation stops -/

/-- A worker that gathers under a cancelled token ends with its next step, and leaves every value
where it is for others. -/
lemma work_of_cancelled {got : Payload} {x : Channel} {rest : List Channel}
    (hk : v.workers a = some k) (hs : k.stage = .gathering got (x :: rest))
    (hx : v.isCancelled k.token = true) (expired : Bool) : ∃ u, v.work? a expired = some u ∧
      u.workers a =
        some { k with stage := .ended (.error (.channel k.node.name (.cancelled x.name))) } ∧
      ∀ y, (u.conduits y).queue = (v.conduits y).queue := by
  refine ⟨_, by simp only [work?, hk, hs, gatherStep, poll, Option.any_some, hx, if_true]; rfl,
    update_same _ _ _, fun y => queues_update (Conduit.queue_abandon _ _) y⟩

/-- Nobody takes a value under a cancelled token. -/
lemma not_took_of_cancelled (hk : v.workers a = some k) (hx : v.isCancelled k.token = true)
    (expired : Bool) (d : Address) (x : Channel) (y : Value) :
    .took d x y ∉ v.workDeeds a expired := by
  intro hmem
  simp only [workDeeds, hk, workerDeeds] at hmem
  split at hmem
  · simp [poll, hx] at hmem
  · simp at hmem
  · split at hmem <;> simp at hmem
  · split at hmem
    · rcases List.mem_append.1 hmem with hmem | hmem
      · simp at hmem
      · split at hmem <;> simp at hmem
    · cases hmem
  · split at hmem <;> simp at hmem
  · simp at hmem
  · cases hmem

/-- From when its run is cancelled on, nobody of it, nor of a run inside it, takes a value. -/
theorem untaken_of_cancelled {env : World → World → Prop} {ms : List Move} (hc : v.Course r p)
    (henv : ∀ x y, env x y → x.Outside r y) (hb : r <:+ b) (hrun : v.runs b = some run)
    (hx : v.isCancelled run.token = true) (hplay : v.Chronicle r env ms es u) :
    (∃ run', u.runs b = some run' ∧ run'.token = run.token ∧ u.isCancelled run.token = true) ∧
      ∀ a x y, .took a x y ∈ es → ¬ Below b a := by
  have course : ∀ {ms es u}, v.Chronicle r env ms es u → u.Course r p :=
    fun h => hc.plays henv h.plays
  induction hplay with
  | start => exact ⟨⟨run, hrun, rfl, hx⟩, fun _ _ _ h => by cases h⟩
  | @move ms es v' u' m before own step ih =>
    obtain ⟨⟨run', hrun', htok, hx'⟩, hnone⟩ := ih
    have htree := (course before).tree
    obtain ⟨run₂, hrun₂, -, htok₂⟩ := htree.run_step own step hrun'
    refine ⟨⟨run₂, hrun₂, htok₂.trans htok,
      isCancelled_mono (cancelled_step own step) List.suffix_rfl hx'⟩, fun a x y hd hba => ?_⟩
    rcases List.mem_append.1 hd with hd | hd
    · exact hnone a x y hd hba
    · -- whoever takes a value is below the run, and so is its token
      have work : ∀ {a' expired}, v'.work? a' expired = some u' →
          .took a x y ∉ v'.workDeeds a' expired := by
        intro a' expired hs hmem
        obtain ⟨k, hk, -⟩ := stride_of_work? hs
        obtain rfl : a = a' := (doing_of_work? hk hs).actor _ hmem
        have hsuf := htree.token_suffix_worker hb hrun' hba hk
        exact not_took_of_cancelled hk (isCancelled_mono (List.Subset.refl _) (htok ▸ hsuf) hx')
          expired a x y hmem
      cases m with
      | work a' => exact work step hd
      | expire a' => exact work step hd
      | _ => cases hd
  | @await ms es v' before ih =>
    obtain ⟨⟨run', hrun', htok, hx'⟩, hnone⟩ := ih
    obtain ⟨-, -, -, hcancelled, -⟩ := await_others v' r
    refine ⟨?_, hnone⟩
    have hx₂ : (v'.await r).isCancelled run.token = true :=
      isCancelled_mono (hcancelled ▸ List.Subset.refl _) List.suffix_rfl hx'
    by_cases hbr : b = r
    · exact ⟨run'.attended, by rw [runs_await, if_pos hbr, hrun', Option.map_some],
        run'.later_attended.token.trans htok, hx₂⟩
    · exact ⟨run', by rw [runs_await, if_neg hbr, hrun'], htok, hx₂⟩
  | others before act ih =>
    obtain ⟨⟨run', hrun', htok, hx'⟩, hnone⟩ := ih
    have hout := henv _ _ act
    exact ⟨⟨run', (hout.runs b hb).trans hrun', htok,
      isCancelled_mono hout.cancelled List.suffix_rfl hx'⟩, hnone⟩

/-! ### Why a token is cancelled -/

/-- The run under the token `t` fails fast and has seen a failure. -/
def Struck (v : World) (r : Address) (p : Pipeline) (t : Token) : Prop :=
  ∃ path q run, p.level? path = some q ∧ q.options.failureStrategy = .failFast ∧
    v.runs (path ++ r) = some run ∧ run.token = t ∧ run.failure? ≠ none

/-- Every cancelled token has its reason, and nobody ended with a cancellation without one. -/
structure Bounded (v : World) (r : Address) (p : Pipeline) (token : Token)
    (asked : Token → Prop) : Prop where
  known : ∀ b run e, r <:+ b → v.runs b = some run → run.Knows e →
    ∃ i k, v.workers (i :: b) = some k ∧ k.stage = .reported (.error e)
  origin : ∀ t ∈ v.cancelled, asked t ∧ v.Foreign r token t ∨ v.Struck r p t
  stopped : ∀ a k e, Below r a → v.workers a = some k → k.Ended (.error e) →
    e.isCancellation = true → v.isCancelled k.token = true
  /-- What a run inside a composite saw first was a cancellation only if it came from outside. -/
  first : ∀ b run k e, Below r b → v.runs b = some run → v.workers b = some k →
    run.failure? = some e → e.isCancellation = true → v.isCancelled k.token = true

lemma Struck.onward (h : v.Struck r p t) (ho : v.Onward u r) : u.Struck r p t := by
  obtain ⟨path, q, run, hq, hstrategy, hrun, htok, hf⟩ := h
  obtain ⟨run', hrun', hkeeps⟩ := ho.runs _ run (List.suffix_append path r) hrun
  obtain ⟨e, he⟩ := Option.ne_none_iff_exists'.1 hf
  exact ⟨path, q, run', hq, hstrategy, hrun', hkeeps.token.trans htok,
    by simp [hkeeps.failure e he]⟩

/-- A worker keeps its token. -/
lemma token_eq_of_keeps {k' : Worker} (ht : v.Tree r p) (hu : u.Tree r p)
    (hruns : ∀ b run, r <:+ b → v.runs b = some run →
      ∃ run', u.runs b = some run' ∧ run.Keeps run')
    (ha : Below r a) (hk : v.workers a = some k) (hk' : u.workers a = some k') :
    k'.token = k.token := by
  cases a with
  | nil => exact ha.elim
  | cons i b =>
    obtain ⟨run, hrun, hpost⟩ := ht.posted b i k ha hk
    obtain ⟨run', hrun', hpost'⟩ := hu.posted b i k' ha hk'
    obtain ⟨run₁, hrun₁, hkeeps⟩ := hruns b run ha hrun
    obtain rfl := Option.some.inj (hrun₁.symm.trans hrun')
    rw [hpost'.token, hkeeps.token, hpost.token]

/-- The cancellation of a run was asked for from around the whole, or came from a run around it
that failed fast. -/
lemma Bounded.reason (h : v.Bounded r p token asked) (hkin : v.Kin r token) (hb : r <:+ b)
    (hrun : v.runs b = some run) (hx : v.isCancelled run.token = true) :
    (∃ t ∈ v.cancelled, asked t ∧ t <:+ token) ∨ ∃ path q run', p.level? path = some q ∧
      q.options.failureStrategy = .failFast ∧ v.runs (path ++ r) = some run' ∧
      run'.token ∈ v.cancelled ∧ run'.failure? ≠ none ∧ path ++ r <:+ b := by
  obtain ⟨t, ht, hsuf⟩ := isCancelled_eq_true.1 hx
  rcases h.origin t ht with ⟨hask, hforeign⟩ | ⟨path, q, run', hq, hstrategy, hrun', rfl, hf⟩
  · exact .inl ⟨t, ht, hask, hforeign.whole b run hb hrun hsuf⟩
  · exact .inr ⟨path, q, run', hq, hstrategy, hrun', ht, hf,
      hkin.nested b _ run run' hb (List.suffix_append path r) hrun hrun' hsuf⟩

/-- The first failure that a run inside sees is a cancellation only if the composite is under a
cancelled token. -/
lemma Bounded.cancelled_around (h : v.Bounded r p token asked) (hkin : v.Kin r token)
    (ht : v.Tree r p) (hb : Below r b) (hrun : v.runs b = some run) (hk : v.workers b = some k)
    (hnone : run.failure? = none) (hknows : run.Knows e) (he : e.isCancellation = true) :
    v.isCancelled k.token = true := by
  obtain ⟨i, k', hk', hs⟩ := h.known b run e hb.suffix hrun hknows
  obtain ⟨run₁, hrun₁, hpost⟩ := ht.posted b i k' hb.suffix hk'
  obtain rfl := Option.some.inj (hrun.symm.trans hrun₁)
  have hx := h.stopped (i :: b) k' e hb.suffix hk' (.inr hs) he
  rw [hpost.token] at hx
  rcases h.reason hkin hb.suffix hrun hx with
    ⟨t, hmem, -, hsuf⟩ | ⟨path, q, run', -, -, hrun', hmem, hf, hsuf⟩
  · obtain ⟨j, path, above, rfl, habove, hposted, -⟩ := ht.place hb hk
    obtain ⟨ids, hids, -⟩ := hkin.numbers _ above (List.suffix_append path r) habove
    refine isCancelled_eq_true.2 ⟨t, hmem, hsuf.trans ?_⟩
    rw [hposted.token, hids]
    exact List.suffix_append ids token
  · -- the run that has failed is not the one that sees its first failure only now
    have hbelow : Below (path ++ r) b := by
      refine (suffix_cases hsuf).resolve_left ?_
      rintro rfl
      obtain rfl := Option.some.inj (hrun.symm.trans hrun')
      exact hf hnone
    refine isCancelled_eq_true.2 ⟨run'.token, hmem, ?_⟩
    exact ht.token_suffix_worker (List.suffix_append path r) hrun' hbelow hk

/-- What goes on in a run keeps the bounds, if whatever is newly cancelled has its reason. -/
lemma Bounded.onward (h : v.Bounded r p token asked) (hkin : v.Kin r token) (ht : v.Tree r p)
    (hu : u.Tree r p) (ho : v.Onward u r) (hsub : v.cancelled ⊆ u.cancelled)
    (hforeign : ∀ t, v.Foreign r token t → u.Foreign r token t)
    (hnew : ∀ t ∈ u.cancelled, t ∈ v.cancelled ∨ asked t ∧ u.Foreign r token t ∨
      u.Struck r p t) : u.Bounded r p token asked where
  known b run' e hb hrun' hknows := by
    rcases ho.knows b run' e hb hrun' hknows with ⟨run, hrun, hold⟩ | hnew
    · obtain ⟨i, k, hk, hs⟩ := h.known b run e hb hrun hold
      exact ⟨i, k, ho.reported (i :: b) k _ (below_cons.2 hb) hk hs, hs⟩
    · exact hnew
  origin t ht := by
    rcases hnew t ht with hold | hreason
    · exact (h.origin t hold).imp (And.imp_right (hforeign t)) fun hstruck => hstruck.onward ho
    · exact hreason
  stopped a k' e ha hk' hended he := by
    obtain ⟨k, hk, -, hold⟩ := ho.ended a k' e ha hk' hended
    rw [token_eq_of_keeps ht hu ho.runs ha hk hk']
    refine isCancelled_mono hsub List.suffix_rfl ?_
    rcases hold with hold | hfault
    · exact h.stopped a k e ha hk hold he
    · cases hfault with
      | own own cause => exact cause he
      | @inside below inner inner_run returned wrapped =>
        subst wrapped
        exact h.first a below k inner ha inner_run hk (Run.failure?_of_returned returned) he
  first b run' k' e hb hrun' hk' hf he := by
    obtain ⟨run, hrun, hold⟩ := ho.first b run' e hb.suffix hrun' hf
    obtain ⟨k, hk⟩ : ∃ k, v.workers b = some k := by
      cases hk : v.workers b with
      | none =>
        rw [ht.bare b hb hk] at hrun
        cases hrun
      | some k => exact ⟨k, rfl⟩
    rw [token_eq_of_keeps ht hu ho.runs hb hk hk']
    refine isCancelled_mono hsub List.suffix_rfl ?_
    rcases hold with hold | ⟨hnone, hknows⟩
    · exact h.first b run k e hb hrun hk hold he
    · exact h.cancelled_around hkin ht hb hrun hk hnone hknows he

lemma bounded_of_launched (hv : w.Vacant r) (hl : w.Launched v r p seeds token)
    (hclear : ∀ t ∈ w.cancelled, asked t ∧ v.Foreign r token t) : v.Bounded r p token asked where
  known _ _ _ hb hrun hknows := absurd hknows (unaware_of_launched hv hl hb hrun)
  origin t ht := .inl (hclear t (hl.cancelled ▸ ht))
  stopped _ _ _ ha hk hended _ := absurd hended (open_of_launched hv hl ha hk)
  first _ _ _ _ hb hrun _ hf _ := absurd (.inl hf) (unaware_of_launched hv hl hb.suffix hrun)

/-- Where only one run has begun, a token in use is nobody's inside it. -/
lemma foreign_of_launched (hv : w.Vacant r) (hl : w.Launched v r p seeds token)
    (hfresh : v.fresh = w.fresh) (hused : ∀ i ∈ t, i < w.fresh) : v.Foreign r token t where
  used i hi := hfresh ▸ hused i hi
  whole b run hb hrun hsuf := by
    by_cases hbr : b = r
    · subst hbr
      obtain rfl := Option.some.inj (hl.run_self.symm.trans hrun)
      exact hsuf
    · rw [hl.run_old hv hb hbr] at hrun
      cases hrun

/-- Whatever a step of the run cancels is the token of a run that has failed fast. -/
lemma struck_of_step (ht : v.Tree r p) {m : Move} (hm : m.Of r) (hs : v.step? m = some u)
    (hmem : t ∈ u.cancelled) : t ∈ v.cancelled ∨ u.Struck r p t := by
  refine (strikes_of_step hm hs hmem).imp_right ?_
  rintro ⟨b, run, rfl, hstrikes, rfl⟩
  obtain ⟨path, rfl⟩ : r <:+ b := hm
  obtain ⟨run', hrun', htok, hf⟩ := hstrikes.failed
  exact ⟨path, run.pipeline, run', ht.level hstrikes.running, hstrikes.strategy, hrun', htok, hf⟩

/-- The bounds hold in every state that a run comes to, whatever happens meanwhile. -/
theorem bounded_of_plays {runtime : Bool} {ms : List Move} (hv : w.Vacant r)
    (ho : ∀ x, (w.conduits x).Orderly) (hstart : w.start r p seeds token runtime = .ok w₁)
    (hclear : ∀ t ∈ w.cancelled, asked t ∧ ∀ i ∈ t, i < w.fresh)
    (hplay : w₁.Plays r (Asking asked r token) ms v) :
    v.Course r p ∧ v.Kin r token ∧ v.Bounded r p token asked := by
  have course := fun {ms v} (h : w₁.Plays r (Asking asked r token) ms v) =>
    course_of_plays hv ho hstart (fun _ _ hact => hact.outside) h
  refine ⟨course hplay, ?_⟩
  induction hplay with
  | start =>
    obtain ⟨-, -, hl⟩ := start_eq_ok hstart
    refine ⟨kin_of_launched hv hl, bounded_of_launched hv hl fun t ht => ?_⟩
    obtain ⟨hask, hused⟩ := hclear t ht
    exact ⟨hask, foreign_of_launched hv hl (fresh_start hstart) hused⟩
  | @move ms v u m before own step ih =>
    have htree := (course before).tree
    refine ⟨ih.1.step htree own step, ih.2.onward ih.1 htree (course (before.move own step)).tree
      (onward_of_step htree own step) (cancelled_step own step)
      (fun t ht => ht.step htree own step) fun t ht => ?_⟩
    exact (struck_of_step htree own step ht).imp_right .inr
  | @await ms v before ih =>
    obtain ⟨-, -, -, hx, -⟩ := await_others v r
    refine ⟨ih.1.await, ih.2.onward ih.1 (course before).tree (course before.await).tree
      (onward_await v r) (hx ▸ List.Subset.refl _) (fun t ht => ?_) fun t ht => .inl (hx ▸ ht)⟩
    exact ht.same (fresh_await v r).ge fun b run' hb hrun' => tokens_await hrun'
  | @others ms v u before act ih =>
    refine ⟨ih.1.outside act.outside act.fresh,
      ih.2.onward ih.1 (course before).tree (course (before.others act)).tree act.outside.onward
        act.outside.cancelled (fun t ht => ?_) fun t ht => (act.cancelled t ht).imp_right .inl⟩
    exact ht.same act.fresh fun b run' hb hrun' => ⟨run', act.outside.runs b hb ▸ hrun', rfl⟩

/-! ### The scope of a cancellation -/

/-- Why a worker at `a` may end with a cancellation: it was asked for from around the whole run, or
a run around the worker fails fast and has cancelled itself over a failure. -/
def Warranted (v : World) (r : Address) (p : Pipeline) (token : Token) (asked : Token → Prop)
    (a : Address) : Prop :=
  (∃ t ∈ v.cancelled, asked t ∧ t <:+ token) ∨ ∃ path q run, p.level? path = some q ∧
    q.options.failureStrategy = .failFast ∧ v.runs (path ++ r) = some run ∧
    run.token ∈ v.cancelled ∧ run.failure? ≠ none ∧ Below (path ++ r) a

/-- Whoever has ended with a cancellation is in a run of which the token, or one around it, is
cancelled. -/
def Traced (v : World) (r : Address) (p : Pipeline) (token : Token) (asked : Token → Prop) : Prop :=
  ∀ i b k e, r <:+ b → v.workers (i :: b) = some k → k.Ended (.error e) →
    e.isCancellation = true → (∃ run, v.runs b = some run ∧ v.isCancelled run.token = true) ∧
      v.Warranted r p token asked (i :: b)

/-- Nothing that fails inside a composite of the run at `path` reaches the other nodes of that run:
if neither it nor a run around it fails fast, then none of its workers ends with a cancellation,
and whoever does inside one of its composites does so for a failure inside the same composite. -/
def Isolated (v : World) (r : Address) (p : Pipeline) (path : Address) : Prop :=
  (∀ path' q, path' <:+ path → p.level? path' = some q →
      q.options.failureStrategy = .continueOnError) →
    (∀ i k e, v.workers (i :: (path ++ r)) = some k → k.Ended (.error e) →
      e.isCancellation = false) ∧
    ∀ i a k e, Below (i :: (path ++ r)) a → v.workers a = some k → k.Ended (.error e) →
      e.isCancellation = true → ∃ inside q run, p.level? (inside ++ i :: path) = some q ∧
        q.options.failureStrategy = .failFast ∧
        v.runs (inside ++ i :: (path ++ r)) = some run ∧ run.failure? ≠ none ∧
        Below (inside ++ i :: (path ++ r)) a

/-- Whoever still gathers in the run at `b`, or in a run inside it, gives up with the next step and
leaves every value where it is. -/
def Halted (v : World) (b : Address) : Prop :=
  ∀ a k got x rest expired, Below b a → v.workers a = some k →
    k.stage = .gathering got (x :: rest) → ∃ u, v.work? a expired = some u ∧
      u.workers a =
        some { k with stage := .ended (.error (.channel k.node.name (.cancelled x.name))) } ∧
      ∀ y, (u.conduits y).queue = (v.conduits y).queue

lemma Pages.closed {result : Except ExecutionError Unit} (h : v.Pages r ds) (ha : Below r a)
    (hk : v.workers a = some k) (hended : k.Ended result) :
    Closed k.node (diary ds a) result := by
  have hpage := h.page a k ha hk
  rcases hended with hs | hs <;> rw [hs] at hpage <;> exact hpage.1

lemma Bounded.traced (h : v.Bounded r p token asked) (hkin : v.Kin r token) (ht : v.Tree r p) :
    v.Traced r p token asked := by
  intro i b k e hb hk hended he
  obtain ⟨run, hrun, hpost⟩ := ht.posted b i k hb hk
  have hx : v.isCancelled run.token = true := hpost.token ▸ h.stopped (i :: b) k e hb hk hended he
  exact ⟨⟨run, hrun, hx⟩, h.reason hkin hb hrun hx⟩

/-- The run that is to blame for a cancellation is around whoever ended with it, so that it is the
run at `path` or around it, or inside the same composite. -/
lemma Traced.isolated (h : v.Traced r p token asked) (hunasked : ∀ t, asked t → ¬ t <:+ token)
    (path : Address) : v.Isolated r p path := by
  intro hcontinue
  have blamed : ∀ {a k e}, Below r a → v.workers a = some k → k.Ended (.error e) →
      e.isCancellation = true → ∃ path' q run, p.level? path' = some q ∧
        q.options.failureStrategy = .failFast ∧ v.runs (path' ++ r) = some run ∧
        run.failure? ≠ none ∧ Below (path' ++ r) a ∧ ¬ path' <:+ path := by
    intro a k e ha hk hended he
    cases a with
    | nil => exact ha.elim
    | cons j b =>
      rcases (h j b k e ha hk hended he).2 with
        ⟨t, -, hask, hsuf⟩ | ⟨path', q, run, hq, hstrategy, hrun, -, hf, hbelow⟩
      · exact absurd hsuf (hunasked t hask)
      · refine ⟨path', q, run, hq, hstrategy, hrun, hf, hbelow, fun hsuf => ?_⟩
        rw [hcontinue path' q hsuf hq] at hstrategy
        cases hstrategy
  have shorten : ∀ {x y : Address}, x ++ r <:+ y ++ r → x <:+ y := fun hxy =>
    ((List.suffix_append_inj_of_length_eq rfl).1 hxy).1
  refine ⟨fun i k e hk hended => Bool.eq_false_iff.2 fun he => ?_,
    fun i a k e ha hk hended he => ?_⟩
  · obtain ⟨path', -, -, -, -, -, -, hbelow, hnot⟩ :=
      blamed (below_cons.2 (List.suffix_append path r)) hk hended he
    exact hnot (shorten (below_cons.1 hbelow))
  · obtain ⟨path', q, run, hq, hstrategy, hrun, hf, hbelow, hnot⟩ :=
      blamed (.trans (List.suffix_append (i :: path) r) ha) hk hended he
    obtain ⟨inside, rfl⟩ : i :: path <:+ path' := by
      cases a with
      | nil => exact ha.elim
      | cons j b =>
        have ha' : (i :: path) ++ r <:+ b := below_cons.1 ha
        rcases List.suffix_or_suffix_of_suffix (below_cons.1 hbelow) ha' with hin | hout
        · rcases List.suffix_cons_iff.1 (shorten hin) with rfl | hsuf
          · exact List.suffix_rfl
          · exact absurd hsuf hnot
        · exact shorten hout
    rw [List.append_assoc, List.cons_append] at hrun hbelow
    exact ⟨inside, q, run, hq, hstrategy, hrun, hf, hbelow⟩

/-- What cancellations can do and cannot do, in a state that a run at `r` has come to with the
deeds `ds`, and in all that may follow. -/
structure Scoped (v : World) (r : Address) (p : Pipeline) (token : Token) (asked : Token → Prop)
    (ds : List Deed) : Prop where
  traced : v.Traced r p token asked
  origin : ∀ t ∈ v.cancelled, asked t ∨ v.Struck r p t
  /-- The next step cancels a run only if that run sees its first failure with it. -/
  onset : ∀ m u b run, m.Of r → v.step? m = some u → r <:+ b → v.runs b = some run →
    run.token ∈ u.cancelled → run.token ∈ v.cancelled ∨ m = .collect b ∧ v.Strikes u b run
  isolated : (∀ t, asked t → ¬ t <:+ token) → ∀ path, v.Isolated r p path
  halted : ∀ b run, r <:+ b → v.runs b = some run → v.isCancelled run.token = true → v.Halted b
  /-- Under a cancelled run nobody takes a value any more, whoever ends has published all of its
  result or nothing, and at a standstill everybody has ended. -/
  settled : ∀ b run ms es u, r <:+ b → v.runs b = some run → v.isCancelled run.token = true →
    v.Chronicle r (Asking asked r token) ms es u →
      (∀ a x y, .took a x y ∈ es → ¬ Below b a) ∧
      (∀ a k result, Below b a → u.workers a = some k → k.Ended result →
        Closed k.node (diary (ds ++ es) a) result) ∧
      (u.Still r → (∀ run', u.runs r = some run' → run'.Attended) → u.Finished b)

/-- **Cancellations keep to their scope**, whatever others ask to be cancelled and in whatever
order the steps come. Whoever has ended with a cancellation is in a run that was cancelled, or
inside one; every cancelled token was asked to be, or is that of a run that fails fast and has seen
a failure; and what fails inside a composite does not reach past it. From when a run is cancelled
on, nobody of it, nor of a run inside it, takes a value. -/
theorem cancellation_scoped {runtime : Bool} {ms : List Move} (hlaid : p.Laid) (hv : w.Vacant r)
    (ho : ∀ x, (w.conduits x).Orderly) (hstart : w.start r p seeds token runtime = .ok w₁)
    (hclear : ∀ t ∈ w.cancelled, asked t ∧ ∀ i ∈ t, i < w.fresh)
    (h : w₁.Chronicle r (Asking asked r token) ms ds v) : v.Scoped r p token asked ds := by
  obtain ⟨hc, hkin, hbounded⟩ := bounded_of_plays hv ho hstart hclear h.plays
  have htraced := hbounded.traced hkin hc.tree
  obtain ⟨-, -, hl⟩ := start_eq_ok hstart
  have hlaunched := course_of_plays hv ho hstart (fun _ _ h => h)
    (.start : w₁.Plays r (Outside r) [] w₁)
  obtain ⟨-, hpages⟩ := (pages_of_launched hv hl).chronicle hlaid hlaunched
    (fun _ _ hact => hact.outside) h
  refine ⟨htraced, fun t ht => (hbounded.origin t ht).imp_left And.left, ?onset,
    htraced.isolated, ?halted, ?settled⟩
  case onset =>
    intro m u b run own step hb hrun hmem
    refine (strikes_of_step own step hmem).imp_right ?_
    rintro ⟨c, run', rfl, hstrikes, htok⟩
    obtain rfl := hkin.unique own hb hstrikes.running hrun htok
    obtain rfl := Option.some.inj (hrun.symm.trans hstrikes.running)
    exact ⟨rfl, hstrikes⟩
  case halted =>
    intro b run hb hrun hx a k got x rest expired ha hk hs
    have hsuf := hc.tree.token_suffix_worker hb hrun ha hk
    exact work_of_cancelled hk hs (isCancelled_mono (List.Subset.refl _) hsuf hx) expired
  case settled =>
    intro b run ms es u hb hrun hx hplay
    have henv : ∀ x y, Asking asked r token x y → x.Outside r y := fun _ _ hact => hact.outside
    obtain ⟨-, hpages⟩ := hpages.chronicle hlaid hc henv hplay
    refine ⟨(untaken_of_cancelled hc henv hb hrun hx hplay).2, fun a k result ha hk hended =>
      hpages.closed (.trans hb ha) hk hended, fun hstill hatt => ?_⟩
    obtain ⟨hcourse, hdoomed⟩ := Doomed.plays hc hb ⟨run, hrun, .inl hx⟩ (hplay.plays.mono henv)
    exact hdoomed.finished hcourse hstill hb fun run' hrun' => hcourse.attended hb hatt hrun'

/-- A source that fails, and a sink that waits for what it should have published. -/
def riot : Pipeline where
  id := 1
  name := "riot"
  options := { validateInputs := false }
  channels := [⟨3, "c", .text⟩]
  nodes := [⟨"bad", [], [⟨3, "c", .text⟩],
      .source (.pure .producer fun _ => .failed (.of "boom"))⟩,
    ⟨"stuck", [⟨3, "c", .text⟩], [], .sink (.pure .function fun _ => .returned .empty)⟩]

/-- The riot as a composite, beside a sink that waits, in a pipeline that goes on after errors. -/
def shelter : Pipeline where
  id := 0
  name := "shelter"
  options := { failureStrategy := .continueOnError, validateInputs := false }
  channels := [⟨2, "d", .text⟩]
  nodes := [⟨"group", [], [], .composite riot⟩,
    ⟨"idle", [⟨2, "d", .text⟩], [], .sink (.pure .function fun _ => .returned .empty)⟩]

lemma workshop_shelter : Workshop { initial with fresh := 4 } [shelter] := by
  have outer := (((Workshop.empty.pipeline "shelter" shelter.options).pipeline "riot"
    { validateInputs := false }).sort (.swap _ _ _)).declare
      (rfl : World.declare _ _ "d" .text = .ok _)
  have inner := (outer.sort (.swap _ _ _)).declare (rfl : World.declare _ _ "c" .text = .ok _)
  have filled := (inner.node (rfl : Node.ofLogic .source "bad" [] [⟨3, "c", .text⟩]
    (.pure .producer fun _ => .failed (.of "boom")) = .ok _) rfl).node
      (rfl : Node.ofLogic .sink "stuck" [⟨3, "c", .text⟩] []
        (.pure .function fun _ => .returned .empty) = .ok _) rfl
  have wrapped : ({ initial with fresh := 4 } : World).composite "group" [] [] riot =
      .ok ⟨"group", [], [], .composite riot⟩ := by
    cbv
  exact (filled.composite wrapped rfl).node (rfl : Node.ofLogic .sink "idle" [⟨2, "d", .text⟩] []
    (.pure .function fun _ => .returned .empty) = .ok _) rfl

/-- The sink inside the composite was cancelled over the failure of the source there. The sink
beside the composite waits as before. -/
theorem shelter_scoped : ∃ w₁ ms ds v k l,
    ({ initial with fresh := 4 } : World).start [4] shelter .empty [4] true = .ok w₁ ∧
      w₁.Chronicle [4] (Asking (fun _ => False) [4] [4]) ms ds v ∧
      v.workers [1, 0, 4] = some k ∧
      k.stage = .ended (.error (.channel "stuck" (.cancelled "c"))) ∧
      v.workers [1, 4] = some l ∧ l.stage = .gathering .empty [⟨2, "d", .text⟩] ∧
      v.isCancelled l.token = false ∧ v.Scoped [4] shelter [4] (fun _ => False) ds := by
  let moves : List Move := [.work [1, 4], .work [0, 4], .work [1, 0, 4], .work [0, 0, 4],
    .work [0, 0, 4], .collect [0, 4], .work [1, 0, 4]]
  obtain ⟨w₁, hw⟩ : ∃ w₁, ({ initial with fresh := 4 } : World).start [4] shelter .empty [4] true =
      .ok w₁ := ⟨_, rfl⟩
  obtain ⟨v, k, l, hsteps, hk, hs, hl, hl', hx⟩ : ∃ v k l,
      (w₁.await [4]).steps moves = some v ∧ v.workers [1, 0, 4] = some k ∧
      k.stage = .ended (.error (.channel "stuck" (.cancelled "c"))) ∧
      v.workers [1, 4] = some l ∧ l.stage = .gathering .empty [⟨2, "d", .text⟩] ∧
      v.isCancelled l.token = false := by
    obtain rfl := Except.ok.inj hw
    exact ⟨_, _, _, rfl, rfl, rfl, rfl, rfl, rfl⟩
  have hawaited : w₁.Chronicle [4] (Asking (fun _ => False) [4] [4]) [] [] (w₁.await [4]) :=
    .await .start
  obtain ⟨ds, hplay⟩ := hawaited.steps (by simp [moves, Move.Of]) hsteps
  have hlaid : shelter.Laid := ((tidy_of_workshop workshop_shelter).ready List.mem_cons_self).laid
  have hv : ({ initial with fresh := 4 } : World).Vacant [4] :=
    ⟨fun _ _ => rfl, fun _ _ => rfl, fun _ _ h => by cases h⟩
  exact ⟨w₁, _, ds, v, k, l, hw, hplay, hk, hs, hl, hl', hx,
    cancellation_scoped hlaid hv orderly_initial hw (fun _ h => by cases h) hplay⟩

end World

end Dataflow
