import Dataflow.Proofs.Toil

/-!
Where runs come to a standstill. A worker without a move has reported, or waits for the run inside
it, or is blocked on a channel without a time limit and under a token that nobody has cancelled
(`worker_of_resting`); and a receiver without a move has returned, or has heard everything and
waits for some worker (`receiver_of_resting`). So nothing of a run is left at a standstill once its
wait is over, or once it was cancelled (`finished_of_still`).
-/

namespace Dataflow.World

variable {w w' v : World} {r a b o : Address} {p : Pipeline} {k : Worker} {run : Run}

/-- What holds of a run at all times, whatever others do. -/
structure Course (w : World) (r : Address) (p : Pipeline) : Prop where
  tree : w.Tree r p
  lines : w.Lines r
  hearing : w.Hearing r

theorem Course.step (h : w.Course r p) {m : Move} (hm : m.Of r) (hs : w.step? m = some w') :
    w'.Course r p :=
  ⟨h.tree.step hm hs, h.lines.step h.tree hm hs, h.hearing.step h.tree hm hs⟩

lemma Course.await (h : w.Course r p) : (w.await r).Course r p :=
  ⟨h.tree.await, h.lines.await, h.hearing.await⟩

lemma Course.outside (h : w.Course r p) (ho : w.Outside r w') : w'.Course r p :=
  ⟨h.tree.outside ho, h.lines.outside ho, h.hearing.outside ho⟩

lemma Course.plays {env : World → World → Prop} {ms : List Move} (h : w.Course r p)
    (henv : ∀ u u', env u u' → u.Outside r u') (hplay : w.Plays r env ms v) : v.Course r p := by
  induction hplay with
  | start => exact h
  | move _ own step ih => exact ih.step own step
  | await _ ih => exact ih.await
  | others _ act ih => exact ih.outside (henv _ _ act)

/-- A run that starts where nothing was holds its course through every play. -/
theorem course_of_plays {initial : Payload} {token : Token} {runtime : Bool}
    {env : World → World → Prop} {ms : List Move} (hv : w.Vacant r)
    (ho : ∀ x, (w.conduits x).Orderly) (hstart : w.start r p initial token runtime = .ok w')
    (henv : ∀ u u', env u u' → u.Outside r u') (hplay : w'.Plays r env ms v) : v.Course r p := by
  obtain ⟨-, -, hl⟩ := start_eq_ok hstart
  have hcourse : w'.Course r p :=
    ⟨tree_of_launched hv hl, lines_of_launched hv ho hl, hearing_of_launched hv hl⟩
  exact hcourse.plays henv hplay

/-! ### Who has no step left -/

/-- A worker that has a value to come, but has none now and will not give up. -/
structure Blocked (v : World) (a : Address) (k : Worker) (c : Channel) : Prop where
  stage : ∃ got rest, k.stage = .gathering got (c :: rest)
  waits : a ∈ (v.conduit c).waiting
  limit : k.limit = none
  alive : v.isCancelled k.token = false

lemma blocked_of_gatherStep {got : Payload} {c : Channel} {rest : List Channel}
    (hs : k.stage = .gathering got (c :: rest))
    (hwork : v.gatherStep a k false got c rest = none)
    (hexp : v.gatherStep a k true got c rest = none) : v.Blocked a k c := by
  cases hx : v.isCancelled k.token with
  | true => simp [gatherStep, poll, hx] at hwork
  | false =>
    cases hu : (v.conduit c).usePermit? a with
    | some q => cases hp : q.pop? <;> simp [gatherStep, poll, hx, hu, hp] at hwork
    | none =>
      cases hl : k.limit with
      | some d => simp [gatherStep, poll, hx, hu, hl] at hexp
      | none =>
        refine ⟨⟨got, rest, hs⟩, ?_, hl, hx⟩
        by_contra hw
        simp [gatherStep, poll, hx, hu, inLine, hw] at hwork

/-- A worker without a step has reported, waits for the run inside it, or is blocked. -/
lemma worker_of_resting (ht : v.Tree r p) (hrest : v.Resting r o) (ha : Below r a) (hne : a ≠ o)
    (hk : v.workers a = some k) :
    (∃ result, k.stage = .reported result) ∨
      (∃ inner below, k.stage = .inside inner ∧ v.runs a = some below ∧
        Nested k.node k.token below ∧ ¬ below.Over) ∨
      ∃ c, v.Blocked a k c := by
  have hwork : v.work? a false = none := hrest (.work a) ha (by simpa using hne) (by simp)
  have hexp : v.work? a true = none := hrest (.expire a) ha (by simp) (by simpa using hne)
  have hsuits := ht.suits a k ha hk
  have habove := ht.above a k ha hk
  unfold work? at hwork hexp
  rw [hk] at hwork hexp
  cases hs : k.stage with
  | gathering got rest =>
    simp only [hs] at hwork hexp
    rw [hs] at hsuits
    cases rest with
    | nil => exact absurd rfl hsuits.1
    | cons c rest => exact .inr (.inr ⟨c, blocked_of_gatherStep hs hwork hexp⟩)
  | inside inner =>
    rw [Worker.Above, hs] at habove
    obtain ⟨below, hrun, hn⟩ := habove
    refine .inr (.inl ⟨inner, below, rfl, hrun, hn, ?_⟩)
    rintro ⟨result, hover⟩
    simp only [hs, leaveStep, hrun, Option.map_some, hover] at hwork
    cases result with
    | error e => simp at hwork
    | ok report =>
      revert hwork
      rcases v.takeOutputs inner .empty k.node.outputs with ⟨c | produced, u⟩ <;> simp
  | sending ready total => rcases ready with _ | ⟨⟨c, x⟩, ready⟩ <;> simp [hs] at hwork
  | calling logic inputs => simp [hs] at hwork
  | entering inner inputs => simp [hs] at hwork
  | checking produced => simp [hs] at hwork
  | ended result => simp [hs] at hwork
  | reported result => exact .inl ⟨result, rfl⟩

/-- A receiver without a step has returned, or has heard everything and waits for some worker. -/
lemma receiver_of_resting (ht : v.Tree r p) (hrest : v.Resting r o) (hb : r <:+ b)
    (hrun : v.runs b = some run) (hatt : run.Attended) :
    run.Over ∨ run.mailbox = [] ∧
      ∃ i k, v.workers (i :: b) = some k ∧ ∀ result, k.stage ≠ .reported result := by
  rcases hatt with ⟨completed, failure, hc⟩ | ⟨result, hc⟩
  · have hcollect : v.collect? b = none := hrest (.collect b) hb (by simp) (by simp)
    have hconclude : v.conclude? b = none := hrest (.conclude b) hb (by simp) (by simp)
    cases hm : run.mailbox with
    | cons o rest =>
      cases ho : o.result <;> simp [collect?, hrun, hc, hm, ho] at hcollect
    | nil =>
      refine .inr ⟨rfl, ?_⟩
      by_contra hall
      have hrep : v.allReported b run = true := by
        refine List.all_eq_true.2 fun i hi => ?_
        have hlt : i < run.pipeline.nodes.length := List.mem_range.1 hi
        obtain ⟨k, hk⟩ := ht.manned b i run _ hb hrun (List.getElem?_eq_getElem hlt)
        by_contra hnot
        refine hall ⟨i, k, hk, fun result hs => hnot ?_⟩
        simp [hasReported, hk, hs]
      cases failure <;> simp [conclude?, hrun, hc, hm, hrep] at hconclude
  · exact .inl ⟨result, hc⟩

/-- A worker is blocked on an empty channel, unless somebody else is to take the values. -/
lemma queue_of_blocked (h : v.Course r p) (hrest : v.Resting r o) {c : Channel}
    (hg : ∀ g ∈ (v.conduit c).granted, Below r g ∧ g ≠ o) (hb : v.Blocked a k c) :
    (v.conduit c).queue = [] := by
  have hord := h.lines.orderly c.id
  by_contra hq
  have hne := hord.granted_ne_nil (List.ne_nil_of_mem hb.waits) hq
  obtain ⟨g, hgr⟩ := List.exists_mem_of_ne_nil _ hne
  obtain ⟨hbelow, hgo⟩ := hg g hgr
  have hline : g ∈ (v.conduits c.id).line := List.mem_append_right _ hgr
  obtain ⟨k', got, c', rest, hk', hs', hid⟩ := h.lines.member _ _ hline hbelow
  rcases worker_of_resting h.tree hrest hbelow hgo hk' with ⟨_, hs⟩ | ⟨_, _, hs, -⟩ | ⟨d, hd⟩
  · rw [hs'] at hs; cases hs
  · rw [hs'] at hs; cases hs
  · obtain ⟨_, _, hs⟩ := hd.stage
    rw [hs'] at hs
    cases hs
    have hw := hd.waits
    rw [conduit, hid] at hw
    have honce := hord.once
    rw [Conduit.line, List.nodup_append] at honce
    exact honce.2.2 _ hw _ hgr rfl

/-! ### Runs that have ended -/

/-- The wait for the run at `b` is over, every worker of it and of the runs inside it has ended
and said so, and those runs are over as well. -/
structure Finished (v : World) (b : Address) : Prop where
  ended : ∃ run, v.runs b = some run ∧ run.Over
  workers : ∀ a k, Below b a → v.workers a = some k → ∃ result, k.stage = .reported result
  runs : ∀ c run, b <:+ c → v.runs c = some run → run.Over

/-- A run that is over has finished if all its workers have ended, and the runs inside it have
finished. -/
lemma finished_of_inner {run : Run} (h : v.Course r p) (hb : r <:+ b) (hrun : v.runs b = some run)
    (hover : run.Over)
    (hworkers : ∀ i k, v.workers (i :: b) = some k → ∃ result, k.stage = .reported result)
    (hbelow : ∀ i below, v.runs (i :: b) = some below → v.Finished (i :: b)) : v.Finished b := by
  refine ⟨⟨run, hrun, hover⟩, fun a k ha hk => ?_, fun c run' hc hrun' => ?_⟩
  · cases a with
    | nil => exact ha.elim
    | cons j c =>
      rcases suffix_step (below_cons.1 ha) with rfl | ⟨i, hi⟩
      · exact hworkers j k hk
      · cases hr : v.runs (i :: b) with
        | none =>
          have hempty := h.tree.empty_below (hb.trans (List.suffix_cons i b)) hr hi
          rw [hempty.2 j] at hk
          cases hk
        | some below => exact (hbelow i below hr).workers _ k (below_cons.2 hi) hk
  · rcases suffix_step hc with rfl | ⟨i, hi⟩
    · obtain rfl := Option.some.inj (hrun.symm.trans hrun')
      exact hover
    · cases hr : v.runs (i :: b) with
      | none =>
        have hempty := h.tree.empty_below (hb.trans (List.suffix_cons i b)) hr hi
        rw [hempty.1] at hrun'
        cases hrun'
      | some below => exact (hbelow i below hr).runs c run' hi hrun'

/-- In a standstill a run that is over, or was cancelled, has finished with all that is inside. -/
lemma finished_of_still (h : v.Course r p) (hstill : v.Still r) (q : Pipeline) :
    ∀ b run, r <:+ b → v.runs b = some run → run.pipeline = q →
      run.Over ∨ run.Attended ∧ v.isCancelled run.token = true → v.Finished b := by
  induction q using Pipeline.nest_induction with
  | step q ih =>
  rintro b run hb hrun rfl hwhy
  have hinner : ∀ i k below, v.workers (i :: b) = some k → v.runs (i :: b) = some below →
      Nested k.node k.token below →
      below.Over ∨ below.Attended ∧ v.isCancelled below.token = true → v.Finished (i :: b) := by
    intro i k below hk hbelow hn hwhy
    obtain ⟨run', hrun', hpost⟩ := h.tree.posted b i k hb hk
    obtain rfl := Option.some.inj (hrun.symm.trans hrun')
    exact ih k.node (List.mem_of_getElem? hpost.node) _ hn.inner (i :: b) below
      (hb.trans (List.suffix_cons i b)) hbelow rfl hwhy
  -- a cancelled run has no worker that still waits, for a value or for the run inside
  have hworkers : ∀ i k, v.workers (i :: b) = some k → ∃ result, k.stage = .reported result := by
    intro i k hk
    rcases hwhy with hover | ⟨-, hx⟩
    · exact ((h.hearing b run hb hrun).closed hover).2 i k hk
    · obtain ⟨run', hrun', hpost⟩ := h.tree.posted b i k hb hk
      obtain rfl := Option.some.inj (hrun.symm.trans hrun')
      rcases worker_of_resting h.tree hstill.resting (below_cons.2 hb) (by simp) hk with
        hrep | ⟨inner, below, -, hbelow, hn, hnot⟩ | ⟨c, hblocked⟩
      · exact hrep
      · have hx' : v.isCancelled below.token = true :=
          isCancelled_mono (List.Subset.refl _) (hpost.token ▸ hn.token) hx
        obtain ⟨below', hbelow', hover⟩ :=
          (hinner i k below hk hbelow hn (.inr ⟨hn.attended, hx'⟩)).ended
        obtain rfl := Option.some.inj (hbelow.symm.trans hbelow')
        exact absurd hover hnot
      · have := hblocked.alive
        rw [hpost.token, hx] at this
        cases this
  have hover : run.Over := by
    rcases hwhy with hover | ⟨hatt, -⟩
    · exact hover
    · rcases receiver_of_resting h.tree hstill.resting hb hrun hatt with hover | ⟨-, i, k, hk, hnot⟩
      · exact hover
      · obtain ⟨result, hs⟩ := hworkers i k hk
        exact absurd hs (hnot result)
  have hbelow : ∀ i below, v.runs (i :: b) = some below → v.Finished (i :: b) := by
    intro i below hrun'
    cases hk : v.workers (i :: b) with
    | none =>
      rw [h.tree.bare _ (below_cons.2 hb) hk] at hrun'
      cases hrun'
    | some k =>
      have habove := h.tree.above _ _ (below_cons.2 hb) hk
      obtain ⟨result, hs⟩ := hworkers i k hk
      rw [Worker.Above, hs] at habove
      exact hinner i k below hk hrun' (habove _ hrun').1 (.inl (habove _ hrun').2)
  exact finished_of_inner h hb hrun hover hworkers hbelow

end Dataflow.World
