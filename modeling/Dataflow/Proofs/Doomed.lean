import Dataflow.Proofs.Starvation

/-!
Runs that have to end. A run that was cancelled, or that fails fast and has a worker that failed, is
doomed, and stays so whatever happens next; so it has finished wherever it comes to a standstill,
together with all runs inside it (`Doomed.finished`).

Main statement: every play of a run is short, its standstills are characterised, and a doomed run
never hangs (`standstill`).
-/

namespace Dataflow.World

variable {w w' v u : World} {r a b : Address} {p : Pipeline} {k : Worker} {run : Run}
  {ms : List Move}

/-! ### Doom -/

/-- A worker that has ended with an error goes no other way than to report it. -/
lemma Tree.error_step (h : w.Tree r p) {m : Move} (hm : m.Of r) (hs : w.step? m = some w')
    {e : ExecutionError} (hk : w.workers a = some k)
    (hend : k.stage = .ended (.error e) ∨ k.stage = .reported (.error e)) :
    ∃ k', w'.workers a = some k' ∧
      (k'.stage = .ended (.error e) ∨ k'.stage = .reported (.error e)) := by
  rcases step_cases hm hs with ⟨x, k', expired, -, hx, hk', hst⟩ | ⟨b, _, _, -, -, ht, -⟩
  · by_cases hax : a = x
    · subst hax
      obtain rfl := Option.some.inj (hk.symm.trans hk')
      cases hst
      case told result stage ht =>
        rcases hend with hend | hend <;> rw [stage] at hend <;> cases hend
        exact ⟨_, by rw [ht.workers, update_same], .inr rfl⟩
      all_goals simp_all
    · rcases h.worker_of_ne hx hk' hst hax with hw | ⟨hn, -⟩
      · exact ⟨k, hw.trans hk, hend⟩
      · rw [hn] at hk
        cases hk
  · exact ⟨k, ht.workers ▸ hk, hend⟩

lemma cancelled_step {m : Move} (hm : m.Of r) (hs : w.step? m = some w') :
    w.cancelled ⊆ w'.cancelled := by
  rcases step_cases hm hs with ⟨x, k, expired, -, -, -, hst⟩ | ⟨_, _, _, -, -, -, -, -, hx⟩
  · have hsame : w'.cancelled = w.cancelled := by
      cases hst with
      | entered stage new entry => exact entry.cancelled
      | told stage ht => exact ht.cancelled
      | _ => exact (by assumption : w.Shift w' x k _ _).cancelled
    exact hsame ▸ List.Subset.refl _
  · exact hx

/-- The run at `b` was cancelled, or it fails fast and one of its workers has ended with an
error. -/
def Doomed (v : World) (b : Address) : Prop :=
  ∃ run, v.runs b = some run ∧ (v.isCancelled run.token = true ∨
    run.pipeline.options.failureStrategy = .failFast ∧ ∃ i k e, v.workers (i :: b) = some k ∧
      (k.stage = .ended (.error e) ∨ k.stage = .reported (.error e)))

/-- What has to end keeps having to end, whatever happens next. -/
lemma Doomed.plays (h : v.Course r p) (hb : r <:+ b) (hd : v.Doomed b) {ms : List Move}
    (hplay : v.Plays r (Outside r) ms w) : w.Course r p ∧ w.Doomed b := by
  induction hplay with
  | start => exact ⟨h, hd⟩
  | move _ own step ih =>
    obtain ⟨hc, run, hrun, hwhy⟩ := ih
    obtain ⟨run', hrun', hp, ht⟩ := hc.tree.run_step own step hrun
    refine ⟨hc.step own step, run', hrun', ?_⟩
    rw [hp, ht]
    refine hwhy.imp (isCancelled_mono (cancelled_step own step) List.suffix_rfl) ?_
    rintro ⟨hff, i, k, e, hk, hend⟩
    obtain ⟨k', hk', hend'⟩ := hc.tree.error_step own step hk hend
    exact ⟨hff, i, k', e, hk', hend'⟩
  | @await _ u _ ih =>
    obtain ⟨hc, run, hrun, hwhy⟩ := ih
    obtain ⟨hw, -, -, hx, -⟩ := await_others u r
    refine ⟨hc.await, ?_⟩
    have hsame : ∀ run' : Run, run'.pipeline = run.pipeline → run'.token = run.token →
        (u.await r).runs b = some run' → (u.await r).Doomed b := by
      intro run' hp ht hrun'
      refine ⟨run', hrun', ?_⟩
      rw [hp, ht, hw]
      exact hwhy.imp (isCancelled_mono (hx ▸ List.Subset.refl _) List.suffix_rfl) id
    obtain ⟨hp, ht, -⟩ := attended_others run
    by_cases hbr : b = r
    · exact hsame _ hp ht (by rw [runs_await, if_pos hbr, hrun]; rfl)
    · exact hsame run rfl rfl (by rw [runs_await, if_neg hbr, hrun])
  | others _ act ih =>
    obtain ⟨hc, run, hrun, hwhy⟩ := ih
    refine ⟨hc.outside act, run, (act.runs b hb).trans hrun, ?_⟩
    refine hwhy.imp (isCancelled_mono act.cancelled List.suffix_rfl) ?_
    rintro ⟨hff, i, k, e, hk, hend⟩
    exact ⟨hff, i, k, e, (act.workers _ (below_cons.2 hb)).trans hk, hend⟩

/-- A doomed run has finished when it has come to a standstill. -/
lemma Doomed.finished (h : v.Course r p) (hstill : v.Still r) (hb : r <:+ b) (hd : v.Doomed b)
    (hatt : ∀ run, v.runs b = some run → run.Attended) : v.Finished b := by
  obtain ⟨run, hrun, hwhy⟩ := hd
  refine finished_of_still h hstill run.pipeline b run hb hrun rfl ?_
  rcases hwhy with hx | ⟨hff, i, k, e, hk, hend⟩
  · exact .inr ⟨hatt run hrun, hx⟩
  · have hrep : k.stage = .reported (.error e) := by
      rcases hend with hend | hend
      · rcases worker_of_resting h.tree hstill.resting (below_cons.2 hb) (by simp) hk with
          ⟨_, hs⟩ | ⟨_, _, hs, -⟩ | ⟨c, hblocked⟩
        · rw [hend] at hs; cases hs
        · rw [hend] at hs; cases hs
        · obtain ⟨_, _, hs⟩ := hblocked.stage
          rw [hend] at hs; cases hs
      · exact hend
    rcases receiver_of_resting h.tree hstill.resting hb hrun (hatt run hrun) with hover | ⟨hmail, -⟩
    · exact .inl hover
    · -- with nothing left in the mailbox the receiver has heard of the error
      rcases (h.hearing b run hb hrun).errors i k e hk hrep with hf | ⟨o, ho, -⟩
      · exact .inr ⟨hatt run hrun, (h.hearing b run hb hrun).cancels hf hff⟩
      · rw [hmail] at ho
        cases ho

/-! ### Standstills -/

/-- In a standstill every worker has reported, waits for the run inside it, or waits on an empty
channel in a run without a time limit and under a token of which no ancestor was cancelled. -/
def Characterised (v : World) (r : Address) : Prop :=
  ∀ b i k, r <:+ b → v.workers (i :: b) = some k →
    (∃ result, k.stage = .reported result) ∨
    (∃ inner below, k.stage = .inside inner ∧ v.runs (i :: b) = some below ∧ ¬ below.Over) ∨
    ∃ run got c rest, v.runs b = some run ∧ k.stage = .gathering got (c :: rest) ∧
      (v.conduit c).queue = [] ∧ run.pipeline.options.receiveTimeout = none ∧
      ∀ t, t <:+ run.token → t ∉ v.cancelled

/-- Where a worker of the run is in line, nobody from elsewhere holds a permit for a value that is
still to be taken. -/
def NoGuests (v : World) (r : Address) : Prop :=
  ∀ x, ∀ a ∈ (v.conduits x).waiting, Below r a → ∀ g ∈ (v.conduits x).granted, Below r g

/-- There are no guests where the channels of the run are left to it. -/
lemma Reserved.noGuests (h : v.Reserved r p) (hlaid : p.Laid) (hc : v.Course r p) :
    v.NoGuests r := by
  intro x a ha hb g hg
  obtain ⟨k, got, c, rest, hk, hs, rfl⟩ := hc.lines.member x a (List.mem_append_left _ ha) hb
  obtain ⟨i, path, run, rfl, hp⟩ := exists_place hc.tree hb hk
  have hsuits := hc.tree.suits _ k hb hk
  rw [hs] at hsuits
  have hch := hlaid.input hp.level hp.mem (hsuits.2.subset List.mem_cons_self)
  exact h path _ c hp.level hch g (List.mem_append_right _ hg)

lemma noGuests_of_plays {seeds : Payload} {token : Token} {runtime : Bool} (hready : w.Ready p)
    (hv : w.Vacant r) (ho : ∀ x, (w.conduits x).Orderly)
    (hstart : w.start r p seeds token runtime = .ok w') (h : w'.Plays r (HandsOff p r) ms v) :
    v.NoGuests r :=
  (reserved_of_plays hready hv ho hstart h).noGuests hready.laid
    (course_of_plays hv ho hstart (fun _ _ hact => hact.outside) h)

lemma characterised_of_still (h : v.Course r p) (hstill : v.Still r) (hg : v.NoGuests r) :
    v.Characterised r := by
  intro b i k hb hk
  obtain ⟨run, hrun, hpost⟩ := h.tree.posted b i k hb hk
  rcases worker_of_resting h.tree hstill.resting (below_cons.2 hb) (by simp) hk with
    hrep | ⟨inner, below, hs, hbelow, -, hnot⟩ | ⟨c, hblocked⟩
  · exact .inl hrep
  · exact .inr (.inl ⟨inner, below, hs, hbelow, hnot⟩)
  · obtain ⟨got, rest, hs⟩ := hblocked.stage
    have hself := hg c.id _ hblocked.waits (below_cons.2 hb)
    refine .inr (.inr ⟨run, got, c, rest, hrun, hs, queue_of_blocked h hstill.resting
      (fun g hgr => ⟨hself g hgr, (hself g hgr).ne_nil⟩) hblocked,
      hpost.limit ▸ hblocked.limit, fun t ht hmem => ?_⟩)
    have hx : v.isCancelled run.token = true := isCancelled_eq_true.2 ⟨t, hmem, ht⟩
    have halive := hblocked.alive
    rw [hpost.token, hx] at halive
    cases halive

/-- If somebody waits for the run at `r`, then somebody waits for each run inside it: whoever runs
a pipeline inside a composite waits for it. -/
lemma Course.attended (h : v.Course r p) (hb : r <:+ b)
    (hatt : ∀ run, v.runs r = some run → run.Attended) (hrun : v.runs b = some run) :
    run.Attended := by
  rcases suffix_cases hb with rfl | hbelow
  · exact hatt run hrun
  · cases hk : v.workers b with
    | none =>
      rw [h.tree.bare b hbelow hk] at hrun
      cases hrun
    | some k =>
      have habove := h.tree.above b k hbelow hk
      rw [hrun] at habove
      exact habove.nested.attended

/-- **Standstills are characterised, so that no doomed run hangs**: every play of a run is short;
where it stops with no move left, every worker is done or is where it may wait; and a run that was
doomed on the way, at whatever depth, has finished by then. -/
theorem standstill {initial : Payload} {token : Token} {runtime : Bool} {ms : List Move}
    (hv : w.Vacant r) (ho : ∀ x, (w.conduits x).Orderly)
    (hstart : w.start r p initial token runtime = .ok w')
    (hplay : w'.Plays r (Outside r) ms v) :
    ms.length ≤ 2 * p.effort ∧ (v.Still r → v.NoGuests r → v.Characterised r) ∧
      ∀ b, r <:+ b → v.Doomed b → ∀ ns u, v.Plays r (Outside r) ns u → u.Still r →
        (∀ run, u.runs r = some run → run.Attended) → u.Finished b := by
  have hcourse := course_of_plays hv ho hstart (fun _ _ h => h) hplay
  refine ⟨length_plays_le hv ho hstart (fun _ _ h => h) hplay,
    characterised_of_still hcourse, fun b hb hd ns u hplay' hstill hatt => ?_⟩
  obtain ⟨hcourse', hd'⟩ := hd.plays hcourse hb hplay'
  exact hd'.finished hcourse' hstill hb fun run hrun => hcourse'.attended hb hatt hrun

/-! ### A nested run with and without a fuse -/

/-- A source that fails, and a sink that waits for what it should have published. -/
def circuit (id : Nat) (strategy : FailureStrategy) : Pipeline where
  id := id
  name := "circuit"
  options := { failureStrategy := strategy, validateInputs := false }
  channels := [⟨id + 1, "c", .text⟩]
  nodes := [⟨"bad", [], [⟨id + 1, "c", .text⟩],
      .source (.pure .producer fun _ => .failed (.of "boom"))⟩,
    ⟨"stuck", [⟨id + 1, "c", .text⟩], [], .sink (.pure .function fun _ => .returned .empty)⟩]

/-- Two circuits as composites, of which one fails fast, in a pipeline that goes on after
errors. -/
def panel : Pipeline where
  id := 0
  name := "panel"
  options := { failureStrategy := .continueOnError, validateInputs := false }
  channels := []
  nodes := [⟨"fused", [], [], .composite (circuit 1 .failFast)⟩,
    ⟨"bare", [], [], .composite (circuit 3 .continueOnError)⟩]

lemma workshop_panel : Workshop { initial with fresh := 5 } [panel] := by
  have first := ((Workshop.empty.pipeline "panel" panel.options).pipeline "circuit"
    (circuit 1 .failFast).options).declare (rfl : World.declare _ _ "c" .text = .ok _)
  have filled := (first.node (rfl : Node.ofLogic .source "bad" [] [⟨2, "c", .text⟩]
    (.pure .producer fun _ => .failed (.of "boom")) = .ok _) rfl).node
      (rfl : Node.ofLogic .sink "stuck" [⟨2, "c", .text⟩] []
        (.pure .function fun _ => .returned .empty) = .ok _) rfl
  have fused : ({ initial with fresh := 3 } : World).composite "fused" [] []
      (circuit 1 .failFast) = .ok ⟨"fused", [], [], .composite (circuit 1 .failFast)⟩ := by
    cbv
  have second := ((filled.composite fused rfl).pipeline "circuit"
    (circuit 3 .continueOnError).options).declare (rfl : World.declare _ _ "c" .text = .ok _)
  have filled' := (second.node (rfl : Node.ofLogic .source "bad" [] [⟨4, "c", .text⟩]
    (.pure .producer fun _ => .failed (.of "boom")) = .ok _) rfl).node
      (rfl : Node.ofLogic .sink "stuck" [⟨4, "c", .text⟩] []
        (.pure .function fun _ => .returned .empty) = .ok _) rfl
  have bare : ({ initial with fresh := 5 } : World).composite "bare" [] []
      (circuit 3 .continueOnError) =
        .ok ⟨"bare", [], [], .composite (circuit 3 .continueOnError)⟩ := by
    cbv
  exact filled'.composite bare rfl

lemma handsOff_cancel (p : Pipeline) (r : Address) (v : World) (t : Token) :
    HandsOff p r v (v.cancel t) :=
  ⟨⟨fun _ _ => rfl, fun _ _ => rfl, List.subset_append_left _ _,
    fun _ h => ⟨h, fun _ _ => Iff.rfl⟩⟩, fun _ _ _ _ _ => rfl⟩

/-- The run with the fuse is doomed as soon as its source has failed, and finishes; the other one
waits without end, and the panel with it. So the panel comes to a standstill, but does not finish
before it is cancelled. -/
theorem panel_finishes : ∃ w₁ ms v₀ ns v stuck below run os u,
    ({ initial with fresh := 5 } : World).start [5] panel .empty [5] true = .ok w₁ ∧
      w₁.Plays [5] (Outside [5]) ms v₀ ∧ v₀.Doomed [0, 5] ∧
      v₀.Plays [5] (Outside [5]) ns v ∧ (ms ++ ns).length ≤ 2 * panel.effort ∧
      v.Still [5] ∧ v.NoGuests [5] ∧ v.Characterised [5] ∧ v.Finished [0, 5] ∧
      v.workers [1, 1, 5] = some stuck ∧ stuck.stage = .gathering .empty [⟨4, "c", .text⟩] ∧
      v.runs [1, 5] = some below ∧ ¬ below.Over ∧ v.runs [5] = some run ∧ ¬ run.Over ∧
      Outside [5] v (v.cancel [5]) ∧ (v.cancel [5]).Doomed [5] ∧
      (v.cancel [5]).Plays [5] (Outside [5]) os u ∧ u.Still [5] ∧ u.Finished [5] := by
  let ms : List Move := [.work [0, 5], .work [1, 5], .work [1, 0, 5], .work [0, 0, 5]]
  let ns : List Move := [.work [0, 0, 5], .collect [0, 5], .work [1, 0, 5], .work [1, 0, 5],
    .collect [0, 5], .conclude [0, 5], .work [0, 5], .work [0, 5], .collect [5],
    .work [0, 1, 5], .work [0, 1, 5], .work [1, 1, 5], .collect [1, 5]]
  let os : List Move := [.work [1, 1, 5], .work [1, 1, 5], .collect [1, 5], .conclude [1, 5],
    .work [1, 5], .work [1, 5], .collect [5], .conclude [5]]
  obtain ⟨w₁, hw⟩ : ∃ w₁, ({ initial with fresh := 5 } : World).start [5] panel .empty [5] true =
      .ok w₁ := ⟨_, rfl⟩
  obtain ⟨v₀, v, u, fuse, k, e, stuck, below, run, last, hms, hns, hos, hv, hu, hfuse, hff, hk,
      hs, hstuck, hstage, hbelow, hrun, hopen, hopen', htoken, hlast, hover⟩ :
      ∃ v₀ v u fuse k e stuck below run last,
      (w₁.await [5]).steps ms = some v₀ ∧ v₀.steps ns = some v ∧
      (v.cancel [5]).steps os = some u ∧ v.exhausted [5] panel = true ∧
      u.exhausted [5] panel = true ∧ v₀.runs [0, 5] = some fuse ∧
      fuse.pipeline.options.failureStrategy = .failFast ∧ v₀.workers [0, 0, 5] = some k ∧
      k.stage = .ended (.error e) ∧ v.workers [1, 1, 5] = some stuck ∧
      stuck.stage = .gathering .empty [⟨4, "c", .text⟩] ∧
      v.runs [1, 5] = some below ∧ v.runs [5] = some run ∧
      (∃ done failed, below.collector = .waiting done failed) ∧
      (∃ done failed, run.collector = .waiting done failed) ∧ run.token = [5] ∧
      u.runs [5] = some last ∧ last.Over := by
    obtain rfl := Except.ok.inj hw
    exact ⟨_, _, _, _, _, _, _, _, _, _, rfl, rfl, rfl, rfl, rfl, rfl, rfl, rfl, rfl, rfl, rfl,
      rfl, rfl, ⟨_, _, rfl⟩, ⟨_, _, rfl⟩, rfl, rfl, _, rfl⟩
  have hready := (tidy_of_workshop workshop_panel).ready List.mem_cons_self
  have hvacant : ({ initial with fresh := 5 } : World).Vacant [5] :=
    ⟨fun _ _ => rfl, fun _ _ => rfl, fun _ _ h => by cases h⟩
  have henv : ∀ x y, HandsOff panel [5] x y → Outside [5] x y := fun _ _ hact => hact.outside
  have waiting : ∀ {run : Run}, (∃ done failed, run.collector = .waiting done failed) →
      ¬ run.Over := by
    rintro run ⟨done, failed, hwait⟩ ⟨result, hret⟩
    rw [hwait] at hret
    cases hret
  -- nobody else touches the channels of the panel, not even who cancels it
  have before : w₁.Plays [5] (HandsOff panel [5]) ms v₀ :=
    (Plays.await .start).trans (plays_of_steps (by simp [Move.Of]) hms)
  have between : v₀.Plays [5] (HandsOff panel [5]) ns v :=
    plays_of_steps (by simp [ns, Move.Of]) hns
  have after : (v.cancel [5]).Plays [5] (HandsOff panel [5]) os u :=
    plays_of_steps (by simp [os, Move.Of]) hos
  have here := before.trans between
  have hcancel := handsOff_cancel panel [5] v [5]
  have cancelled := here.others hcancel
  have hstill := still_of_exhausted
    (course_of_plays hvacant orderly_initial hw henv here) hv
  have hstill' := still_of_exhausted
    (course_of_plays hvacant orderly_initial hw henv (cancelled.trans after)) hu
  have hguests := noGuests_of_plays hready hvacant orderly_initial hw here
  have hdoomed : v₀.Doomed [0, 5] := ⟨fuse, hfuse, .inr ⟨hff, 0, k, e, hk, .inl hs⟩⟩
  have hdoomed' : (v.cancel [5]).Doomed [5] := by
    refine ⟨run, hrun, .inl (isCancelled_eq_true.2 ⟨[5], ?_, htoken ▸ List.suffix_rfl⟩)⟩
    exact List.mem_append_right _ List.mem_cons_self
  obtain ⟨hshort, hchar, -⟩ := standstill hvacant orderly_initial hw (here.mono henv)
  obtain ⟨-, -, hfused⟩ := standstill hvacant orderly_initial hw (before.mono henv)
  obtain ⟨-, -, hall⟩ := standstill hvacant orderly_initial hw (cancelled.mono henv)
  refine ⟨w₁, ms, v₀, ns, v, stuck, below, run, os, u, hw, before.mono henv, hdoomed,
    between.mono henv, hshort, hstill, hguests, hchar hstill hguests, ?_, hstuck, hstage, hbelow,
    waiting hopen, hrun, waiting hopen', hcancel.outside, hdoomed', after.mono henv, hstill', ?_⟩
  · refine hfused [0, 5] (List.suffix_cons _ _) hdoomed ns v (between.mono henv) hstill ?_
    rintro run' hrun'
    exact Option.some.inj (hrun.symm.trans hrun') ▸ .inl hopen'
  · refine hall [5] List.suffix_rfl hdoomed' os u (after.mono henv) hstill' ?_
    rintro run' hrun'
    exact Option.some.inj (hlast.symm.trans hrun') ▸ .inr hover

end Dataflow.World
