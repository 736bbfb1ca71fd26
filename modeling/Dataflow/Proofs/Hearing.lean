import Dataflow.Proofs.Tree

/-!
How failures come to be heard. A worker that has reported an error has left it in the mailbox of
its run, or the receiver has taken it from there; and under `failFast` a receiver that has seen a
failure has cancelled the run. A receiver returns only when everything was heard.
-/

namespace Dataflow

/-- The receiver of the run has seen a failure. -/
def Run.Failed (run : Run) : Prop :=
  (∃ completed e, run.collector = .waiting completed (some e)) ∨
    ∃ e, run.collector = .returned (.error e)

namespace World

variable {w w' : World} {r a b : Address} {p : Pipeline} {k : Worker} {run : Run}

structure Hears (w : World) (b : Address) (run : Run) : Prop where
  kept : run.collector ≠ .dropped
  errors : ∀ i k e, w.workers (i :: b) = some k → k.stage = .reported (.error e) →
    run.Failed ∨ ∃ o ∈ run.mailbox, o.result ≠ .ok ()
  cancels : run.Failed → run.pipeline.options.failureStrategy = .failFast →
    w.isCancelled run.token = true
  closed : run.Over → run.mailbox = [] ∧
    ∀ i k, w.workers (i :: b) = some k → ∃ result, k.stage = .reported result

/-- Every run at `r` and below hears of its failures. -/
def Hearing (w : World) (r : Address) : Prop :=
  ∀ b run, r <:+ b → w.runs b = some run → w.Hears b run

/-- As long as the same workers have reported, the same is heard. -/
lemma Hears.mono (h : w.Hears b run) (hx : w.cancelled ⊆ w'.cancelled)
    (hw : ∀ i k', w'.workers (i :: b) = some k' → ∃ k, w.workers (i :: b) = some k ∧
      ∀ result, k'.stage = .reported result ↔ k.stage = .reported result) :
    w'.Hears b run where
  kept := h.kept
  errors i k' e hk' hs := by
    obtain ⟨k, hk, hiff⟩ := hw i k' hk'
    exact h.errors i k e hk ((hiff _).1 hs)
  cancels hf hff := isCancelled_mono hx List.suffix_rfl (h.cancels hf hff)
  closed ho := by
    refine ⟨(h.closed ho).1, fun i k' hk' => ?_⟩
    obtain ⟨k, hk, hiff⟩ := hw i k' hk'
    obtain ⟨result, hs⟩ := (h.closed ho).2 i k hk
    exact ⟨result, (hiff _).2 hs⟩

lemma Hears.same (h : w.Hears b run) (hx : w.cancelled ⊆ w'.cancelled)
    (hw : ∀ i, w'.workers (i :: b) = w.workers (i :: b)) : w'.Hears b run :=
  h.mono hx fun i k hk => ⟨k, hw i ▸ hk, fun _ => Iff.rfl⟩

lemma failed_attended : run.attended.Failed ↔ run.Failed := by
  unfold Run.attended
  cases hc : run.collector <;> simp [Run.Failed, hc]

lemma over_attended : run.attended.Over ↔ run.Over := by
  unfold Run.attended
  cases hc : run.collector <;> simp [Run.Over, hc]

lemma attended_others (run : Run) : run.attended.pipeline = run.pipeline ∧
    run.attended.token = run.token ∧ run.attended.mailbox = run.mailbox := by
  unfold Run.attended
  cases run.collector <;> exact ⟨rfl, rfl, rfl⟩

/-- A stage that is entered by a step that is no report. -/
lemma Hearing.restage (h : w.Hearing r) (hk : w.workers a = some k) {s : Stage}
    (hw : w'.workers = update w.workers a (some { k with stage := s })) (hr : w'.runs = w.runs)
    (hx : w'.cancelled = w.cancelled) (hold : ∀ result, k.stage ≠ .reported result)
    (hnew : ∀ result, s ≠ .reported result) : w'.Hearing r := by
  intro b run hb hrun
  refine (h b run hb (hr ▸ hrun)).mono (hx ▸ List.Subset.refl _) fun i k' hk' => ?_
  by_cases hi : i :: b = a
  · subst hi
    rw [hw, update_same] at hk'
    obtain rfl := Option.some.inj hk'
    exact ⟨k, hk, fun result => ⟨fun hs => absurd hs (hnew _), fun hs => absurd hs (hold _)⟩⟩
  · rw [hw, update_of_ne hi] at hk'
    exact ⟨k', hk', fun _ => Iff.rfl⟩

lemma Hearing.entered (h : w.Hearing r) (ht : w.Tree r p) (ha : Below r a)
    (hk : w.workers a = some k) {inner : Pipeline} {inputs : Payload} {id : Nat}
    (hs : k.stage = .entering inner inputs) (he : w.Entered w' a k inner id inputs) :
    w'.Hearing r := by
  have hnone := ht.runs_of_entering ha hk hs
  intro b run hb hrun
  by_cases hba : b = a
  · subst hba
    rw [he.runs, update_same] at hrun
    obtain rfl := Option.some.inj hrun
    refine ⟨by simp, fun i k' e hk' hs' => ?_, by simp [Run.Failed], by simp [Run.Over]⟩
    rw [he.workers, update_of_ne (cons_ne_self i b),
      staff_of_none (ht.workers_of_runs_none hb hnone)] at hk'
    obtain ⟨n, -, rfl⟩ := Option.map_eq_some_iff.1 hk'
    exact absurd hs' (Node.gather_ne_reported _ _ _ _)
  · rw [he.runs, update_of_ne hba] at hrun
    refine (h b run hb hrun).mono (he.cancelled ▸ List.Subset.refl _) fun i k' hk' => ?_
    by_cases hi : i :: b = a
    · subst hi
      rw [he.workers, update_same] at hk'
      obtain rfl := Option.some.inj hk'
      exact ⟨k, hk, fun _ => by simp [hs]⟩
    · rw [he.workers, update_of_ne hi, staff_of_tail_ne fun j hj => hba (List.cons.inj hj).2]
        at hk'
      exact ⟨k', hk', fun _ => Iff.rfl⟩

lemma Hearing.told (h : w.Hearing r) (ha : Below r a) (hk : w.workers a = some k)
    {result : Except ExecutionError Unit} (hs : k.stage = .ended result)
    (ht : w.Told w' a k result) : w'.Hearing r := by
  cases a with
  | nil => exact ha.elim
  | cons j c =>
  intro b run hb hrun
  have hworkers := ht.workers
  have hruns := ht.runs
  rw [List.tail_cons] at hruns
  by_cases hbc : b = c
  · subst hbc
    cases hr : w.runs b with
    | none =>
      rw [hruns, hr, Option.elim_none, hr] at hrun
      cases hrun
    | some run₀ =>
      rw [hruns, hr, Option.elim_some, update_same] at hrun
      obtain rfl := Option.some.inj hrun
      have hold := h b run₀ hb hr
      have hdel : delivered run₀ ⟨k.node.name, result⟩ =
          { run₀ with mailbox := run₀.mailbox ++ [⟨k.node.name, result⟩] } := by
        have := hold.kept
        unfold delivered
        split
        · contradiction
        · rfl
      rw [hdel]
      refine ⟨hold.kept, fun i k' e hk' hs' => ?_, fun hf hff => ?_, fun ho => ?_⟩
      · by_cases hi : i :: b = j :: b
        · rw [hi, hworkers, update_same] at hk'
          obtain rfl := Option.some.inj hk'
          obtain rfl : result = .error e := by simpa using hs'
          exact .inr ⟨_, List.mem_append_right _ (List.mem_singleton_self _), by simp⟩
        · rw [hworkers, update_of_ne hi] at hk'
          refine (hold.errors i k' e hk' hs').imp id ?_
          rintro ⟨o, ho, hne⟩
          exact ⟨o, List.mem_append_left _ ho, hne⟩
      · exact isCancelled_mono (ht.cancelled ▸ List.Subset.refl _) List.suffix_rfl
          (hold.cancels hf hff)
      · -- a run whose receiver has returned has no worker left that could report
        obtain ⟨_, hs'⟩ := (hold.closed ho).2 j k hk
        rw [hs] at hs'
        cases hs'
  · have hrun₀ : w.runs b = some run := by
      cases hr : w.runs c with
      | none => rwa [hruns, hr, Option.elim_none] at hrun
      | some run₀ => rwa [hruns, hr, Option.elim_some, update_of_ne hbc] at hrun
    refine (h b run hb hrun₀).same (ht.cancelled ▸ List.Subset.refl _) fun i => ?_
    rw [hworkers, update_of_ne fun hi => hbc (List.cons.inj hi).2]

lemma Hearing.stride (h : w.Hearing r) (ht : w.Tree r p) (ha : Below r a)
    (hk : w.workers a = some k) {expired : Bool} (hst : w.Stride w' a k expired) :
    w'.Hearing r := by
  have shift : ∀ {s : Stage} {f : Nat → Conduit Address}, w.Shift w' a k s f →
      (∀ result, k.stage ≠ .reported result) → (∀ result, s ≠ .reported result) →
      w'.Hearing r := fun hsh => h.restage hk hsh.workers hsh.runs hsh.cancelled
  cases hst with
  | linedUp stage alive empty new hsh => exact shift hsh (by simp [stage]) (by simp [stage])
  | took stage alive permit pop hsh =>
    exact shift hsh (by simp [stage]) (Node.gather_ne_reported _ _ _)
  | entered stage new entry => exact h.entered ht ha hk stage entry
  | told stage told => exact h.told ha hk stage told
  | foundNothing stage _ _ hsh => exact shift hsh (by simp [stage]) (by simp)
  | gaveUp stage _ hsh => exact shift hsh (by simp [stage]) (by simp)
  | called stage _ hsh => exact shift hsh (by simp [stage]) (by simp)
  | crashed stage _ hsh => exact shift hsh (by simp [stage]) (by simp)
  | refused stage _ hsh => exact shift hsh (by simp [stage]) (by simp)
  | innerFailed stage _ _ hsh => exact shift hsh (by simp [stage]) (by simp)
  | left stage _ _ _ hsh => exact shift hsh (by simp [stage]) (by simp)
  | missed stage _ _ _ hsh => exact shift hsh (by simp [stage]) (by simp)
  | checked stage _ hsh => exact shift hsh (by simp [stage]) (by simp)
  | rejected stage _ hsh => exact shift hsh (by simp [stage]) (by simp)
  | sent stage _ hsh => exact shift hsh (by simp [stage]) (by simp)
  | unsent stage _ hsh => exact shift hsh (by simp [stage]) (by simp)
  | finished stage hsh => exact shift hsh (by simp [stage]) (by simp)

/-- The receiver of the run at `b` has gone on, so that the run is now `run'`. -/
lemma Hearing.turned (h : w.Hearing r) {run' : Run} (hx : w.cancelled ⊆ w'.cancelled)
    (ht : w.Turned w' b run') (hb : w'.Hears b run') : w'.Hearing r := by
  intro x run₀ hx' hrun
  by_cases hxb : x = b
  · subst hxb
    rw [ht.runs, update_same] at hrun
    exact Option.some.inj hrun ▸ hb
  · rw [ht.runs, update_of_ne hxb] at hrun
    exact (h x run₀ hx' hrun).same hx fun i => by rw [ht.workers]

lemma Hearing.collected (h : w.Hearing r) (hb : r <:+ b) (hc : w.Collected w' b) :
    w'.Hearing r := by
  cases hc with
  | @success run completed failure o rest running collector mailbox result turned cancelled =>
    have hold := h b _ hb running
    have failed : ∀ completed',
        ({ run with mailbox := rest, collector := .waiting completed' failure } : Run).Failed →
        run.Failed := fun _ hf => by simpa [Run.Failed, collector] using hf
    refine h.turned (cancelled ▸ List.Subset.refl _) turned ⟨by simp, ?_, ?_, ?_⟩
    · intro i k e hk hs
      rw [turned.workers] at hk
      rcases hold.errors i k e hk hs with hf | ⟨o', ho', hne⟩
      · exact .inl (by simpa [Run.Failed, collector] using hf)
      · rw [mailbox] at ho'
        rcases List.mem_cons.1 ho' with rfl | ho'
        · exact absurd result hne
        · exact .inr ⟨o', ho', hne⟩
    · intro hf hff
      exact isCancelled_mono (cancelled ▸ List.Subset.refl _) List.suffix_rfl
        (hold.cancels (failed _ hf) hff)
    · rintro ⟨_, ho⟩
      cases ho
  | @failure run completed failure o rest e first running collector mailbox result kept turned
      cancelled =>
    have hold := h b _ hb running
    have hsub : w.cancelled ⊆ w'.cancelled := by
      rcases cancelled with ⟨hx, -⟩ | hx
      · exact hx ▸ List.Subset.refl _
      · exact hx ▸ List.subset_append_left _ _
    refine h.turned hsub turned ⟨by simp, fun _ _ _ _ _ => .inl (.inl ⟨_, _, rfl⟩), ?_, ?_⟩
    · intro _ hff
      rcases cancelled with ⟨-, hx⟩ | hx
      · refine isCancelled_mono hsub List.suffix_rfl ?_
        cases failure with
        | none => exact hx rfl hff
        | some e' => exact hold.cancels (.inl ⟨_, _, collector⟩) hff
      · exact isCancelled_eq_true.2 ⟨run.token, by simp [hx], List.suffix_rfl⟩
    · rintro ⟨_, ho⟩
      cases ho

/-- A worker of a run that stands in the tree has reported if all have. -/
lemma reported_of_allReported (ht : w.Tree r p) (hb : r <:+ b) (hrun : w.runs b = some run)
    (hall : w.allReported b run = true) {i : Nat} (hk : w.workers (i :: b) = some k) :
    ∃ result, k.stage = .reported result := by
  obtain ⟨run', hrun', hpost⟩ := ht.posted b i k hb hk
  obtain rfl := Option.some.inj (hrun.symm.trans hrun')
  have hi : i < run.pipeline.nodes.length := (List.getElem?_eq_some_iff.1 hpost.node).1
  have := List.all_eq_true.1 hall i (List.mem_range.2 hi)
  unfold hasReported at this
  rw [hk] at this
  cases hs : k.stage with
  | reported result => exact ⟨result, rfl⟩
  | _ => simp [hs] at this

lemma Hearing.concluded (h : w.Hearing r) (ht : w.Tree r p) (hb : r <:+ b)
    {completed : List String} {failure : Option ExecutionError}
    (hc : w.Concluded w' b run completed failure) : w'.Hearing r := by
  have hold := h b run hb hc.running
  have hsub : w.cancelled ⊆ w'.cancelled := hc.cancelled ▸ List.Subset.refl _
  have failed : failure ≠ none ↔ run.Failed := by
    cases failure <;> simp [Run.Failed, hc.collector]
  refine h.turned hsub hc.turned ⟨by simp, ?_, ?_, fun _ => ⟨hc.mailbox, ?_⟩⟩
  · intro i k e hk hs
    rw [hc.turned.workers] at hk
    rcases hold.errors i k e hk hs with hf | ho
    · refine .inl (.inr ?_)
      cases failure with
      | none => exact absurd rfl (failed.2 hf)
      | some e' => exact ⟨e', rfl⟩
    · exact .inr ho
  · intro hf hff
    refine isCancelled_mono hsub List.suffix_rfl (hold.cancels (failed.1 ?_) hff)
    rintro rfl
    simp [Run.Failed] at hf
  · intro i k hk
    rw [hc.turned.workers] at hk
    exact reported_of_allReported ht hb hc.running hc.reported hk

theorem Hearing.step (h : w.Hearing r) (ht : w.Tree r p) {m : Move} (hm : m.Of r)
    (hs : w.step? m = some w') : w'.Hearing r := by
  cases m with
  | work a =>
    obtain ⟨k, hk, hst⟩ := stride_of_work? hs
    exact h.stride ht hm hk hst
  | expire a =>
    obtain ⟨k, hk, hst⟩ := stride_of_work? hs
    exact h.stride ht hm hk hst
  | collect b => exact h.collected hm (collected_of_collect? hs)
  | conclude b =>
    obtain ⟨run, completed, failure, hc⟩ := concluded_of_conclude? hs
    exact h.concluded ht hm hc
  | cancel t => exact hm.elim

lemma Hearing.await (h : w.Hearing r) : (w.await r).Hearing r := by
  obtain ⟨hw, -, -, hx, -⟩ := await_others w r
  have hsub : w.cancelled ⊆ (w.await r).cancelled := hx ▸ List.Subset.refl _
  intro b run hb hrun
  rw [runs_await] at hrun
  split at hrun
  · obtain ⟨run₀, hr, rfl⟩ := Option.map_eq_some_iff.1 hrun
    have hold := (h b run₀ hb hr).same hsub fun i => by rw [hw]
    obtain ⟨hp, htok, hmail⟩ := attended_others run₀
    refine ⟨?_, fun i k e hk hs => ?_, fun hf hff => ?_, fun ho => ?_⟩
    · have := hold.kept
      unfold Run.attended
      split
      · simp
      · exact this
    · rw [failed_attended, hmail]
      exact hold.errors i k e hk hs
    · rw [htok]
      exact hold.cancels (failed_attended.1 hf) (hp ▸ hff)
    · rw [hmail]
      exact hold.closed (over_attended.1 ho)
  · exact (h b run hb hrun).same hsub fun i => by rw [hw]

lemma Hearing.outside (h : w.Hearing r) (ho : w.Outside r w') : w'.Hearing r :=
  fun b run hb hrun => (h b run hb (ho.runs b hb ▸ hrun)).same ho.cancelled
    fun _ => ho.workers _ (below_cons.2 hb)

lemma hearing_of_launched {initial : Payload} {token : Token} (hv : w.Vacant r)
    (hl : w.Launched w' r p initial token) : w'.Hearing r := by
  intro b run hb hrun
  by_cases hbr : b = r
  · subst hbr
    obtain rfl := Option.some.inj (hl.run_self.symm.trans hrun)
    refine ⟨by simp, fun i k e hk hs => ?_, by simp [Run.Failed], by simp [Run.Over]⟩
    rw [hl.worker_new hv] at hk
    obtain ⟨n, -, rfl⟩ := Option.map_eq_some_iff.1 hk
    exact absurd hs (Node.gather_ne_reported _ _ _ _)
  · rw [hl.run_old hv hb hbr] at hrun
    cases hrun

end World

end Dataflow
