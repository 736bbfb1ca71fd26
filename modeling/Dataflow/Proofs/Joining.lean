import Dataflow.Proofs.Scope
import Dataflow.Proofs.Verdict

/-!
Waiting for a run. Each worker that has ended is heard once, and what the wait returns is decided
by the outcomes in the order in which they arrived: the names of the nodes if all succeeded, and
otherwise the first error, which no later one replaces.

Main statement: at all times a wait that has returned has heard of every worker, one that has heard
of every worker has only its mailbox left to look through, and it returns what they have told it
(`wait_reports_faithfully`).
-/

namespace Dataflow

/-- What the worker has told its run. -/
def Worker.report? (k : Worker) : Option Outcome :=
  match k.stage with
  | .reported result => some ⟨k.node.name, result⟩
  | _ => none

lemma Worker.report?_eq_some {k : Worker} {o : Outcome} :
    k.report? = some o ↔ k.stage = .reported o.result ∧ o.node = k.node.name := by
  unfold report?
  cases hs : k.stage with
  | reported result =>
    obtain ⟨node, result'⟩ := o
    simp [eq_comm, and_comm]
  | _ => simp

lemma Worker.report?_eq_none {k : Worker} (h : ∀ result, k.stage ≠ .reported result) :
    k.report? = none := by
  unfold report?
  split
  · next result hs => exact absurd hs (h result)
  · rfl

lemma Worker.report?_new (n : Node) (token : Token) (limit : Option Duration) :
    (new n token limit).report? = none :=
  report?_eq_none fun _ => Node.gather_ne_reported _ _ _ _

/-! ### Verdicts -/

section

variable {os : List Outcome} {e : ExecutionError} {q : Pipeline} {report : Report}

lemma Outcome.error?_eq_none {o : Outcome} : o.error? = none ↔ o.result = .ok () := by
  unfold error?
  cases o.result <;> simp

lemma Outcome.error?_eq_some {o : Outcome} : o.error? = some e ↔ o.result = .error e := by
  unfold error?
  cases o.result <;> simp

lemma firstFailure_eq_none : firstFailure os = none ↔ ∀ o ∈ os, o.result = .ok () := by
  simp only [firstFailure, List.findSome?_eq_none_iff, Outcome.error?_eq_none]

lemma firstFailure_eq_some : firstFailure os = some e ↔ ∃ pre o post, os = pre ++ o :: post ∧
    (∀ o' ∈ pre, o'.result = .ok ()) ∧ o.result = .error e := by
  rw [firstFailure, List.findSome?_eq_some_iff]
  constructor
  · rintro ⟨pre, o, post, rfl, ho, hpre⟩
    exact ⟨pre, o, post, rfl, fun o' ho' => Outcome.error?_eq_none.1 (hpre o' ho'),
      Outcome.error?_eq_some.1 ho⟩
  · rintro ⟨pre, o, post, rfl, hpre, ho⟩
    exact ⟨pre, o, post, rfl, Outcome.error?_eq_some.2 ho,
      fun o' ho' => Outcome.error?_eq_none.2 (hpre o' ho')⟩

/-- Where nothing failed, everything was completed. -/
lemma successes_of_ok (h : ∀ o ∈ os, o.result = .ok ()) : successes os = os.map (·.node) := by
  have hall : (os.filter fun o => o.error?.isNone) = os :=
    List.filter_eq_self.2 fun o ho => by simp [Outcome.error?_eq_none.2 (h o ho)]
  rw [successes, hall]

lemma verdict_eq_ok : verdict q os = .ok report ↔
    (∀ o ∈ os, o.result = .ok ()) ∧ report = ⟨q.name, os.map (·.node)⟩ := by
  unfold verdict
  cases hf : firstFailure os with
  | none =>
    have hall := firstFailure_eq_none.1 hf
    rw [Option.elim_none, Except.ok.injEq, successes_of_ok hall, eq_comm]
    exact ⟨fun h => ⟨hall, h⟩, And.right⟩
  | some e =>
    have hsome : ¬ ∀ o ∈ os, o.result = .ok () := fun hall => by
      rw [firstFailure_eq_none.2 hall] at hf
      cases hf
    simp [hsome]

lemma verdict_eq_error : verdict q os = .error e ↔ firstFailure os = some e := by
  unfold verdict
  cases firstFailure os <;> simp

end

/-! ### What logic answers -/

/-- The error that a worker for `n` ends with if its logic gives no result. -/
def Reply.error? (n : Node) : Reply → Option ExecutionError
  | .returned _ => none
  | .failed f => some (.logic n.name f)
  | .panicked x => some (.workerPanicked n.name x.message)

/-- Only a call of logic leads to such an error. -/
def ExecutionError.isCrash : ExecutionError → Bool
  | logic _ _ => true
  | workerPanicked _ _ => true
  | _ => false

/-- A worker for `n` that was given these replies may end so. -/
structure Node.Answers (n : Node) (called : List (Payload × Reply))
    (result : Except ExecutionError Unit) : Prop where
  crashed : ∀ c ∈ called, ∀ e, c.2.error? n = some e → result = .error e
  called : ∀ e, result = .error e → e.isCrash = true → ∃ c ∈ called, c.2.error? n = some e

/-- The worker has been given these replies, and has come to this stage with them. -/
def Worker.Answers (k : Worker) (called : List (Payload × Reply)) : Prop :=
  match k.stage with
  | .checking _ => ∀ c ∈ called, c.2.error? k.node = none
  | .sending _ _ => ∀ c ∈ called, c.2.error? k.node = none
  | .ended result => k.node.Answers called result
  | .reported result => k.node.Answers called result
  | _ => called = []

/-- Whoever has got on without an error of its logic ends in another way. -/
lemma Node.answers_of_none {n : Node} {called : List (Payload × Reply)}
    {result : Except ExecutionError Unit} (h : ∀ c ∈ called, c.2.error? n = none)
    (hresult : ∀ e, result = .error e → e.isCrash = false) : n.Answers called result where
  crashed c hc e he := by
    rw [h c hc] at he
    cases he
  called e he hcrash := by
    rw [hresult e he] at hcrash
    cases hcrash

lemma Worker.answers_new (n : Node) (token : Token) (limit : Option Duration) :
    (new n token limit).Answers [] := by
  rcases n.gather_cases .empty n.inputs with
    ⟨c, cs, -, hg⟩ | ⟨-, ⟨logic, -, hg⟩ | ⟨inner, -, hg⟩⟩ <;>
    simp only [Answers, new, hg]

namespace World

variable {w w₁ w' v u : World} {r a b : Address} {p : Pipeline} {k : Worker} {run run' : Run}
  {ds es : List Deed} {seeds : Payload} {token : Token} {ms : List Move} {i : Nat}

/-- What the worker at the address has told its run. -/
def report? (v : World) (a : Address) : Option Outcome := (v.workers a).bind Worker.report?

/-! ### Every worker is heard once -/

/-- A step that is no report leaves everybody's reports what they were. -/
lemma report?_of_stride {expired : Bool} (ht : v.Tree r p) (ha : Below r a)
    (hk : v.workers a = some k) (hst : v.Stride u a k expired)
    (hno : ∀ result, k.stage ≠ .ended result) (x : Address) : u.report? x = v.report? x := by
  by_cases hx : x = a
  · subst hx
    have hold : ∀ {s}, k.stage = s → (∀ result, s ≠ .reported result) → v.report? x = none :=
      fun hs hne => by
        rw [report?, hk, Option.bind_some, Worker.report?_eq_none (hs ▸ hne)]
    rcases hst.kinds with ⟨_, _, _, hs, he⟩ | ⟨result, hs, -⟩ | ⟨s, f, hsh, hne, hne'⟩
    · rw [hold hs (by simp), report?, he.worker_self, Option.bind_some]
      exact Worker.report?_eq_none (by simp)
    · exact absurd hs (hno result)
    · rw [hold rfl hne, report?, hsh.workers, update_same, Option.bind_some]
      exact Worker.report?_eq_none hne'
  · rcases ht.worker_of_ne ha hk hst hx with hw | ⟨hnone, n, t, limit, hw⟩
    · rw [report?, hw, report?]
    · rw [report?, hw, report?, hnone, Option.bind_some, Option.bind_none, Worker.report?_new]

lemma report?_of_told {result : Except ExecutionError Unit} (ht : v.Told u a k result)
    (x : Address) : u.report? x = if x = a then some ⟨k.node.name, result⟩ else v.report? x := by
  rw [report?, ht.workers]
  by_cases hx : x = a
  · rw [if_pos hx, hx, update_same]
    rfl
  · rw [if_neg hx, update_of_ne hx, report?]

/-- One more of the numbers below `n` has a value. -/
lemma filterMap_range_perm {β : Type} {n j : Nat} {f g : Nat → Option β} {y : β} (hj : j < n)
    (hf : f j = none) (hg : g j = some y) (hother : ∀ i, i ≠ j → g i = f i) :
    ((List.range n).filterMap f ++ [y]).Perm ((List.range n).filterMap g) := by
  obtain ⟨pre, post, hsplit⟩ := List.append_of_mem (List.mem_range.2 hj)
  have hnd : (pre ++ j :: post).Nodup := hsplit ▸ List.nodup_range
  have hj' : ∀ i ∈ pre ++ post, i ≠ j := by
    have := (List.perm_middle.nodup_iff.1 hnd)
    rintro i hi rfl
    exact (List.nodup_cons.1 this).1 hi
  have hsame : ∀ l : List Nat, (∀ i ∈ l, i ≠ j) → l.filterMap g = l.filterMap f := fun l hl =>
    List.filterMap_congr fun i hi => hother i (hl i hi)
  rw [hsplit, List.filterMap_append, List.filterMap_append, List.filterMap_cons_none hf,
    List.filterMap_cons_some hg, hsame pre fun i hi => hj' i (List.mem_append_left _ hi),
    hsame post fun i hi => hj' i (List.mem_append_right _ hi)]
  exact (List.perm_append_singleton _ _).trans List.perm_middle.symm

lemma filterMap_range_getElem? {β : Type} (l : List β) :
    (List.range l.length).filterMap (fun i => l[i]?) = l := by
  induction l using List.reverseRecOn with
  | nil => rfl
  | append_singleton l x ih =>
    have hinit : ∀ i ∈ List.range l.length, (l ++ [x])[i]? = l[i]? := fun i hi =>
      List.getElem?_append_left (List.mem_range.1 hi)
    rw [List.length_append, List.length_singleton, List.range_succ, List.filterMap_append,
      List.filterMap_congr hinit, ih, List.filterMap_cons_some List.getElem?_concat_length,
      List.filterMap_nil]

/-- The outcomes that have arrived at a run are those that its workers have told. -/
def Counted (v : World) (r : Address) (ds : List Deed) : Prop :=
  ∀ b run, r <:+ b → v.runs b = some run → (outcomes run.pipeline b ds).Perm
    ((List.range run.pipeline.nodes.length).filterMap fun i => v.report? (i :: b))

lemma Counted.same (h : v.Counted r ds) (hno : ∀ b result, .told b result ∉ es)
    (hruns : ∀ b run', r <:+ b → u.runs b = some run' →
      ∃ run, v.runs b = some run ∧ run'.pipeline = run.pipeline)
    (hreport : ∀ i b, r <:+ b → u.report? (i :: b) = v.report? (i :: b)) :
    u.Counted r (ds ++ es) := by
  intro b run' hb hrun'
  obtain ⟨run, hrun, hp⟩ := hruns b run' hb hrun'
  rw [outcomes_append, outcomes_of_untold hno, List.append_nil, hp]
  simpa only [hreport _ b hb] using h b run hb hrun

lemma Counted.still (h : v.Counted r ds)
    (hruns : ∀ b run', r <:+ b → u.runs b = some run' →
      ∃ run, v.runs b = some run ∧ run'.pipeline = run.pipeline)
    (hreport : ∀ i b, r <:+ b → u.report? (i :: b) = v.report? (i :: b)) : u.Counted r ds := by
  have hsame : u.Counted r (ds ++ []) := h.same (by simp) hruns hreport
  rwa [List.append_nil] at hsame

lemma Counted.told (h : v.Counted r ds) (ht : v.Tree r p) (ha : Below r a)
    (hk : v.workers a = some k) {result : Except ExecutionError Unit}
    (hs : k.stage = .ended result) (htold : v.Told u a k result) :
    u.Counted r (ds ++ [.told a result]) := by
  cases a with
  | nil => exact ha.elim
  | cons j c =>
  obtain ⟨run₀, hrun₀, hpost⟩ := ht.posted c j k ha hk
  intro b run' hb hrun'
  rw [htold.runs, List.tail_cons, hrun₀, Option.elim_some] at hrun'
  rw [outcomes_append]
  by_cases hbc : b = c
  · subst hbc
    rw [update_same] at hrun'
    obtain rfl := Option.some.inj hrun'
    rw [(later_delivered run₀ _).pipeline, outcomes_told hpost.node]
    have hold : v.report? (j :: b) = none := by
      rw [report?, hk, Option.bind_some, Worker.report?_eq_none (by simp [hs])]
    refine ((h b run₀ hb hrun₀).append_right _).trans ?_
    refine filterMap_range_perm (List.getElem?_eq_some_iff.1 hpost.node).1 hold ?_ fun i hi => ?_
    · rw [report?_of_told htold, if_pos rfl]
    · rw [report?_of_told htold, if_neg (by simpa using hi)]
  · rw [update_of_ne hbc] at hrun'
    rw [outcomes_of_ne (Ne.symm hbc), List.append_nil]
    have hother : ∀ i, u.report? (i :: b) = v.report? (i :: b) := fun i => by
      rw [report?_of_told htold, if_neg fun heq => hbc (List.cons.inj heq).2]
    simpa only [hother] using h b run' hb hrun'

lemma Counted.work (h : v.Counted r ds) (hc : v.Course r p) (htally : v.Tally r ds)
    (ha : Below r a) {expired : Bool} (hs : v.work? a expired = some u) :
    u.Counted r (ds ++ v.workDeeds a expired) := by
  obtain ⟨k, hk, hst⟩ := stride_of_work? hs
  have hdo := doing_of_work? hk hs
  rcases hdo.untold with ⟨result, hstage, hes, ht⟩ | hno
  · rw [hes]
    exact h.told hc.tree ha hk hstage ht
  · have hopen : ∀ result, k.stage ≠ .ended result := fun result hstage =>
      hno a result (by simp [workDeeds, hk, workerDeeds, hstage])
    have hreport := report?_of_stride hc.tree ha hk hst hopen
    rcases hdo.runs hno with hruns | ⟨inner, inputs, id, hstage, he⟩
    · exact h.same hno (fun b run' _ hrun' => ⟨run', hruns ▸ hrun', rfl⟩)
        fun i b _ => hreport (i :: b)
    · intro b run' hb hrun'
      rw [outcomes_append, outcomes_of_untold hno, List.append_nil]
      simp only [hreport]
      by_cases hba : b = a
      · -- nobody has told a run that is new anything
        subst hba
        have hnone := hc.tree.runs_of_entering ha hk hstage
        have hempty := hc.tree.workers_of_runs_none hb hnone
        have hsilent : ∀ i, v.report? (i :: b) = none := fun i => by rw [report?, hempty i]; rfl
        rw [htally.outcomes_eq_nil hb hnone]
        simp [hsilent]
      · rw [he.run_old hba] at hrun'
        exact h b run' hb hrun'

lemma Counted.turned (h : v.Counted r ds) (hrun : v.runs b = some run) (ht : v.Turned u b run')
    (hp : run'.pipeline = run.pipeline) : u.Counted r ds := by
  refine h.still (fun x run₁ _ hrun₁ => ?_) fun i x _ => by rw [report?, ht.workers, report?]
  rw [ht.runs] at hrun₁
  by_cases hxb : x = b
  · rw [hxb, update_same] at hrun₁
    exact ⟨run, hxb ▸ hrun, Option.some.inj hrun₁ ▸ hp⟩
  · rw [update_of_ne hxb] at hrun₁
    exact ⟨run₁, hrun₁, rfl⟩

lemma Counted.step (h : v.Counted r ds) (hc : v.Course r p) (htally : v.Tally r ds) {m : Move}
    (hm : m.Of r) (hs : v.step? m = some u) : u.Counted r (ds ++ v.deeds m) := by
  cases m with
  | work a => exact h.work hc htally hm hs
  | expire a => exact h.work hc htally hm hs
  | collect b =>
    rw [show v.deeds (.collect b) = [] from rfl, List.append_nil]
    cases collected_of_collect? hs with
    | success running _ _ _ turned => exact h.turned running turned rfl
    | failure running _ _ _ _ turned => exact h.turned running turned rfl
  | conclude b =>
    obtain ⟨_, _, _, hcon⟩ := concluded_of_conclude? hs
    rw [show v.deeds (.conclude b) = [] from rfl, List.append_nil]
    exact h.turned hcon.running hcon.turned rfl
  | cancel t => exact hm.elim

lemma Counted.await (h : v.Counted r ds) : (v.await r).Counted r ds := by
  obtain ⟨hw, -⟩ := await_others v r
  refine h.still (fun b run' _ hrun' => ?_) fun i b _ => by rw [report?, hw, report?]
  rw [runs_await] at hrun'
  split at hrun'
  · obtain ⟨run, hrun, rfl⟩ := Option.map_eq_some_iff.1 hrun'
    exact ⟨run, hrun, (attended_others run).1⟩
  · exact ⟨run', hrun', rfl⟩

lemma counted_of_chronicle {runtime : Bool} (hv : w.Vacant r) (ho : ∀ x, (w.conduits x).Orderly)
    (hstart : w.start r p seeds token runtime = .ok w₁)
    (h : w₁.Chronicle r (Outside r) ms ds v) : v.Counted r ds := by
  induction h with
  | start =>
    obtain ⟨-, -, hl⟩ := start_eq_ok hstart
    intro b run hb hrun
    have hsilent : ∀ i, w₁.report? (i :: b) = none := fun i => by
      cases hk : w₁.workers (i :: b) with
      | none => rw [report?, hk]; rfl
      | some k =>
        rw [report?, hk, Option.bind_some]
        exact Worker.report?_eq_none fun result hs =>
          open_of_launched hv hl (below_cons.2 hb) hk (.inr hs)
    simp [hsilent, outcomes]
  | move before own step ih =>
    exact ih.step (course_of_plays hv ho hstart (fun _ _ h => h) before.plays)
      (tally_of_chronicle hv ho hstart before) own step
  | await _ ih => exact ih.await
  | others _ act ih =>
    exact ih.still (fun b run' hb hrun' => ⟨run', act.runs b hb ▸ hrun', rfl⟩) fun i b hb => by
      rw [report?, act.workers _ (below_cons.2 hb), report?]

/-! ### The way to the end of a wait -/

/-- As long as there is an outcome in the mailbox, the receiver can look at it. -/
lemma exists_collected {o : Outcome} {rest seen : List Outcome} (hrun : v.runs b = some run)
    (hcol : run.collector = .waiting (successes seen) (firstFailure seen))
    (hmail : run.mailbox = o :: rest) : ∃ u, v.step? (.collect b) = some u ∧
      u.workers = v.workers ∧ u.runs b = some { run with
        mailbox := rest,
        collector := .waiting (successes (seen ++ [o])) (firstFailure (seen ++ [o])) } := by
  obtain ⟨u, hu⟩ : ∃ u, v.collect? b = some u := by
    simp only [collect?, hrun, hcol, hmail]
    cases o.result <;> exact ⟨_, rfl⟩
  refine ⟨u, hu, ?_⟩
  cases collected_of_collect? hu with
  | success running collector mailbox result turned =>
    obtain rfl := Option.some.inj (hrun.symm.trans running)
    obtain ⟨rfl, rfl⟩ := Collector.waiting.inj (hcol.symm.trans collector)
    obtain ⟨rfl, rfl⟩ := List.cons.inj (hmail.symm.trans mailbox)
    rw [successes_append_ok result, firstFailure_append_ok result]
    exact ⟨turned.workers, by rw [turned.runs, update_same]⟩
  | failure running collector mailbox result kept turned =>
    obtain rfl := Option.some.inj (hrun.symm.trans running)
    obtain ⟨rfl, rfl⟩ := Collector.waiting.inj (hcol.symm.trans collector)
    obtain ⟨rfl, rfl⟩ := List.cons.inj (hmail.symm.trans mailbox)
    rw [successes_append_error result, firstFailure_append_error result, ← kept]
    exact ⟨turned.workers, by rw [turned.runs, update_same]⟩

/-- If all workers have reported, the receiver has only its mailbox left to look through. -/
lemma exists_concluded {seen : List Outcome} (hrun : v.runs b = some run)
    (hcol : run.collector = .waiting (successes seen) (firstFailure seen))
    (hall : v.allReported b run = true) : ∃ u run',
      v.steps (List.replicate run.mailbox.length (.collect b) ++ [.conclude b]) = some u ∧
        u.runs b = some run' ∧
        run'.collector = .returned (verdict run.pipeline (seen ++ run.mailbox)) := by
  induction hmail : run.mailbox generalizing v run seen with
  | nil =>
    obtain ⟨u, hu⟩ : ∃ u, v.conclude? b = some u := by
      simp only [conclude?, hrun, hcol, hmail, hall, if_true]
      cases firstFailure seen <;> exact ⟨_, rfl⟩
    obtain ⟨_, _, _, hcon⟩ := concluded_of_conclude? hu
    obtain rfl := Option.some.inj (hrun.symm.trans hcon.running)
    obtain ⟨rfl, rfl⟩ := Collector.waiting.inj (hcol.symm.trans hcon.collector)
    refine ⟨u, _, by simp [steps, step?, hu], by rw [hcon.turned.runs, update_same], ?_⟩
    rw [List.append_nil]
    rfl
  | cons o rest ih =>
    obtain ⟨v', hv', hworkers, hrun'⟩ := exists_collected hrun hcol hmail
    have hall' : v'.allReported b { run with
        mailbox := rest,
        collector := .waiting (successes (seen ++ [o])) (firstFailure (seen ++ [o])) } = true := by
      simpa only [allReported, hasReported, hworkers] using hall
    obtain ⟨u, run', hsteps, hu, hret⟩ := ih hrun' rfl hall' rfl
    refine ⟨u, run', ?_, hu, by simpa using hret⟩
    rw [List.length_cons, List.replicate_succ, List.cons_append, steps, hv']
    exact hsteps

/-! ### What is reported is what happened -/

/-- The stage in which a worker is after a call. -/
lemma stage_of_call (k : Worker) {logic : Logic} {inputs : Payload} {reply : Reply}
    (hreply : (logic.act w.calls inputs).reply = reply) : ∃ s,
      (w.callStep a k logic inputs).workers a = some { k with stage := s } ∧
        (∀ e, reply.error? k.node = some e → s = .ended (.error e)) ∧
        (reply.error? k.node = none → ∃ produced, s = .checking produced) := by
  unfold callStep
  cases reply with
  | returned outputs =>
    simp only [hreply]
    exact ⟨_, update_same _ _ _, fun e he => by simp [Reply.error?] at he, fun _ => ⟨_, rfl⟩⟩
  | failed f =>
    simp only [hreply]
    exact ⟨_, update_same _ _ _, fun e he => by rw [Option.some.inj he], fun h => by cases h⟩
  | panicked x =>
    simp only [hreply]
    exact ⟨_, update_same _ _ _, fun e he => by rw [Option.some.inj he], fun h => by cases h⟩

/-- Only a step from the stage in which logic is called adds a call to the diary. -/
lemma called_of_doing (hdo : v.Doing u a k es)
    (hs : ∀ logic inputs, k.stage ≠ .calling logic inputs) : (diary es a).called = [] := by
  cases hdo with
  | took => rw [diary_took]
  | called stage => exact absurd stage (hs _ _)
  | crashed stage => exact absurd stage (hs _ _)
  | entered => rw [diary_entered]
  | left => rw [diary_append, diary_gained, diary_left]; rfl
  | missed => rw [diary_gained]
  | sent => rw [diary_sent]
  | told => rw [diary_told]
  | _ => rfl

/-- A call is answered by what comes of it. -/
lemma answers_of_call {logic : Logic} {inputs : Payload} {expired : Bool}
    (hk : v.workers a = some k) (stage : k.stage = .calling logic inputs)
    (hs : v.work? a expired = some u) : ∃ s, u.workers a = some { k with stage := s } ∧
      ({ k with stage := s } : Worker).Answers (diary (v.workDeeds a expired) a).called := by
  have hstep : v.callStep a k logic inputs = u := by simpa [work?, hk, stage] using hs
  obtain ⟨s, hs', herror, hnone⟩ := stage_of_call (w := v) (a := a) k
    (rfl : (logic.act v.calls inputs).reply = _)
  have hdeeds : (diary (v.workDeeds a expired) a).called =
      [(inputs, (logic.act v.calls inputs).reply)] := by
    simp [workDeeds, hk, workerDeeds, stage, diary, Deed.called?]
  refine ⟨s, hstep ▸ hs', ?_⟩
  rw [hdeeds]
  cases hreply : (logic.act v.calls inputs).reply.error? k.node with
  | none =>
    obtain ⟨produced, rfl⟩ := hnone hreply
    exact fun c hc => List.mem_singleton.1 hc ▸ hreply
  | some e =>
    obtain rfl := herror e hreply
    refine ⟨fun c hc e' he' => ?_, fun e' he' _ => ⟨_, List.mem_singleton_self _, ?_⟩⟩
    · rw [List.mem_singleton.1 hc, hreply] at he'
      rw [Option.some.inj he']
    · rw [hreply, Except.error.inj he']

/-- With each step a worker goes on as its logic has answered. -/
lemma answers_of_work? {called : List (Payload × Reply)} {expired : Bool}
    (h : k.Answers called) (hk : v.workers a = some k) (hs : v.work? a expired = some u) :
    ∃ s, u.workers a = some { k with stage := s } ∧
      ({ k with stage := s } : Worker).Answers
        (called ++ (diary (v.workDeeds a expired) a).called) := by
  have hst := stride_of_worker hk hs
  have hnone := called_of_doing (doing_of_work? hk hs)
  have shift : ∀ {s f}, v.Shift u a k s f → (∀ logic inputs, k.stage ≠ .calling logic inputs) →
      ({ k with stage := s } : Worker).Answers called → ∃ s, u.workers a =
        some { k with stage := s } ∧ ({ k with stage := s } : Worker).Answers
          (called ++ (diary (v.workDeeds a expired) a).called) := fun hsh hcall hans =>
    ⟨_, by rw [hsh.workers, update_same], by rwa [hnone hcall, List.append_nil]⟩
  -- an error that is not of the logic, before and after the call
  have early : ∀ {e : ExecutionError}, called = [] → e.isCrash = false →
      k.node.Answers called (.error e) := fun hnil he =>
    Node.answers_of_none (by simp [hnil]) fun e' he' => Except.error.inj he' ▸ he
  have late : ∀ {result}, (∀ c ∈ called, c.2.error? k.node = none) →
      (∀ e, result = .error e → e.isCrash = false) → k.node.Answers called result :=
    Node.answers_of_none
  have call : ∀ {logic inputs}, k.stage = .calling logic inputs → called = [] →
      ∃ s, u.workers a = some { k with stage := s } ∧ ({ k with stage := s } : Worker).Answers
        (called ++ (diary (v.workDeeds a expired) a).called) := fun stage hnil => by
    rw [hnil, List.nil_append]
    exact answers_of_call hk stage hs
  unfold Worker.Answers at h
  cases hst with
  | linedUp stage _ _ _ hsh =>
    refine shift hsh (by simp [stage]) ?_
    rw [stage] at h ⊢
    exact h
  | took stage _ _ _ hsh =>
    rw [stage] at h
    refine shift hsh (by simp [stage]) ?_
    rcases k.node.gather_cases (Payload.insert _ _ _) _ with
      ⟨c, cs, -, hg⟩ | ⟨-, ⟨logic, -, hg⟩ | ⟨inner, -, hg⟩⟩ <;> rw [hg] <;> exact h
  | foundNothing stage _ _ hsh =>
    rw [stage] at h
    exact shift hsh (by simp [stage]) (early h rfl)
  | gaveUp stage _ hsh =>
    rw [stage] at h
    exact shift hsh (by simp [stage]) (early h rfl)
  | called stage reply hsh =>
    rw [stage] at h
    exact call stage h
  | crashed stage reply hsh =>
    rw [stage] at h
    exact call stage h
  | entered stage new entry =>
    rw [stage] at h
    refine ⟨_, entry.worker_self, ?_⟩
    rw [hnone (by simp [stage]), List.append_nil]
    exact h
  | refused stage _ hsh =>
    rw [stage] at h
    exact shift hsh (by simp [stage]) (early h rfl)
  | innerFailed stage _ _ hsh =>
    rw [stage] at h
    exact shift hsh (by simp [stage]) (early h rfl)
  | left stage _ _ _ hsh =>
    rw [stage] at h
    exact shift hsh (by simp [stage]) fun c hc => by simp [h] at hc
  | missed stage _ _ _ hsh =>
    rw [stage] at h
    exact shift hsh (by simp [stage]) (early h rfl)
  | checked stage _ hsh =>
    rw [stage] at h
    exact shift hsh (by simp [stage]) h
  | rejected stage _ hsh =>
    rw [stage] at h
    exact shift hsh (by simp [stage]) (late h fun e he => Except.error.inj he ▸ rfl)
  | sent stage _ hsh =>
    rw [stage] at h
    exact shift hsh (by simp [stage]) h
  | unsent stage _ hsh =>
    rw [stage] at h
    exact shift hsh (by simp [stage]) (late h fun e he => Except.error.inj he ▸ rfl)
  | finished stage hsh =>
    rw [stage] at h
    exact shift hsh (by simp [stage]) (late h fun e he => by cases he)
  | told stage ht =>
    rw [stage] at h
    refine ⟨_, by rw [ht.workers, update_same], ?_⟩
    rw [hnone (by simp [stage]), List.append_nil]
    exact h

/-- Every worker goes on as its logic has answered; where no worker stands, nothing was called. -/
structure Answering (v : World) (r : Address) (ds : List Deed) : Prop where
  answers : ∀ a k, Below r a → v.workers a = some k → k.Answers (diary ds a).called
  silent : ∀ a, Below r a → v.workers a = none → (diary ds a).called = []

lemma Answering.work (h : v.Answering r ds) (hc : v.Course r p) (ha : Below r a) {expired : Bool}
    (hs : v.work? a expired = some u) : u.Answering r (ds ++ v.workDeeds a expired) := by
  obtain ⟨k, hk, hst⟩ := stride_of_work? hs
  obtain ⟨s, hself, hans⟩ := answers_of_work? (h.answers a k ha hk) hk hs
  have hactor := (doing_of_work? hk hs).actor
  have hother : ∀ x, x ≠ a →
      (diary (ds ++ v.workDeeds a expired) x).called = (diary ds x).called := fun x hx => by
    rw [diary_append, diary_of_actors fun d hd heq => hx (heq.symm.trans (hactor d hd)),
      Diary.append_empty]
  refine ⟨fun x k' hx hk' => ?_, fun x hx hnone => ?_⟩
  · by_cases hxa : x = a
    · subst hxa
      obtain rfl := Option.some.inj (hself.symm.trans hk')
      rw [diary_append]
      exact hans
    · rw [hother x hxa]
      rcases hc.tree.worker_of_ne ha hk hst hxa with hw | ⟨hnone, n, t, limit, hw⟩
      · exact h.answers x k' hx (hw ▸ hk')
      · obtain rfl := Option.some.inj (hw.symm.trans hk')
        rw [h.silent x hx hnone]
        exact Worker.answers_new n t limit
  · have hxa : x ≠ a := by
      rintro rfl
      rw [hself] at hnone
      cases hnone
    rw [hother x hxa]
    rcases hc.tree.worker_of_ne ha hk hst hxa with hw | ⟨-, n, t, limit, hw⟩
    · exact h.silent x hx (hw ▸ hnone)
    · rw [hw] at hnone
      cases hnone

lemma Answering.same (h : v.Answering r ds) (hw : ∀ a, Below r a → u.workers a = v.workers a) :
    u.Answering r ds where
  answers a k ha hk := h.answers a k ha (hw a ha ▸ hk)
  silent a ha hnone := h.silent a ha (hw a ha ▸ hnone)

lemma Answering.step (h : v.Answering r ds) (hc : v.Course r p) {m : Move} (hm : m.Of r)
    (hs : v.step? m = some u) : u.Answering r (ds ++ v.deeds m) := by
  have turned : ∀ {x : Address} {run : Run}, v.Turned u x run → u.Answering r (ds ++ []) :=
    fun ht => by
      rw [List.append_nil]
      exact h.same fun _ _ => by rw [ht.workers]
  cases m with
  | work a => exact h.work hc hm hs
  | expire a => exact h.work hc hm hs
  | collect x =>
    cases collected_of_collect? hs with
    | success _ _ _ _ ht => exact turned ht
    | failure _ _ _ _ _ ht => exact turned ht
  | conclude x =>
    obtain ⟨_, _, _, hcon⟩ := concluded_of_conclude? hs
    exact turned hcon.turned
  | cancel t => exact hm.elim

lemma answering_of_chronicle {runtime : Bool} (hv : w.Vacant r)
    (ho : ∀ x, (w.conduits x).Orderly) (hstart : w.start r p seeds token runtime = .ok w₁)
    (h : w₁.Chronicle r (Outside r) ms ds v) : v.Answering r ds := by
  induction h with
  | start =>
    obtain ⟨-, -, hl⟩ := start_eq_ok hstart
    refine ⟨fun a k ha hk => ?_, fun _ _ _ => rfl⟩
    by_cases hi : ∃ i, a = i :: r
    · obtain ⟨i, rfl⟩ := hi
      rw [hl.worker_new hv] at hk
      obtain ⟨n, -, rfl⟩ := Option.map_eq_some_iff.1 hk
      exact Worker.answers_new _ _ _
    · rw [hl.worker_old hv ha fun i h => hi ⟨i, h⟩] at hk
      cases hk
  | move before own step ih =>
    exact ih.step (course_of_plays hv ho hstart (fun _ _ h => h) before.plays) own step
  | await _ ih => exact ih.same fun _ _ => by rw [(await_others _ r).1]
  | others _ act ih => exact ih.same act.workers

/-- Whoever has ended with a cancellation of its own was cancelled. -/
def Stopped (v : World) (r : Address) : Prop :=
  ∀ a k e, Below r a → v.workers a = some k → k.Ended (.error e) → e.Own k.node.name →
    e.isCancellation = true → v.isCancelled k.token = true

lemma Stopped.onward (h : v.Stopped r) (ht : v.Tree r p) (hu : u.Tree r p) (ho : v.Onward u r)
    (hsub : v.cancelled ⊆ u.cancelled) : u.Stopped r := by
  intro a k' e ha hk' hended hown he
  obtain ⟨k, hk, hnode, hold⟩ := ho.ended a k' e ha hk' hended
  rw [hnode] at hown
  rw [token_eq_of_keeps ht hu ho.runs ha hk hk']
  refine isCancelled_mono hsub List.suffix_rfl ?_
  rcases hold with hold | ⟨-, cause⟩ | ⟨-, -, rfl⟩
  · exact h a k e ha hk hold hown he
  · exact cause he
  · exact hown.elim

lemma stopped_of_plays {runtime : Bool} (hv : w.Vacant r) (ho : ∀ x, (w.conduits x).Orderly)
    (hstart : w.start r p seeds token runtime = .ok w₁) (h : w₁.Plays r (Outside r) ms v) :
    v.Stopped r := by
  have course := fun {ms v} (h : w₁.Plays r (Outside r) ms v) =>
    course_of_plays hv ho hstart (fun _ _ h => h) h
  induction h with
  | start =>
    obtain ⟨-, -, hl⟩ := start_eq_ok hstart
    exact fun a k e ha hk hended => absurd hended (open_of_launched hv hl ha hk)
  | move before own step ih =>
    exact ih.onward (course before).tree (course (.move before own step)).tree
      (onward_of_step (course before).tree own step) (cancelled_step own step)
  | @await ms v before ih =>
    obtain ⟨-, -, -, hx, -⟩ := await_others v r
    exact ih.onward (course before).tree (course before.await).tree (onward_await v r)
      (hx ▸ List.Subset.refl _)
  | others before act ih =>
    exact ih.onward (course before).tree (course (before.others act)).tree act.onward act.cancelled

/-- The first failure that a run has recorded stays the first. -/
lemma failure_of_plays (hc : v.Course r p) (hb : r <:+ b) (hrun : v.runs b = some run)
    {e : ExecutionError} (he : run.failure? = some e) (h : v.Plays r (Outside r) ms u) :
    ∃ run', u.runs b = some run' ∧ run'.failure? = some e := by
  have go : ∀ {x y : World}, x.Onward y r →
      (∃ run', x.runs b = some run' ∧ run'.failure? = some e) →
        ∃ run', y.runs b = some run' ∧ run'.failure? = some e := by
    rintro x y ho ⟨run', hrun', he'⟩
    obtain ⟨run'', hrun'', hkeeps⟩ := ho.runs b run' hb hrun'
    exact ⟨run'', hrun'', hkeeps.failure e he'⟩
  induction h with
  | start => exact ⟨run, hrun, he⟩
  | move before own step ih =>
    exact go (onward_of_step (hc.plays (fun _ _ h => h) before).tree own step) ih
  | await _ ih => exact go (onward_await _ r) ih
  | others _ act ih => exact go act.onward ih

/-! ### The whole of a wait -/

/-- What holds of the wait for the run at `b` at all times, where `os` are the outcomes that have
arrived there so far, in this order. -/
structure Joins (v : World) (r b : Address) (run : Run) (os : List Outcome) : Prop where
  /-- Whoever has ended and said so is heard once. -/
  counted : os.Perm
    ((List.range run.pipeline.nodes.length).filterMap fun i => v.report? (i :: b))
  /-- The wait is over only when all workers have ended. -/
  joined : run.Over → v.allReported b run = true
  /-- When they have, the receiver gets to the end on its own. -/
  due : run.Attended → ¬ run.Over → v.allReported b run = true → ∃ u run',
    v.steps (List.replicate run.mailbox.length (.collect b) ++ [.conclude b]) = some u ∧
      u.runs b = some run' ∧ run'.collector = .returned (verdict run.pipeline os)
  /-- And nothing can keep it from that for ever. -/
  settled : v.Still r → run.Attended → v.allReported b run = true → run.Over
  success : ∀ report, run.collector = .returned (.ok report) ↔
    run.Over ∧ (∀ i k, v.workers (i :: b) = some k → k.stage = .reported (.ok ())) ∧
      report = ⟨run.pipeline.name, os.map (·.node)⟩
  /-- A success lists every node once. -/
  completed : ∀ report, run.collector = .returned (.ok report) →
    report.completed.Perm (run.pipeline.nodes.map (·.name))
  failure : ∀ e, run.collector = .returned (.error e) ↔ run.Over ∧ ∃ pre o post,
    os = pre ++ o :: post ∧ (∀ o' ∈ pre, o'.result = .ok ()) ∧ o.result = .error e
  kept : ∀ e ms u, run.failure? = some e → v.Plays r (Outside r) ms u →
    ∃ run', u.runs b = some run' ∧ run'.failure? = some e

/-- What the worker `k` at `a` ends with is what has happened to it: an error of its logic, a panic
of its logic, or a cancellation that it met while it waited. -/
structure Frank (v : World) (a : Address) (k : Worker) (called : List (Payload × Reply)) :
    Prop where
  crashed : ∀ inputs reply e, (inputs, reply) ∈ called → reply.error? k.node = some e →
    k.Ended (.error e)
  called : ∀ e, k.Ended (.error e) → e.isCrash = true →
    ∃ inputs reply, (inputs, reply) ∈ called ∧ reply.error? k.node = some e
  halted : ∀ got c rest expired, k.stage = .gathering got (c :: rest) →
    v.isCancelled k.token = true → ∃ u, v.work? a expired = some u ∧ u.workers a =
      some { k with stage := .ended (.error (.channel k.node.name (.cancelled c.name))) }
  stopped : ∀ e, k.Ended (.error e) → e.Own k.node.name → e.isCancellation = true →
    v.isCancelled k.token = true

lemma Answering.frank (h : v.Answering r ds) (hs : v.Stopped r) (ha : Below r a)
    (hk : v.workers a = some k) : v.Frank a k (diary ds a).called := by
  have hans := h.answers a k ha hk
  unfold Worker.Answers at hans
  have ended : ∀ {result}, k.Ended result → k.node.Answers (diary ds a).called result := by
    rintro result (hstage | hstage) <;> rwa [hstage] at hans
  refine ⟨fun inputs reply e hmem he => ?_, fun e hended hcrash => ?_,
    fun got c rest expired hstage hx => ?_, fun e => hs a k e ha hk⟩
  · have none_of : (∀ c ∈ (diary ds a).called, c.2.error? k.node = none) → False := fun hall => by
      rw [hall _ hmem] at he
      cases he
    cases hstage : k.stage with
    | checking produced => rw [hstage] at hans; exact (none_of hans).elim
    | sending ready total => rw [hstage] at hans; exact (none_of hans).elim
    | ended result =>
      exact .inl (by rw [(ended (.inl hstage)).crashed _ hmem e he] at hstage; exact hstage)
    | reported result =>
      exact .inr (by rw [(ended (.inr hstage)).crashed _ hmem e he] at hstage; exact hstage)
    | _ =>
      rw [hstage] at hans
      exact (none_of (by simp [hans])).elim
  · obtain ⟨⟨inputs, reply⟩, hmem, he⟩ := (ended hended).called e rfl hcrash
    exact ⟨inputs, reply, hmem, he⟩
  · obtain ⟨u, hu, hstopped, -⟩ := work_of_cancelled hk hstage hx expired
    exact ⟨u, hu, hstopped⟩

/-- Once all have reported, everybody's outcome has arrived. -/
lemma Counted.mem_iff (h : v.Counted r ds) (hc : v.Course r p) (hb : r <:+ b)
    (hrun : v.runs b = some run) {o : Outcome} : o ∈ outcomes run.pipeline b ds ↔
      ∃ i k, v.workers (i :: b) = some k ∧ k.report? = some o := by
  rw [(h b run hb hrun).mem_iff, List.mem_filterMap]
  constructor
  · rintro ⟨i, -, ho⟩
    obtain ⟨k, hk, ho⟩ := Option.bind_eq_some_iff.1 ho
    exact ⟨i, k, hk, ho⟩
  · rintro ⟨i, k, hk, ho⟩
    obtain ⟨run', hrun', hpost⟩ := hc.tree.posted b i k hb hk
    obtain rfl := Option.some.inj (hrun.symm.trans hrun')
    exact ⟨i, List.mem_range.2 (List.getElem?_eq_some_iff.1 hpost.node).1, by
      rw [report?, hk, Option.bind_some, ho]⟩

/-- The names in the outcomes are those of the nodes, if everybody has reported. -/
lemma Counted.nodes (h : v.Counted r ds) (hc : v.Course r p) (hb : r <:+ b)
    (hrun : v.runs b = some run) (hall : v.allReported b run = true) :
    ((outcomes run.pipeline b ds).map (·.node)).Perm (run.pipeline.nodes.map (·.name)) := by
  refine ((h b run hb hrun).map _).trans (List.Perm.of_eq ?_)
  have hname : ∀ i ∈ List.range run.pipeline.nodes.length,
      (v.report? (i :: b)).map (·.node) = (run.pipeline.nodes[i]?).map (·.name) := by
    intro i hi
    have hn := List.getElem?_eq_getElem (List.mem_range.1 hi)
    obtain ⟨k, hk⟩ := hc.tree.manned b i run _ hb hrun hn
    obtain ⟨run', hrun', hpost⟩ := hc.tree.posted b i k hb hk
    obtain rfl := Option.some.inj (hrun.symm.trans hrun')
    obtain ⟨result, hs⟩ := reported_of_allReported hc.tree hb hrun hall hk
    rw [report?, hk, Option.bind_some, Worker.report?, hs, hpost.node]
    rfl
  rw [List.map_filterMap, List.filterMap_congr hname, ← List.map_filterMap,
    filterMap_range_getElem?]

/-- Once all have reported, all outcomes are successes exactly if all workers have succeeded. -/
lemma Counted.succeeded_iff (h : v.Counted r ds) (hc : v.Course r p) (hb : r <:+ b)
    (hrun : v.runs b = some run) : (∀ o ∈ outcomes run.pipeline b ds, o.result = .ok ()) ↔
      ∀ i k result, v.workers (i :: b) = some k → k.stage = .reported result → result = .ok () := by
  refine ⟨fun hall i k result hk hs => ?_, fun hall o ho => ?_⟩
  · exact hall ⟨k.node.name, result⟩
      ((h.mem_iff hc hb hrun).2 ⟨i, k, hk, Worker.report?_eq_some.2 ⟨hs, rfl⟩⟩)
  · obtain ⟨i, k, hk, ho⟩ := (h.mem_iff hc hb hrun).1 ho
    exact hall i k _ hk (Worker.report?_eq_some.1 ho).1

/-- A wait that is over has returned the verdict on all outcomes. -/
lemma returned_iff {os : List Outcome} (h : run.Heard os) {result : Except ExecutionError Report} :
    run.collector = .returned result ↔ run.Over ∧ result = verdict run.pipeline os := by
  constructor
  · intro hcol
    refine ⟨⟨_, hcol⟩, ?_⟩
    rwa [Run.Heard, hcol] at h
  · rintro ⟨⟨result', hcol⟩, rfl⟩
    rw [Run.Heard, hcol] at h
    rw [hcol, h]

lemma allReported_of_over (hc : v.Course r p) (hb : r <:+ b) (hrun : v.runs b = some run)
    (hover : run.Over) : v.allReported b run = true := by
  refine List.all_eq_true.2 fun i hi => ?_
  obtain ⟨k, hk⟩ := hc.tree.manned b i run _ hb hrun
    (List.getElem?_eq_getElem (List.mem_range.1 hi))
  obtain ⟨result, hs⟩ := ((hc.hearing b run hb hrun).closed hover).2 i k hk
  simp [hasReported, hk, hs]

/-- When nobody has a move left, a wait that has heard of everybody is over. -/
lemma over_of_still (hc : v.Course r p) (hb : r <:+ b) (hrun : v.runs b = some run)
    (hstill : v.Still r) (hatt : run.Attended) (hall : v.allReported b run = true) : run.Over := by
  refine (receiver_of_resting hc.tree hstill.resting hb hrun hatt).resolve_right ?_
  rintro ⟨-, i, k, hk, hnot⟩
  obtain ⟨result, hs⟩ := reported_of_allReported hc.tree hb hrun hall hk
  exact hnot result hs

/-- **The wait joins everything and reports faithfully**, for the run and every run inside it,
whatever the strategy, the order of the steps and what others do meanwhile. It returns only after
all workers have ended, and when they have it needs no step but its own, also where there are no
workers at all. It returns success exactly if all of them succeeded, with every node listed once in
the order in which the outcomes arrived, and otherwise the first error in that order; and what
arrives of each worker is the failure or panic of its logic, its cancellation, or whatever else it
met. -/
theorem wait_reports_faithfully {runtime : Bool} (hv : w.Vacant r)
    (ho : ∀ x, (w.conduits x).Orderly) (hstart : w.start r p seeds token runtime = .ok w₁)
    (h : w₁.Chronicle r (Outside r) ms ds v) (hb : r <:+ b) (hrun : v.runs b = some run) :
    v.Joins r b run (outcomes run.pipeline b ds) ∧
      ∀ i k, v.workers (i :: b) = some k → v.Frank (i :: b) k (diary ds (i :: b)).called := by
  have hc := course_of_plays hv ho hstart (fun _ _ h => h) h.plays
  have hcounted := counted_of_chronicle hv ho hstart h
  have hheard := (tally_of_chronicle hv ho hstart h).heard b run hb hrun
  have hall : run.Over → v.allReported b run = true := allReported_of_over hc hb hrun
  refine ⟨⟨hcounted b run hb hrun, hall, ?due, over_of_still hc hb hrun, ?success, ?completed,
    ?failure, fun e ms u he hplay => failure_of_plays hc hb hrun he hplay⟩, ?frank⟩
  case due =>
    rintro (⟨completed, failure, hcol⟩ | hover) hopen hreported
    · rw [Run.Heard, hcol] at hheard
      obtain ⟨seen, hos, rfl, rfl⟩ := hheard
      exact hos ▸ exists_concluded hrun hcol hreported
    · exact absurd hover hopen
  case success =>
    intro report
    rw [returned_iff hheard, eq_comm, verdict_eq_ok, hcounted.succeeded_iff hc hb hrun]
    refine and_congr_right fun hover => and_congr_left fun _ => ⟨fun hok i k hk => ?_,
      fun hok i k result hk hs => ?_⟩
    · obtain ⟨result, hs⟩ := ((hc.hearing b run hb hrun).closed hover).2 i k hk
      rw [hs, hok i k result hk hs]
    · rw [hok i k hk] at hs
      exact (Stage.reported.inj hs).symm
  case completed =>
    intro report hcol
    obtain ⟨hover, hverdict⟩ := (returned_iff hheard).1 hcol
    rw [(verdict_eq_ok.1 hverdict.symm).2]
    exact hcounted.nodes hc hb hrun (hall hover)
  case failure =>
    intro e
    rw [returned_iff hheard, eq_comm, verdict_eq_error, firstFailure_eq_some]
  case frank =>
    exact fun i k hk => (answering_of_chronicle hv ho hstart h).frank
      (stopped_of_plays hv ho hstart h.plays) (below_cons.2 hb) hk

/-- A source that panics, a source that fails, and a sink that waits. -/
def clash : Pipeline where
  id := 0
  name := "clash"
  options := { validateInputs := false }
  channels := [⟨1, "c", .text⟩, ⟨2, "d", .text⟩, ⟨3, "e", .text⟩]
  nodes := [⟨"slow", [], [⟨1, "c", .text⟩],
      .source (.pure .producer fun _ => .failed (.of "boom"))⟩,
    ⟨"rash", [], [⟨2, "d", .text⟩], .source (.pure .producer fun _ => .panicked (.text "oops"))⟩,
    ⟨"idle", [⟨3, "e", .text⟩], [], .sink (.pure .function fun _ => .returned .empty)⟩]

/-- All three workers of the clash end with an error, each of another kind. The panic arrives
first, so it is what the wait returns. -/
theorem clash_reported : ∃ w₁ ms ds v run k l, initial.start [4] clash .empty [4] true = .ok w₁ ∧
    w₁.Chronicle [4] (Outside [4]) ms ds v ∧ v.runs [4] = some run ∧
    run.collector = .returned (.error (.workerPanicked "rash" "oops")) ∧
    v.workers [0, 4] = some k ∧ k.stage = .reported (.error (.logic "slow" (.of "boom"))) ∧
    v.workers [2, 4] = some l ∧ l.stage = .reported (.error (.channel "idle" (.cancelled "e"))) ∧
    v.Joins [4] [4] run (outcomes run.pipeline [4] ds) ∧
    ∀ i k, v.workers [i, 4] = some k → v.Frank [i, 4] k (diary ds [i, 4]).called := by
  let moves : List Move := [.work [2, 4], .work [0, 4], .work [1, 4], .work [1, 4], .work [0, 4],
    .collect [4], .work [2, 4], .work [2, 4], .collect [4], .collect [4], .conclude [4]]
  obtain ⟨w₁, hw⟩ : ∃ w₁, initial.start [4] clash .empty [4] true = .ok w₁ := ⟨_, rfl⟩
  obtain ⟨v, run, k, l, hsteps, hrun, hret, hk, hs, hl, hl'⟩ : ∃ v run k l,
      (w₁.await [4]).steps moves = some v ∧ v.runs [4] = some run ∧
      run.collector = .returned (.error (.workerPanicked "rash" "oops")) ∧
      v.workers [0, 4] = some k ∧ k.stage = .reported (.error (.logic "slow" (.of "boom"))) ∧
      v.workers [2, 4] = some l ∧
      l.stage = .reported (.error (.channel "idle" (.cancelled "e"))) := by
    obtain rfl := Except.ok.inj hw
    exact ⟨_, _, _, _, rfl, rfl, rfl, rfl, rfl, rfl, rfl⟩
  have hawaited : w₁.Chronicle [4] (Outside [4]) [] [] (w₁.await [4]) := .await .start
  obtain ⟨ds, hplay⟩ := hawaited.steps (by simp [moves, Move.Of]) hsteps
  exact ⟨w₁, _, ds, v, run, k, l, hw, hplay, hrun, hret, hk, hs, hl, hl',
    wait_reports_faithfully (vacant_initial [4]) orderly_initial hw hplay List.suffix_rfl hrun⟩

end World

end Dataflow
