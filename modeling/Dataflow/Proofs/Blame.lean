import Dataflow.Proofs.Lineage
import Dataflow.Proofs.Starvation

/-!
Whom the error of a run blames. An error is wrapped once for every run that it comes out of, so
that its layers name the nodes on the way to one that failed on its own account.

A run that is cancelled ends all of its workers with cancellations, on every level below. None of
them is ever recorded before the failure that caused it: whoever was stopped by a cancellation is
inside a run that had recorded a failure before. So what the outermost run reports is no
cancellation (`returned_error_is_root_cause`).
-/

namespace Dataflow

namespace ExecutionError

/-- The names of the nodes that the error went through, the outermost first. -/
def trail : ExecutionError → List String
  | innerPipeline n e => n :: e.trail
  | e => e.node?.toList

/-- The error inside all the layers that the runs around it have added. -/
def core : ExecutionError → ExecutionError
  | innerPipeline _ e => e.core
  | e => e

/-- The node called `n` failed on its own account, and not through a run inside it. -/
def Own (n : String) : ExecutionError → Prop
  | innerPipeline _ _ => False
  | e => e.node? = some n

variable {n : String} {e : ExecutionError}

lemma Own.core_eq (h : e.Own n) : e.core = e := by
  cases e <;> first | rfl | exact h.elim

lemma Own.trail_eq (h : e.Own n) : e.trail = [n] := by
  cases e <;> simp_all [Own, trail, node?]

lemma not_cancellation {x : ChannelError} (h : ∀ c, x ≠ .cancelled c) :
    (channel n x).isCancellation = false := by
  cases x with
  | cancelled c => exact absurd rfl (h c)
  | _ => rfl

end ExecutionError

/-- The nodes that an address leads through, the outermost first. -/
def Pipeline.route? (p : Pipeline) : Address → Option (List Node)
  | [] => some []
  | i :: path => (p.route? path).bind fun around => (p.post? (i :: path)).map fun n => around ++ [n]

lemma Pipeline.route?_cons {p q : Pipeline} {path : Address} {i : Nat} {n : Node}
    {around : List Node} (h : p.route? path = some around) (hq : p.level? path = some q)
    (hn : q.nodes[i]? = some n) : p.route? (i :: path) = some (around ++ [n]) := by
  simp [route?, h, post?, hq, hn]

/-- The first failure that the receiver of a run has seen. -/
def Run.failure? (run : Run) : Option ExecutionError :=
  match run.collector with
  | .waiting _ failure => failure
  | .returned (.error e) => some e
  | _ => none

/-- Some worker of the run has told it of this error, or the run counts it as its first. -/
def Run.Knows (run : Run) (e : ExecutionError) : Prop :=
  run.failure? = some e ∨ ∃ o ∈ run.mailbox, o.result = .error e

/-- Whatever a run has recorded for good is still recorded later. -/
structure Run.Keeps (run run' : Run) : Prop where
  token : run'.token = run.token
  failure : ∀ e, run.failure? = some e → run'.failure? = some e
  returned : ∀ result, run.collector = .returned result → run'.collector = .returned result

lemma Run.Keeps.refl (run : Run) : run.Keeps run := ⟨rfl, fun _ h => h, fun _ h => h⟩

lemma Run.failure?_of_returned {run : Run} {e : ExecutionError}
    (h : run.collector = .returned (.error e)) : run.failure? = some e := by
  simp [failure?, h]

lemma Run.failure?_of_waiting {run : Run} {completed : List String}
    {failure : Option ExecutionError} (h : run.collector = .waiting completed failure) :
    run.failure? = failure := by
  simp [failure?, h]

lemma Run.attended_facts (run : Run) : run.Keeps run.attended ∧
    run.attended.failure? = run.failure? ∧ run.attended.mailbox = run.mailbox := by
  unfold Run.attended
  cases hc : run.collector with
  | idle => exact ⟨⟨rfl, by simp [failure?, hc], by simp [hc]⟩, by simp [failure?, hc], rfl⟩
  | _ => exact ⟨.refl _, rfl, rfl⟩

lemma World.delivered_facts (run : Run) (o : Outcome) : run.Keeps (delivered run o) ∧
    (delivered run o).failure? = run.failure? ∧
      ∀ o' ∈ (delivered run o).mailbox, o' ∈ run.mailbox ∨ o' = o := by
  unfold delivered
  split
  · exact ⟨.refl _, rfl, fun _ h => .inl h⟩
  · exact ⟨⟨rfl, fun _ h => h, fun _ h => h⟩, rfl, fun _ h => by simpa using h⟩

lemma Node.pair_eq_error {n : Node} {produced : Payload} {outs : List Channel} {e : ChannelError}
    (h : (n.pair produced outs).2 = .error e) :
    ∃ c expected actual, e = .typeMismatch c expected actual := by
  induction outs with
  | nil => cases h
  | cons c rest ih =>
    rw [pair] at h
    cases hv : produced.get? c.name with
    | none =>
      simp only [hv] at h
      exact ih h
    | some x =>
      simp only [hv] at h
      by_cases hx : c.type.accepts x = true
      · simp only [Channel.check_eq_ok_iff.2 hx] at h
        cases hrest : (n.pair produced rest).2 with
        | error e' =>
          rw [hrest] at h
          exact ih (hrest.trans h)
        | ok ready =>
          rw [hrest] at h
          cases h
      · simp only [Channel.check_eq_error (Bool.eq_false_iff.2 hx), Except.error.injEq] at h
        exact ⟨_, _, _, h.symm⟩

lemma Node.prepare_eq_error {n : Node} {produced : Payload} {e : ChannelError}
    (h : (n.prepare produced).2 = .error e) :
    ∃ c expected actual, e = .typeMismatch c expected actual := by
  unfold prepare at h
  rcases hp : n.pair produced n.outputs with ⟨notices, e' | ready⟩ <;> rw [hp] at h
  · exact pair_eq_error (by rw [hp]; exact h)
  · cases h

namespace World

variable {w w₁ w' v u : World} {r a b : Address} {p inner : Pipeline} {k k' : Worker}
  {token t : Token} {inputs seeds : Payload} {run : Run} {e : ExecutionError} {expired : Bool}

/-! ### Why a worker ends with an error -/

/-- What has brought the worker `k` at `a` to the error `e`: its own step, or the run inside. -/
inductive Fault (w : World) (a : Address) (k : Worker) (e : ExecutionError) : Prop where
  | own (own : e.Own k.node.name) (cause : e.isCancellation = true → w.isCancelled k.token = true)
  | inside {below : Run} {inner : ExecutionError} (inner_run : w.runs a = some below)
      (returned : below.collector = .returned (.error inner))
      (wrapped : e = .innerPipeline k.node.name inner)

lemma Shift.stage_eq {s : Stage} {f : Nat → Conduit Address} (h : w.Shift w' a k s f)
    (hk' : w'.workers a = some k') : k' = { k with stage := s } := by
  rw [h.workers, update_same] at hk'
  exact (Option.some.inj hk').symm

lemma fault_of_call {logic : Logic} (hk' : (w.callStep a k logic inputs).workers a = some k')
    (hs : k'.stage = .ended (.error e)) : w.Fault a k e := by
  have stage : ∀ {x : World} {s : Stage}, (x.goTo a k s).workers a = some k' → k'.stage = s :=
    fun h => by
      simp only [goTo, setWorker, update_same, Option.some.injEq] at h
      exact h ▸ rfl
  unfold callStep at hk'
  dsimp only at hk'
  split at hk'
  · cases (stage hk').symm.trans hs
  · cases (stage hk').symm.trans hs
    exact .own rfl (by simp [ExecutionError.isCancellation])
  · cases (stage hk').symm.trans hs
    exact .own rfl (by simp [ExecutionError.isCancellation])

lemma fault_of_send {c : Channel} {x : Value} {rest : List (Channel × Value)} {total : Nat}
    (hk' : (w.sendStep a k total c x rest).workers a = some k')
    (hs : k'.stage = .ended (.error e)) : w.Fault a k e := by
  unfold sendStep at hk'
  by_cases hx : c.type.accepts x = true
  · simp only [send, Channel.check_eq_ok_iff.2 hx, bind, Except.bind, pure, Except.pure, goTo,
      setWorker, update_same, Option.some.injEq] at hk'
    subst hk'
    cases hs
  · simp only [send, Channel.check_eq_error (Bool.eq_false_iff.2 hx), bind, Except.bind, fail, goTo,
      setWorker, update_same, Option.some.injEq] at hk'
    subst hk'
    cases hs
    exact .own rfl (by simp [ExecutionError.isCancellation])

/-- **A worker fails for a reason**: of its own, or because the run inside it has failed. -/
theorem fault_of_work? (hk : w.workers a = some k) (h : w.work? a expired = some w')
    (hk' : w'.workers a = some k') (hs' : k'.stage = .ended (.error e)) :
    w.Fault a k e := by
  have ended : ∀ {s : Stage} {f : Nat → Conduit Address}, w.Shift w' a k s f →
      s = .ended (.error e) := fun hsh => by
    rw [hsh.stage_eq hk'] at hs'
    exact hs'
  have never : ∀ {s : Stage} {f : Nat → Conduit Address}, w.Shift w' a k s f →
      s ≠ .ended (.error e) → w.Fault a k e := fun hsh hne => absurd (ended hsh) hne
  have quiet : ∀ {x : ChannelError}, (∀ c, x ≠ .cancelled c) →
      (ExecutionError.channel k.node.name x).isCancellation = true →
        w.isCancelled k.token = true := fun hx hcancel => by
    rw [ExecutionError.not_cancellation hx] at hcancel
    cases hcancel
  have hst := stride_of_worker hk h
  cases hst with
  | linedUp stage alive empty new hsh => exact never hsh (by simp [stage])
  | took stage alive permit pop hsh =>
    refine never hsh ?_
    rcases k.node.gather_cases (Payload.insert _ _ _) _ with
      ⟨c, cs, -, hg⟩ | ⟨-, ⟨logic, -, hg⟩ | ⟨inner, -, hg⟩⟩ <;> rw [hg] <;> simp
  | foundNothing stage permit pop hsh =>
    cases ended hsh
    exact .own rfl (quiet (by simp))
  | gaveUp stage why hsh =>
    cases ended hsh
    rcases why with ⟨hx, -⟩ | ⟨-, d, -, rfl⟩
    · exact .own rfl fun _ => hx
    · exact .own rfl (quiet (by simp))
  | called stage reply hsh => exact never hsh (by simp)
  | @crashed logic inputs _ stage reply hsh =>
    have hstep : w.callStep a k logic inputs = w' := by simpa [work?, hk, stage] using h
    exact fault_of_call (hstep ▸ hk') hs'
  | entered stage new entry =>
    rw [entry.worker_self] at hk'
    obtain rfl := Option.some.inj hk'
    cases hs'
  | refused stage why hsh =>
    cases ended hsh
    exact .own rfl (by simp [ExecutionError.isCancellation])
  | innerFailed stage inner_run returned hsh =>
    cases ended hsh
    exact .inside inner_run returned rfl
  | left stage inner_run returned taken hsh => exact never hsh (by simp)
  | missed stage inner_run returned taken hsh =>
    cases ended hsh
    exact .own rfl (by simp [ExecutionError.isCancellation])
  | checked stage fits hsh => exact never hsh (by simp)
  | rejected stage misfit hsh =>
    cases ended hsh
    obtain ⟨_, _, _, rfl⟩ := Node.prepare_eq_error misfit
    exact .own rfl (quiet (by simp))
  | sent stage fits hsh => exact never hsh (by simp)
  | @unsent c x rest total _ stage misfit hsh =>
    have hstep : w.sendStep a k total c x rest = w' := by simpa [work?, hk, stage] using h
    exact fault_of_send (hstep ▸ hk') hs'
  | finished stage hsh => exact never hsh (by simp)
  | told stage ht =>
    rw [ht.workers, update_same] at hk'
    obtain rfl := Option.some.inj hk'
    cases hs'

/-! ### Who cancels -/

/-- Recording a failure cancels the run if it is the first and the run fails fast. -/
lemma cancelled_recordFailure {node : String} {failure : Option ExecutionError}
    (ht : t ∈ (w.recordFailure run node e failure).2.cancelled) : t ∈ w.cancelled ∨
      t = run.token ∧ failure = none ∧ run.pipeline.options.failureStrategy = .failFast ∧
        w.isCancelled run.token = false := by
  unfold recordFailure at ht
  split at ht
  · exact .inl ht
  · cases failure with
    | some first => exact .inl ht
    | none =>
      dsimp only at ht
      split at ht
      · next hwhy =>
        rw [Bool.and_eq_true, decide_eq_true_eq, Bool.not_eq_true'] at hwhy
        rcases List.mem_append.1 ht with ht | ht
        · exact .inl ht
        · exact .inr ⟨List.mem_singleton.1 ht, rfl, hwhy.1, hwhy.2⟩
      · exact .inl ht

lemma failure_recordFailure (w : World) (run : Run) (node : String) (e : ExecutionError)
    (failure : Option ExecutionError) :
    (w.recordFailure run node e failure).1 = some (failure.getD e) := by
  unfold recordFailure
  cases failure with
  | none =>
    simp only [Option.isSome_none, Bool.false_and, Bool.false_eq_true, if_false]
    split <;> rfl
  | some first =>
    cases he : e.isCancellation <;> rfl

/-- The receiver of the run at `b` sees its first failure, and cancels the run for it. -/
structure Strikes (v u : World) (b : Address) (run : Run) : Prop where
  running : v.runs b = some run
  strategy : run.pipeline.options.failureStrategy = .failFast
  unfailed : run.failure? = none
  uncancelled : v.isCancelled run.token = false
  failed : ∃ run', u.runs b = some run' ∧ run'.token = run.token ∧ run'.failure? ≠ none

lemma strikes_of_collect? (h : v.collect? b = some u) (ht : t ∈ u.cancelled) :
    t ∈ v.cancelled ∨ ∃ run, v.Strikes u b run ∧ run.token = t := by
  unfold collect? at h
  cases hr : v.runs b with
  | none => simp [hr] at h
  | some run =>
    simp only [hr] at h
    split at h
    · next completed failure o rest hc hm =>
      split at h
      · obtain rfl := Option.some.inj h
        exact .inl ht
      · next e _ =>
        have hu := Option.some.inj h
        rw [← hu] at ht
        rcases cancelled_recordFailure ht with hold | ⟨rfl, hnone, hstrategy, hx⟩
        · exact .inl hold
        · have hf : run.failure? = none := (Run.failure?_of_waiting hc).trans hnone
          refine .inr ⟨run, ⟨hr, hstrategy, hf, hx, ?_⟩, rfl⟩
          rw [← hu]
          refine ⟨_, update_same _ _ _, rfl, ?_⟩
          simp [Run.failure?, failure_recordFailure]
    · cases h

/-- **A run cancels only its own token**, when its receiver sees the first failure under
`failFast`. No other step of a run cancels anything. -/
theorem strikes_of_step {m : Move} (hm : m.Of r) (hs : v.step? m = some u) (ht : t ∈ u.cancelled) :
    t ∈ v.cancelled ∨ ∃ b run, m = .collect b ∧ v.Strikes u b run ∧ run.token = t := by
  have work : ∀ {a expired}, v.work? a expired = some u → t ∈ v.cancelled := by
    intro a expired hs
    obtain ⟨k, -, hst⟩ := stride_of_work? hs
    rcases hst.kinds with ⟨_, _, _, -, he⟩ | ⟨_, -, told⟩ | ⟨_, _, hsh, -, -⟩
    · exact he.cancelled ▸ ht
    · exact told.cancelled ▸ ht
    · exact hsh.cancelled ▸ ht
  cases m with
  | work a => exact .inl (work hs)
  | expire a => exact .inl (work hs)
  | collect b =>
    refine (strikes_of_collect? hs ht).imp_right ?_
    rintro ⟨run, hstrikes, htok⟩
    exact ⟨b, run, rfl, hstrikes, htok⟩
  | conclude b =>
    obtain ⟨_, _, _, hc⟩ := concluded_of_conclude? hs
    exact .inl (hc.cancelled ▸ ht)
  | cancel t => exact hm.elim

/-! ### What is recorded -/

/-- What a step of the run at `r`, or of its surroundings, may change about who has failed. -/
structure Onward (v u : World) (r : Address) : Prop where
  runs : ∀ b run, r <:+ b → v.runs b = some run → ∃ run', u.runs b = some run' ∧ run.Keeps run'
  reported : ∀ a k result, Below r a → v.workers a = some k → k.stage = .reported result →
    u.workers a = some k
  knows : ∀ b run' e, r <:+ b → u.runs b = some run' → run'.Knows e →
    (∃ run, v.runs b = some run ∧ run.Knows e) ∨
      ∃ i k, u.workers (i :: b) = some k ∧ k.stage = .reported (.error e)
  first : ∀ b run' e, r <:+ b → u.runs b = some run' → run'.failure? = some e →
    ∃ run, v.runs b = some run ∧
      (run.failure? = some e ∨ run.failure? = none ∧ run.Knows e)
  ended : ∀ a k' e, Below r a → u.workers a = some k' → k'.Ended (.error e) →
    ∃ k, v.workers a = some k ∧ k'.node = k.node ∧ (k.Ended (.error e) ∨ v.Fault a k e)

lemma new_not_ended {n : Node} {limit : Option Duration} {result : Except ExecutionError Unit} :
    ¬ (Worker.new n token limit).Ended result := by
  rintro (h | h)
  · rcases n.gather_cases .empty n.inputs with
      ⟨c, cs, -, hg⟩ | ⟨-, ⟨logic, -, hg⟩ | ⟨inner, -, hg⟩⟩ <;>
      rw [Worker.new, hg] at h <;> cases h
  · exact absurd h (Node.gather_ne_reported _ _ _ _)

/-- What a step of a worker does to the runs, whichever it is. -/
lemma onward_runs (ht : v.Tree r p) (ha : Below r a) (hk : v.workers a = some k)
    (hst : v.Stride u a k expired) (b : Address) :
    (∀ run, v.runs b = some run → ∃ run', u.runs b = some run' ∧ run.Keeps run') ∧
      ∀ run', u.runs b = some run' →
        (run'.failure? = none ∧ run'.mailbox = []) ∨ ∃ run, v.runs b = some run ∧
          run'.failure? = run.failure? ∧ ∀ o ∈ run'.mailbox, o ∈ run.mailbox ∨
            ∃ i, i :: b = a ∧ u.workers (i :: b) = some { k with stage := .reported o.result } := by
  have same : u.runs b = v.runs b →
      (∀ run, v.runs b = some run → ∃ run', u.runs b = some run' ∧ run.Keeps run') ∧
        ∀ run', u.runs b = some run' →
          (run'.failure? = none ∧ run'.mailbox = []) ∨ ∃ run, v.runs b = some run ∧
            run'.failure? = run.failure? ∧ ∀ o ∈ run'.mailbox, o ∈ run.mailbox ∨ ∃ i,
              i :: b = a ∧ u.workers (i :: b) = some { k with stage := .reported o.result } :=
    fun hr => ⟨fun run hrun => ⟨run, hr ▸ hrun, .refl run⟩,
      fun run' hrun' => .inr ⟨run', hr ▸ hrun', rfl, fun _ ho => .inl ho⟩⟩
  rcases hst.kinds with ⟨inner, inputs, id, hs, he⟩ | ⟨result, hs, told⟩ | ⟨s, f, hsh, -, -⟩
  · by_cases hba : b = a
    · subst hba
      refine ⟨fun run hrun => ?_, fun run' hrun' => .inl ?_⟩
      · rw [ht.runs_of_entering ha hk hs] at hrun
        cases hrun
      · rw [he.run_self] at hrun'
        exact Option.some.inj hrun' ▸ ⟨rfl, rfl⟩
    · exact same (he.run_old hba)
  · cases hr : v.runs a.tail with
    | none => exact same (by rw [told.runs, hr, Option.elim_none])
    | some run₀ =>
      by_cases hba : b = a.tail
      · have hrun₁ : u.runs b = some (delivered run₀ ⟨k.node.name, result⟩) := by
          rw [told.runs, hr, Option.elim_some, hba, update_same]
        obtain ⟨hkeeps, hfailure, hmail⟩ := delivered_facts run₀ ⟨k.node.name, result⟩
        refine ⟨fun run hrun => ⟨_, hrun₁, ?_⟩, fun run' hrun' => .inr ⟨run₀, hba ▸ hr, ?_⟩⟩
        · rw [hba, hr] at hrun
          exact Option.some.inj hrun ▸ hkeeps
        · obtain rfl := Option.some.inj (hrun₁.symm.trans hrun')
          refine ⟨hfailure, fun o ho => (hmail o ho).imp_right ?_⟩
          rintro rfl
          cases a with
          | nil => exact ha.elim
          | cons i b' =>
            obtain rfl : b = b' := hba
            exact ⟨i, rfl, by rw [told.workers, update_same]⟩
      · exact same (by rw [told.runs, hr, Option.elim_some, update_of_ne hba])
  · exact same (by rw [hsh.runs])

lemma onward_of_work? (ht : v.Tree r p) (ha : Below r a) (hs : v.work? a expired = some u) :
    v.Onward u r := by
  obtain ⟨k, hk, hst⟩ := stride_of_work? hs
  refine ⟨fun b run _ => (onward_runs ht ha hk hst b).1 run, ?_, ?_, ?_, ?_⟩
  · intro c k' result hc hk' hs'
    have hca : c ≠ a := by
      rintro rfl
      simp [work?, hk', hs'] at hs
    rcases ht.worker_of_ne ha hk hst hca with hw | ⟨hn, -⟩
    · exact hw.trans hk'
    · rw [hn] at hk'
      cases hk'
  · intro b run' e _ hrun' hknows
    rcases (onward_runs ht ha hk hst b).2 run' hrun' with ⟨hf, hm⟩ | ⟨run, hrun, hf, hm⟩
    · rcases hknows with h | ⟨o, ho, -⟩
      · rw [hf] at h
        cases h
      · rw [hm] at ho
        cases ho
    · rcases hknows with h | ⟨o, ho, he⟩
      · exact .inl ⟨run, hrun, .inl (hf ▸ h)⟩
      · rcases hm o ho with hold | ⟨i, -, hk'⟩
        · exact .inl ⟨run, hrun, .inr ⟨o, hold, he⟩⟩
        · exact .inr ⟨i, _, hk', congrArg Stage.reported he⟩
  · intro b run' e _ hrun' hf'
    rcases (onward_runs ht ha hk hst b).2 run' hrun' with ⟨hf, -⟩ | ⟨run, hrun, hf, -⟩
    · rw [hf] at hf'
      cases hf'
    · exact ⟨run, hrun, .inl (hf ▸ hf')⟩
  · intro c k' e hc hk' hended
    by_cases hca : c = a
    · subst hca
      rcases hended with hs' | hs'
      · refine ⟨k, hk, ?_, .inr (fault_of_work? hk hs hk' hs')⟩
        rcases hst.kinds with ⟨_, _, _, -, he⟩ | ⟨result, -, told⟩ | ⟨s, f, hsh, -, -⟩
        · exact Option.some.inj (he.worker_self.symm.trans hk') ▸ rfl
        · rw [told.workers, update_same] at hk'
          exact Option.some.inj hk' ▸ rfl
        · exact hsh.stage_eq hk' ▸ rfl
      · rcases hst.kinds with ⟨_, _, _, -, he⟩ | ⟨result, hold, told⟩ | ⟨s, f, hsh, -, hne⟩
        · obtain rfl := Option.some.inj (he.worker_self.symm.trans hk')
          cases hs'
        · rw [told.workers, update_same] at hk'
          obtain rfl := Option.some.inj hk'
          obtain rfl : result = .error e := by simpa using hs'
          exact ⟨k, hk, rfl, .inl (.inl hold)⟩
        · rw [hsh.stage_eq hk'] at hs'
          exact absurd hs' (hne _)
    · rcases ht.worker_of_ne ha hk hst hca with hw | ⟨-, n, t, limit, hw⟩
      · exact ⟨k', hw ▸ hk', rfl, .inl hended⟩
      · obtain rfl := Option.some.inj (hw.symm.trans hk')
        exact absurd hended new_not_ended

/-- The receiver of the run at `b` has gone on. -/
lemma onward_of_turned (hrun : v.runs b = some run) {run' : Run}
    (hruns : u.runs = update v.runs b (some run')) (hworkers : u.workers = v.workers)
    (hkeeps : run.Keeps run') (hmail : ∀ o ∈ run'.mailbox, o ∈ run.mailbox)
    (hfirst : ∀ e, run'.failure? = some e →
      run.failure? = some e ∨ run.failure? = none ∧ run.Knows e) : v.Onward u r := by
  have cases_of : ∀ {c run₁}, u.runs c = some run₁ →
      c = b ∧ run₁ = run' ∨ c ≠ b ∧ v.runs c = some run₁ := by
    intro c run₁ hc
    rw [hruns] at hc
    by_cases hcb : c = b
    · rw [hcb, update_same] at hc
      exact .inl ⟨hcb, (Option.some.inj hc).symm⟩
    · rw [update_of_ne hcb] at hc
      exact .inr ⟨hcb, hc⟩
  have knows : ∀ e, run'.Knows e → run.Knows e := by
    rintro e (h | ⟨o, ho, he⟩)
    · exact (hfirst e h).elim .inl And.right
    · exact .inr ⟨o, hmail o ho, he⟩
  refine ⟨fun c run₁ _ hc => ?_, fun c k result _ hk _ => hworkers ▸ hk, ?_, ?_, ?_⟩
  · by_cases hcb : c = b
    · subst hcb
      obtain rfl := Option.some.inj (hrun.symm.trans hc)
      exact ⟨run', by rw [hruns, update_same], hkeeps⟩
    · exact ⟨run₁, by rw [hruns, update_of_ne hcb, hc], .refl _⟩
  · intro c run₁ e _ hc hknows
    rcases cases_of hc with ⟨rfl, rfl⟩ | ⟨-, hold⟩
    · exact .inl ⟨run, hrun, knows e hknows⟩
    · exact .inl ⟨run₁, hold, hknows⟩
  · intro c run₁ e _ hc hf
    rcases cases_of hc with ⟨rfl, rfl⟩ | ⟨-, hold⟩
    · exact ⟨run, hrun, hfirst e hf⟩
    · exact ⟨run₁, hold, .inl hf⟩
  · intro c k e _ hk hended
    exact ⟨k, hworkers ▸ hk, rfl, .inl hended⟩

lemma onward_of_collect? (hs : v.collect? b = some u) : v.Onward u r := by
  cases collected_of_collect? hs with
  | @success run completed failure o rest running collector mailbox result turned =>
    have hf := Run.failure?_of_waiting collector
    exact onward_of_turned running turned.runs turned.workers
      ⟨rfl, fun e h => by rwa [hf] at h, fun _ h => by rw [collector] at h; cases h⟩
      (fun o' ho => mailbox ▸ List.mem_cons_of_mem o ho) (fun e h => .inl (hf.trans h))
  | @failure run completed failure o rest e first running collector mailbox result kept turned =>
    have hf := Run.failure?_of_waiting collector
    refine onward_of_turned running turned.runs turned.workers
      ⟨rfl, fun e' h => ?_, fun _ h => by rw [collector] at h; cases h⟩
      (fun o' ho => mailbox ▸ List.mem_cons_of_mem o ho) (fun e' h => ?_)
    · rw [hf] at h
      subst h
      exact congrArg some kept
    · obtain rfl : first = e' := Option.some.inj h
      cases failure with
      | some e'' => exact .inl (hf.trans (congrArg some kept.symm))
      | none =>
        refine .inr ⟨hf, .inr ⟨o, mailbox ▸ List.mem_cons_self, ?_⟩⟩
        rw [result, kept, Option.getD_none]

lemma onward_of_conclude? (hs : v.conclude? b = some u) : v.Onward u r := by
  obtain ⟨run, completed, failure, hc⟩ := concluded_of_conclude? hs
  have hf := Run.failure?_of_waiting hc.collector
  refine onward_of_turned hc.running hc.turned.runs hc.turned.workers
    ⟨rfl, fun e h => ?_, fun _ h => by rw [hc.collector] at h; cases h⟩ (fun _ ho => ho)
    (fun e h => .inl ?_)
  · rw [hf] at h
    subst h
    rfl
  · rw [hf]
    cases failure with
    | none => cases h
    | some e' => exact h

lemma onward_of_step (ht : v.Tree r p) {m : Move} (hm : m.Of r) (hs : v.step? m = some u) :
    v.Onward u r := by
  cases m with
  | work a => exact onward_of_work? ht hm hs
  | expire a => exact onward_of_work? ht hm hs
  | collect b => exact onward_of_collect? hs
  | conclude b => exact onward_of_conclude? hs
  | cancel t => exact hm.elim

lemma onward_await (v : World) (r : Address) : v.Onward (v.await r) r := by
  obtain ⟨hw, -⟩ := await_others v r
  have facts : ∀ {b run'}, (v.await r).runs b = some run' → ∃ run, v.runs b = some run ∧
      run.Keeps run' ∧ run'.failure? = run.failure? ∧ run'.mailbox = run.mailbox := by
    intro b run' h
    rw [runs_await] at h
    split at h
    · obtain ⟨run, hrun, rfl⟩ := Option.map_eq_some_iff.1 h
      exact ⟨run, hrun, run.attended_facts⟩
    · exact ⟨run', h, .refl _, rfl, rfl⟩
  refine ⟨fun b run _ hrun => ?_, fun a k _ _ hk _ => hw ▸ hk, ?_, ?_,
    fun a k e _ hk hended => ⟨k, hw ▸ hk, rfl, .inl hended⟩⟩
  · rw [runs_await]
    split
    · exact ⟨run.attended, by rw [hrun, Option.map_some], run.attended_facts.1⟩
    · exact ⟨run, hrun, .refl _⟩
  · intro b run' e _ hrun' hknows
    obtain ⟨run, hrun, -, hf, hm⟩ := facts hrun'
    exact .inl ⟨run, hrun, hknows.imp (hf ▸ ·) (hm ▸ ·)⟩
  · intro b run' e _ hrun' h
    obtain ⟨run, hrun, -, hf, -⟩ := facts hrun'
    exact ⟨run, hrun, .inl (hf ▸ h)⟩

lemma Outside.onward (h : v.Outside r u) : v.Onward u r where
  runs b run hb hrun := ⟨run, h.runs b hb ▸ hrun, .refl _⟩
  reported a _ _ ha hk _ := h.workers a ha ▸ hk
  knows b run' _ hb hrun' hknows := .inl ⟨run', h.runs b hb ▸ hrun', hknows⟩
  first b run' _ hb hrun' hf := ⟨run', h.runs b hb ▸ hrun', .inl hf⟩
  ended a k' _ ha hk' hended := ⟨k', h.workers a ha ▸ hk', rfl, .inl hended⟩

/-- What others may do as long as nobody cancels the run under `token`, a run that it is part of,
or a run inside it. -/
structure Sparing (r : Address) (token : Token) (v u : World) : Prop where
  outside : v.Outside r u
  cancelled : ∀ t ∈ u.cancelled, t ∈ v.cancelled ∨ Unrelated t token
  fresh : v.fresh ≤ u.fresh

/-! ### Who is to blame -/

/-- A run at `b`, or around it and not outside of that at `r`, has recorded a failure. -/
def Troubled (v : World) (r b : Address) : Prop :=
  ∃ c run, r <:+ c ∧ c <:+ b ∧ v.runs c = some run ∧ run.failure? ≠ none

/-- Every failure at `r` and below has been reported by a worker, and every cancellation is the
consequence of a failure that was recorded before. -/
structure Blame (v : World) (r : Address) (token : Token) : Prop where
  known : ∀ b run e, r <:+ b → v.runs b = some run → run.Knows e →
    ∃ i k, v.workers (i :: b) = some k ∧ k.stage = .reported (.error e)
  caused : ∀ a k e, Below r a → v.workers a = some k → k.Ended (.error e) → e.Own k.node.name ∨
    ∃ below inner, v.runs a = some below ∧ below.collector = .returned (.error inner) ∧
      e = .innerPipeline k.node.name inner
  cancelled : ∀ t ∈ v.cancelled, Unrelated t token ∨
    ∃ c run, r <:+ c ∧ v.runs c = some run ∧ run.token = t ∧ run.failure? ≠ none
  stopped : ∀ i b k e, r <:+ b → v.workers (i :: b) = some k → k.Ended (.error e) →
    e.isCancellation = true → v.Troubled r b
  first : ∀ b run e, r <:+ b → v.runs b = some run → run.failure? = some e →
    e.isCancellation = true → b ≠ r ∧ v.Troubled r b.tail

lemma Troubled.onward (h : v.Troubled r b) (ho : v.Onward u r) : u.Troubled r b := by
  obtain ⟨c, run, hr, hb, hrun, hf⟩ := h
  obtain ⟨run', hrun', hkeeps⟩ := ho.runs c run hr hrun
  obtain ⟨e, he⟩ := Option.ne_none_iff_exists'.1 hf
  exact ⟨c, run', hr, hb, hrun', by simp [hkeeps.failure e he]⟩

/-- A cancelled run has recorded a failure, or a run around it has. -/
lemma Blame.troubled_of_isCancelled (h : v.Blame r token) (hkin : v.Kin r token) (hb : r <:+ b)
    (hrun : v.runs b = some run) (hx : v.isCancelled run.token = true) : v.Troubled r b := by
  obtain ⟨t, ht, hsuf⟩ := isCancelled_eq_true.1 hx
  obtain ⟨ids, hids, -⟩ := hkin.numbers b run hb hrun
  rcases h.cancelled t ht with hun | ⟨c, run', hc, hrun', rfl, hf⟩
  · exact absurd hsuf (hun.not_suffix (hids ▸ List.suffix_append ids token))
  · exact ⟨c, run', hc, hkin.nested b c run run' hb hc hrun hrun' hsuf, hrun', hf⟩

lemma Blame.troubled_of_fault (h : v.Blame r token) (hkin : v.Kin r token) (ht : v.Tree r p)
    {i : Nat} (hb : r <:+ b) (hk : v.workers (i :: b) = some k) (hf : v.Fault (i :: b) k e)
    (he : e.isCancellation = true) : v.Troubled r b := by
  cases hf with
  | own own cause =>
    obtain ⟨run, hrun, hpost⟩ := ht.posted b i k hb hk
    exact h.troubled_of_isCancelled hkin hb hrun (hpost.token ▸ cause he)
  | inside inner_run returned wrapped =>
    subst wrapped
    exact (h.first (i :: b) _ _ (hb.trans (List.suffix_cons i b)) inner_run
      (Run.failure?_of_returned returned) he).2

/-- The first failure that a run records is a cancellation only if a run around it was in trouble
before. -/
lemma Blame.troubled_around (h : v.Blame r token) (hb : r <:+ b) (hrun : v.runs b = some run)
    (hnone : run.failure? = none) (hknows : run.Knows e) (he : e.isCancellation = true) :
    b ≠ r ∧ v.Troubled r b.tail := by
  obtain ⟨i, k, hk, hs⟩ := h.known b run e hb hrun hknows
  obtain ⟨c, run', hc, hcb, hrun', hf⟩ := h.stopped i b k e hb hk (.inr hs) he
  have hne : c ≠ b := by
    rintro rfl
    obtain rfl := Option.some.inj (hrun.symm.trans hrun')
    exact hf hnone
  cases b with
  | nil => exact absurd (List.suffix_nil.1 hcb) hne
  | cons j b =>
    have hcb' : c <:+ b := (List.suffix_cons_iff.1 hcb).resolve_left hne
    refine ⟨?_, c, run', hc, hcb', hrun', hf⟩
    rintro rfl
    exact hne (hcb.eq_of_length_le hc.length_le)

lemma Blame.onward (h : v.Blame r token) (hkin : v.Kin r token) (ht : v.Tree r p)
    (ho : v.Onward u r) (hnew : ∀ t ∈ u.cancelled, t ∈ v.cancelled ∨ Unrelated t token ∨
      ∃ c run, r <:+ c ∧ u.runs c = some run ∧ run.token = t ∧ run.failure? ≠ none) :
    u.Blame r token where
  known b run' e hb hrun' hknows := by
    rcases ho.knows b run' e hb hrun' hknows with ⟨run, hrun, hold⟩ | hnew
    · obtain ⟨i, k, hk, hs⟩ := h.known b run e hb hrun hold
      exact ⟨i, k, ho.reported (i :: b) k _ (below_cons.2 hb) hk hs, hs⟩
    · exact hnew
  caused a k' e ha hk' hended := by
    obtain ⟨k, hk, hnode, hold⟩ := ho.ended a k' e ha hk' hended
    have stays : ∀ below inner, v.runs a = some below →
        below.collector = .returned (.error inner) →
        ∃ below', u.runs a = some below' ∧ below'.collector = .returned (.error inner) := by
      intro below inner hbelow hret
      obtain ⟨below', hbelow', hkeeps⟩ := ho.runs a below ha.suffix hbelow
      exact ⟨below', hbelow', hkeeps.returned _ hret⟩
    rw [hnode]
    rcases hold with hold | ⟨own, -⟩ | ⟨hbelow, hret, he⟩
    · rcases h.caused a k e ha hk hold with hown | ⟨below, inner, hbelow, hret, he⟩
      · exact .inl hown
      · obtain ⟨below', hbelow', hret'⟩ := stays below inner hbelow hret
        exact .inr ⟨below', inner, hbelow', hret', he⟩
    · exact .inl own
    · obtain ⟨below', hbelow', hret'⟩ := stays _ _ hbelow hret
      exact .inr ⟨below', _, hbelow', hret', he⟩
  cancelled t ht := by
    rcases hnew t ht with hold | hun | hnew
    · rcases h.cancelled t hold with hun | ⟨c, run, hc, hrun, htok, hf⟩
      · exact .inl hun
      · obtain ⟨run', hrun', hkeeps⟩ := ho.runs c run hc hrun
        obtain ⟨e, he⟩ := Option.ne_none_iff_exists'.1 hf
        exact .inr ⟨c, run', hc, hrun', hkeeps.token.trans htok, by simp [hkeeps.failure e he]⟩
    · exact .inl hun
    · exact .inr hnew
  stopped i b k' e hb hk' hended he := by
    obtain ⟨k, hk, -, hold⟩ := ho.ended (i :: b) k' e (below_cons.2 hb) hk' hended
    refine Troubled.onward ?_ ho
    rcases hold with hold | hfault
    · exact h.stopped i b k e hb hk hold he
    · exact h.troubled_of_fault hkin ht hb hk hfault he
  first b run' e hb hrun' hf he := by
    obtain ⟨run, hrun, hold⟩ := ho.first b run' e hb hrun' hf
    have htrouble : b ≠ r ∧ v.Troubled r b.tail := by
      rcases hold with hold | ⟨hnone, hknows⟩
      · exact h.first b run e hb hrun hold he
      · exact h.troubled_around hb hrun hnone hknows he
    exact ⟨htrouble.1, htrouble.2.onward ho⟩

/-- A new run has heard of nothing. -/
lemma unaware_of_launched (hv : w.Vacant r) (hl : w.Launched v r p seeds token) (hb : r <:+ b)
    (hrun : v.runs b = some run) : ¬ run.Knows e := by
  have hnew : run.failure? = none ∧ run.mailbox = [] := by
    by_cases hbr : b = r
    · subst hbr
      exact Option.some.inj (hl.run_self.symm.trans hrun) ▸ ⟨rfl, rfl⟩
    · rw [hl.run_old hv hb hbr] at hrun
      cases hrun
  rintro (h | ⟨o, ho, -⟩)
  · rw [hnew.1] at h
    cases h
  · rw [hnew.2] at ho
    cases ho

lemma open_of_launched {result : Except ExecutionError Unit} (hv : w.Vacant r)
    (hl : w.Launched v r p seeds token) (ha : Below r a) (hk : v.workers a = some k) :
    ¬ k.Ended result := by
  by_cases hi : ∃ i, a = i :: r
  · obtain ⟨i, rfl⟩ := hi
    rw [hl.worker_new hv] at hk
    obtain ⟨n, -, rfl⟩ := Option.map_eq_some_iff.1 hk
    exact new_not_ended
  · rw [hl.worker_old hv ha fun i h => hi ⟨i, h⟩] at hk
    cases hk

lemma blame_of_launched (hv : w.Vacant r) (hl : w.Launched v r p seeds token)
    (hclear : ∀ t ∈ w.cancelled, Unrelated t token) : v.Blame r token where
  known _ _ _ hb hrun hknows := absurd hknows (unaware_of_launched hv hl hb hrun)
  caused _ _ _ ha hk hended := absurd hended (open_of_launched hv hl ha hk)
  cancelled t ht := .inl (hclear t (hl.cancelled ▸ ht))
  stopped _ _ _ _ hb hk hended _ := absurd hended (open_of_launched hv hl (below_cons.2 hb) hk)
  first _ _ _ hb hrun hf _ := absurd (.inl hf) (unaware_of_launched hv hl hb hrun)

theorem blame_of_plays {runtime : Bool} {ms : List Move} (hv : w.Vacant r)
    (ho : ∀ x, (w.conduits x).Orderly) (hstart : w.start r p seeds token runtime = .ok w₁)
    (hclear : ∀ t ∈ w.cancelled, Unrelated t token)
    (hplay : w₁.Plays r (Sparing r token) ms v) :
    v.Course r p ∧ v.Kin r token ∧ v.Blame r token := by
  have course := fun {ms v} (h : w₁.Plays r (Sparing r token) ms v) =>
    course_of_plays hv ho hstart (fun _ _ hact => hact.outside) h
  refine ⟨course hplay, ?_⟩
  induction hplay with
  | start =>
    obtain ⟨-, -, hl⟩ := start_eq_ok hstart
    exact ⟨kin_of_launched hv hl, blame_of_launched hv hl hclear⟩
  | move before own step ih =>
    have htree := (course before).tree
    refine ⟨ih.1.step htree own step, ih.2.onward ih.1 htree (onward_of_step htree own step)
      fun t ht => (strikes_of_step own step ht).imp_right ?_⟩
    rintro ⟨b, run, rfl, hstrikes, rfl⟩
    obtain ⟨run', hrun', htok, hf⟩ := hstrikes.failed
    exact .inr ⟨b, run', own, hrun', htok, hf⟩
  | @await ms v before ih =>
    obtain ⟨-, -, -, hx, -⟩ := await_others v r
    exact ⟨ih.1.await, ih.2.onward ih.1 (course before).tree (onward_await v r)
      fun t ht => .inl (hx ▸ ht)⟩
  | others before act ih =>
    exact ⟨ih.1.outside act.outside act.fresh,
      ih.2.onward ih.1 (course before).tree act.outside.onward
        fun t ht => (act.cancelled t ht).imp_right .inl⟩

/-- From the error that a run has recorded, layer by layer, to the worker it comes from. -/
lemma Blame.culprit (h : v.Blame r token) (ht : v.Tree r p) (e : ExecutionError) :
    ∀ {path run around}, v.runs (path ++ r) = some run → run.failure? = some e →
      p.route? path = some around → ∃ path' nodes k,
        p.route? path' = some (around ++ nodes ++ [k.node]) ∧
        (nodes ++ [k.node]).map Node.name = e.trail ∧ Below r (path' ++ r) ∧
        v.workers (path' ++ r) = some k ∧ k.stage = .reported (.error e.core) ∧
        e.core.Own k.node.name := by
  have reporter : ∀ {e path run around}, v.runs (path ++ r) = some run → run.failure? = some e →
      p.route? path = some around → ∃ i k, v.workers (i :: (path ++ r)) = some k ∧
        k.stage = .reported (.error e) ∧ p.route? (i :: path) = some (around ++ [k.node]) := by
    intro e path run around hrun hf hroute
    obtain ⟨i, k, hk, hs⟩ := h.known _ run e (List.suffix_append path r) hrun (.inl hf)
    obtain ⟨run', hrun', hpost⟩ := ht.posted _ i k (List.suffix_append path r) hk
    obtain rfl := Option.some.inj (hrun.symm.trans hrun')
    exact ⟨i, k, hk, hs, Pipeline.route?_cons hroute (ht.level hrun) hpost.node⟩
  induction e with
  | innerPipeline n e ih =>
    intro path run around hrun hf hroute
    obtain ⟨i, k, hk, hs, hroute'⟩ := reporter hrun hf hroute
    have ha : Below r (i :: (path ++ r)) := List.suffix_append path r
    rcases h.caused _ k _ ha hk (.inr hs) with hown | ⟨below, inner, hbelow, hret, heq⟩
    · exact hown.elim
    · obtain ⟨rfl, rfl⟩ : n = k.node.name ∧ e = inner := by simpa using heq
      obtain ⟨path', nodes, k', hpath, hnames, hrest⟩ :=
        ih (show v.runs ((i :: path) ++ r) = some below from hbelow)
          (Run.failure?_of_returned hret) hroute'
      refine ⟨path', k.node :: nodes, k', ?_, ?_, hrest⟩
      · rw [hpath]
        simp
      · rw [List.cons_append, List.map_cons, hnames]
        rfl
  | _ =>
    intro path run around hrun hf hroute
    obtain ⟨i, k, hk, hs, hroute'⟩ := reporter hrun hf hroute
    have ha : Below r (i :: (path ++ r)) := List.suffix_append path r
    rcases h.caused _ k _ ha hk (.inr hs) with hown | ⟨_, _, -, -, heq⟩
    · refine ⟨i :: path, [], k, by simpa using hroute', ?_, ha, hk, ?_, ?_⟩
      · rw [hown.trail_eq]
        rfl
      · rwa [hown.core_eq]
      · rwa [hown.core_eq]
    · cases heq

/-- **The reported error is the root cause.** If nobody cancels a run from outside and its wait
returns an error, that error is no cancellation. Its layers name the nodes from one of the run's
pipeline inwards, each in the pipeline that the one before it wraps, and the innermost error is
what the worker of the last of them ended with on its own account. -/
theorem returned_error_is_root_cause {runtime : Bool} {ms : List Move} (hv : w.Vacant r)
    (ho : ∀ x, (w.conduits x).Orderly) (hstart : w.start r p seeds token runtime = .ok w₁)
    (hclear : ∀ t ∈ w.cancelled, Unrelated t token)
    (hplay : w₁.Plays r (Sparing r token) ms v) (hrun : v.runs r = some run)
    (hret : run.collector = .returned (.error e)) :
    e.isCancellation = false ∧ ∃ path nodes k, p.route? path = some (nodes ++ [k.node]) ∧
      (nodes ++ [k.node]).map Node.name = e.trail ∧ v.workers (path ++ r) = some k ∧
      k.stage = .reported (.error e.core) ∧ e.core.Own k.node.name := by
  obtain ⟨hc, -, h⟩ := blame_of_plays hv ho hstart hclear hplay
  have hf := Run.failure?_of_returned hret
  refine ⟨Bool.eq_false_iff.2 fun he => ?_, ?_⟩
  · exact (h.first r run e List.suffix_rfl hrun hf he).1 rfl
  · obtain ⟨path, nodes, k, hroute, hnames, -, hk, hs, hown⟩ :=
      h.culprit hc.tree e (show v.runs ([] ++ r) = some run from hrun) hf
        (show p.route? [] = some [] from rfl)
    exact ⟨path, nodes, k, by simpa using hroute, hnames, hk, hs, hown⟩

/-- A source that fails. -/
def burst : Pipeline where
  id := 1
  name := "burst"
  options := { validateInputs := false }
  channels := [⟨2, "c", .text⟩]
  nodes := [⟨"bad", [], [⟨2, "c", .text⟩],
    .source (.pure .producer fun _ => .failed (.of "boom"))⟩]

/-- The burst as a composite, and a sink that waits for what nobody sends. -/
def alarm : Pipeline where
  id := 0
  name := "alarm"
  options := { validateInputs := false }
  channels := [⟨3, "d", .text⟩]
  nodes := [⟨"group", [], [], .composite burst⟩,
    ⟨"idle", [⟨3, "d", .text⟩], [], .sink (.pure .function fun _ => .returned .empty)⟩]

/-- Both workers of the alarm end with an error, one of them with a cancellation. What is reported
is the failure inside the composite. -/
theorem alarm_blames_source : ∃ w₁ ms v run e,
    ({ initial with fresh := 10 } : World).start [9] alarm .empty [9] true = .ok w₁ ∧
      w₁.Plays [9] (Sparing [9] [9]) ms v ∧ v.runs [9] = some run ∧
      run.collector = .returned (.error e) ∧
      e = .innerPipeline "group" (.logic "bad" (.of "boom")) ∧
      (∃ k, v.workers [1, 9] = some k ∧
        k.stage = .reported (.error (.channel "idle" (.cancelled "d")))) ∧
      e.isCancellation = false ∧ ∃ path nodes k, alarm.route? path = some (nodes ++ [k.node]) ∧
        (nodes ++ [k.node]).map Node.name = e.trail ∧ v.workers (path ++ [9]) = some k ∧
        k.stage = .reported (.error e.core) ∧ e.core.Own k.node.name := by
  let moves : List Move := [.work [1, 9], .work [0, 9], .work [0, 0, 9], .work [0, 0, 9],
    .collect [0, 9], .conclude [0, 9], .work [0, 9], .work [0, 9], .collect [9], .work [1, 9],
    .work [1, 9], .collect [9], .conclude [9]]
  obtain ⟨w₁, hw⟩ : ∃ w₁, ({ initial with fresh := 10 } : World).start [9] alarm .empty [9] true =
      .ok w₁ := ⟨_, rfl⟩
  obtain ⟨v, run, k, hsteps, hrun, hret, hk, hs⟩ : ∃ v run k,
      (w₁.await [9]).steps moves = some v ∧ v.runs [9] = some run ∧ run.collector =
        .returned (.error (.innerPipeline "group" (.logic "bad" (.of "boom")))) ∧
      v.workers [1, 9] = some k ∧
        k.stage = .reported (.error (.channel "idle" (.cancelled "d"))) := by
    obtain rfl := Except.ok.inj hw
    exact ⟨_, _, _, rfl, rfl, rfl, rfl, rfl⟩
  have hawaited : w₁.Chronicle [9] (Sparing [9] [9]) [] [] (w₁.await [9]) := .await .start
  obtain ⟨ds, hplay⟩ := hawaited.steps (by simp [moves, Move.Of]) hsteps
  have hv : ({ initial with fresh := 10 } : World).Vacant [9] :=
    ⟨fun _ _ => rfl, fun _ _ => rfl, fun _ _ h => by cases h⟩
  exact ⟨w₁, _, v, run, _, hw, hplay.plays, hrun, hret, rfl, ⟨k, hk, hs⟩,
    returned_error_is_root_cause hv orderly_initial hw (fun _ h => by cases h) hplay.plays hrun
      hret⟩

end World

end Dataflow
