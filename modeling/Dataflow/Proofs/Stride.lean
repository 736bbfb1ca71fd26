import Dataflow.Proofs.Launch
import Dataflow.Run.Step

/-!
What one move does. Every later argument about moves goes by these cases and looks at no step
function again.

A step of a worker changes its own stage and the conduits that it deals with. Only two steps
reach further: a composite that starts its inner pipeline makes a run and workers, and a worker
that reports leaves its outcome in the mailbox of its run.
-/

namespace Dataflow

namespace World

/-- The worker `k` at `a` has gone on to stage `s` and the conduits are now `f`. Runs, started
pipelines and cancelled tokens are what they were. -/
structure Shift (w w' : World) (a : Address) (k : Worker) (s : Stage)
    (f : Nat → Conduit Address) : Prop where
  workers : w'.workers = update w.workers a (some { k with stage := s })
  conduits : w'.conduits = f
  runs : w'.runs = w.runs
  started : w'.started = w.started
  cancelled : w'.cancelled = w.cancelled

/-- The composite `k` at `a` has started `inner`, and waits for its run. -/
structure Entered (w w' : World) (a : Address) (k : Worker) (inner : Pipeline) (id : Nat)
    (inputs : Payload) : Prop where
  workers : w'.workers = update
    (staff w.workers a inner.nodes (id :: k.token) inner.options.receiveTimeout) a
    (some { k with stage := .inside inner })
  runs : w'.runs = update w.runs a (some ⟨inner, id :: k.token, [], .waiting [] none⟩)
  conduits : w'.conduits = inner.sow inputs.entries w.conduits
  started : w'.started = update w.started inner.id true
  cancelled : w'.cancelled = w.cancelled

/-- The mailbox after a worker has told its run how it ended. -/
def delivered (run : Run) (o : Outcome) : Run :=
  match run.collector with
  | .dropped => run
  | _ => { run with mailbox := run.mailbox ++ [o] }

/-- The worker `k` at `a` has told its run that it ended with `result`. -/
structure Told (w w' : World) (a : Address) (k : Worker) (result : Except ExecutionError Unit) :
    Prop where
  workers : w'.workers = update w.workers a (some { k with stage := .reported result })
  runs : w'.runs = (w.runs a.tail).elim w.runs fun run =>
    update w.runs a.tail (some (delivered run ⟨k.node.name, result⟩))
  conduits : w'.conduits = w.conduits
  started : w'.started = w.started
  cancelled : w'.cancelled = w.cancelled

/-- The steps of the worker `k` at `a`. -/
inductive Stride (w w' : World) (a : Address) (k : Worker) (expired : Bool) : Prop where
  | linedUp {got : Payload} {c : Channel} {rest : List Channel}
      (stage : k.stage = .gathering got (c :: rest)) (alive : w.isCancelled k.token = false)
      (empty : (w.conduit c).usePermit? a = none) (new : a ∉ (w.conduit c).waiting)
      (shift : w.Shift w' a k k.stage (update w.conduits c.id ((w.conduit c).enqueue a)))
  | took {got : Payload} {c : Channel} {rest : List Channel} {q₁ q₂ : Conduit Address}
      {v : Value} (stage : k.stage = .gathering got (c :: rest))
      (alive : w.isCancelled k.token = false)
      (permit : (w.conduit c).usePermit? a = some q₁) (pop : q₁.pop? = some (v, q₂))
      (shift : w.Shift w' a k (k.node.gather (got.insert c.name v) rest)
        (update w.conduits c.id q₂))
  | foundNothing {got : Payload} {c : Channel} {rest : List Channel} {q₁ : Conduit Address}
      (stage : k.stage = .gathering got (c :: rest))
      (permit : (w.conduit c).usePermit? a = some q₁) (pop : q₁.pop? = none)
      (shift : w.Shift w' a k (.ended (.error (.channel k.node.name (.closed c.name))))
        (update w.conduits c.id q₁))
  | gaveUp {got : Payload} {c : Channel} {rest : List Channel} {e : ChannelError}
      (stage : k.stage = .gathering got (c :: rest))
      (why : w.isCancelled k.token = true ∧ e = .cancelled c.name ∨
        expired = true ∧ ∃ d, k.limit = some d ∧ e = .timeout c.name d)
      (shift : w.Shift w' a k (.ended (.error (.channel k.node.name e)))
        (update w.conduits c.id ((w.conduit c).abandon a)))
  | called {logic : Logic} {inputs outputs : Payload} (stage : k.stage = .calling logic inputs)
      (reply : (logic.act w.calls inputs).reply = .returned outputs)
      (shift : w.Shift w' a k (.checking (if k.node.kind = .sink then .empty else outputs))
        w.conduits)
  | crashed {logic : Logic} {inputs : Payload} {e : ExecutionError}
      (stage : k.stage = .calling logic inputs)
      (reply : ∀ outputs, (logic.act w.calls inputs).reply ≠ .returned outputs)
      (shift : w.Shift w' a k (.ended (.error e)) w.conduits)
  | entered {inner : Pipeline} {inputs : Payload} {id : Nat}
      (stage : k.stage = .entering inner inputs) (new : w.started inner.id = false)
      (entry : w.Entered w' a k inner id inputs)
  | refused {inner : Pipeline} {inputs : Payload} {e : GraphError}
      (stage : k.stage = .entering inner inputs)
      (why : w.started inner.id = true ∨ w.validate inner inputs ≠ .ok ())
      (shift : w.Shift w' a k (.ended (.error (.innerSetup k.node.name e))) w.conduits)
  | innerFailed {inner : Pipeline} {run : Run} {e : ExecutionError}
      (stage : k.stage = .inside inner) (inner_run : w.runs a = some run)
      (returned : run.collector = .returned (.error e))
      (shift : w.Shift w' a k (.ended (.error (.innerPipeline k.node.name e))) w.conduits)
  | left {inner : Pipeline} {run : Run} {report : Report} {produced : Payload}
      (stage : k.stage = .inside inner) (inner_run : w.runs a = some run)
      (returned : run.collector = .returned (.ok report))
      (taken : (w.takeOutputs inner .empty k.node.outputs).1 = .ok produced)
      (shift : w.Shift w' a k (.checking produced)
        (w.takeOutputs inner .empty k.node.outputs).2.conduits)
  | missed {inner : Pipeline} {run : Run} {report : Report} {c : String}
      (stage : k.stage = .inside inner) (inner_run : w.runs a = some run)
      (returned : run.collector = .returned (.ok report))
      (taken : (w.takeOutputs inner .empty k.node.outputs).1 = .error c)
      (shift : w.Shift w' a k (.ended (.error (.missingOutput k.node.name c)))
        (w.takeOutputs inner .empty k.node.outputs).2.conduits)
  | checked {produced : Payload} {ready : List (Channel × Value)}
      (stage : k.stage = .checking produced) (fits : (k.node.prepare produced).2 = .ok ready)
      (shift : w.Shift w' a k (.sending ready ready.length) w.conduits)
  | rejected {produced : Payload} {e : ChannelError} (stage : k.stage = .checking produced)
      (misfit : (k.node.prepare produced).2 = .error e)
      (shift : w.Shift w' a k (.ended (.error (.channel k.node.name e))) w.conduits)
  | sent {c : Channel} {v : Value} {rest : List (Channel × Value)} {total : Nat}
      (stage : k.stage = .sending ((c, v) :: rest) total) (fits : c.type.accepts v = true)
      (shift : w.Shift w' a k (.sending rest total)
        (update w.conduits c.id ((w.conduit c).send v)))
  | unsent {c : Channel} {v : Value} {rest : List (Channel × Value)} {total : Nat}
      {e : ChannelError} (stage : k.stage = .sending ((c, v) :: rest) total)
      (misfit : c.type.accepts v = false)
      (shift : w.Shift w' a k (.ended (.error (.channel k.node.name e))) w.conduits)
  | finished {total : Nat} (stage : k.stage = .sending [] total)
      (shift : w.Shift w' a k (.ended (.ok ())) w.conduits)
  | told {result : Except ExecutionError Unit} (stage : k.stage = .ended result)
      (told : w.Told w' a k result)

variable {w w' : World} {a : Address} {k : Worker} {expired : Bool}

lemma update_self {α : Type} {β : Type} [DecidableEq α] {f : α → β} {x : α} {y : β}
    (h : f x = y) : update f x y = f := by
  funext z
  by_cases hz : z = x
  · rw [hz, update_same, h]
  · rw [update_of_ne hz]

lemma stride_gather {got : Payload} {c : Channel} {rest : List Channel}
    (hk : w.workers a = some k) (hs : k.stage = .gathering got (c :: rest))
    (h : w.gatherStep a k expired got c rest = some w') : w.Stride w' a k expired := by
  unfold gatherStep poll at h
  cases hx : w.isCancelled k.token with
  | true =>
    simp only [Option.any_some, hx, if_true, Option.some.injEq] at h
    subst h
    exact .gaveUp hs (.inl ⟨hx, rfl⟩) ⟨rfl, rfl, rfl, rfl, rfl⟩
  | false =>
    cases hu : (w.conduit c).usePermit? a with
    | some q₁ =>
      cases hp : q₁.pop? with
      | some r =>
        obtain ⟨v, q₂⟩ := r
        simp only [Option.any_some, hx, hu, hp, Bool.false_eq_true, if_false,
          Option.some.injEq] at h
        subst h
        exact .took hs hx hu hp ⟨rfl, rfl, rfl, rfl, rfl⟩
      | none =>
        simp only [Option.any_some, hx, hu, hp, Bool.false_eq_true, if_false,
          Option.some.injEq] at h
        subst h
        exact .foundNothing hs hu hp ⟨rfl, rfl, rfl, rfl, rfl⟩
    | none =>
      cases hl : (if expired then k.limit else none) with
      | some d =>
        simp only [Option.any_some, hx, hu, hl, Bool.false_eq_true, if_false,
          Option.some.injEq] at h
        subst h
        cases expired with
        | false => simp at hl
        | true => exact .gaveUp hs (.inr ⟨rfl, d, by simpa using hl, rfl⟩) ⟨rfl, rfl, rfl, rfl, rfl⟩
      | none =>
        simp only [Option.any_some, hx, hu, hl, Bool.false_eq_true, if_false] at h
        by_cases hw : a ∈ (w.conduit c).waiting
        · simp [inLine, hw] at h
        · simp only [inLine, hw, decide_false, Bool.false_eq_true, if_false,
            Option.some.injEq] at h
          subst h
          exact .linedUp hs hx hu hw ⟨(update_self hk).symm, rfl, rfl, rfl, rfl⟩

lemma stride_call {logic : Logic} {inputs : Payload} (hs : k.stage = .calling logic inputs) :
    w.Stride (w.callStep a k logic inputs) a k expired := by
  unfold callStep
  cases hr : (logic.act w.calls inputs).reply with
  | returned outputs =>
    simp only [hr]
    exact .called hs hr ⟨rfl, rfl, rfl, rfl, rfl⟩
  | failed f =>
    simp only [hr]
    exact .crashed hs (fun _ h => by simp [hr] at h) ⟨rfl, rfl, rfl, rfl, rfl⟩
  | panicked payload =>
    simp only [hr]
    exact .crashed hs (fun _ h => by simp [hr] at h) ⟨rfl, rfl, rfl, rfl, rfl⟩

lemma stride_enter {inner : Pipeline} {inputs : Payload}
    (hs : k.stage = .entering inner inputs) :
    w.Stride (w.enterStep a k inner inputs) a k expired := by
  unfold enterStep
  generalize hv : (w.say (.compositeEntered k.node.name inner.name)).takeFresh = r
  obtain ⟨id, v⟩ := r
  obtain rfl : ({ w.say (.compositeEntered k.node.name inner.name) with fresh := w.fresh + 1 } :
    World) = v := congrArg Prod.snd hv
  simp only
  cases hstart : World.start _ a inner inputs (id :: k.token) true with
  | error e =>
    have hwhy := start_eq_error hstart
    exact .refused hs hwhy ⟨rfl, rfl, rfl, rfl, rfl⟩
  | ok u =>
    obtain ⟨hnew, -, hu⟩ := start_eq_ok hstart
    have hrun : u.runs a = some ⟨inner, id :: k.token, [], .idle⟩ := by rw [hu.runs, update_same]
    have hawait : u.await a = u.setRun a ⟨inner, id :: k.token, [], .waiting [] none⟩ := by
      simp [await, hrun]
    have entry : w.Entered ((u.await a).goTo a k (.inside inner)) a k inner id inputs := by
      rw [hawait]
      refine ⟨?_, ?_, hu.conduits, hu.started, hu.cancelled⟩
      · simp only [goTo, setWorker, setRun, hu.workers]
        rfl
      · simp only [goTo, setWorker, setRun, hu.runs]
        funext x
        by_cases hx : x = a
        · simp [hx]
        · simp [update_of_ne hx, say]
    exact .entered hs hnew entry

lemma stride_leave {inner : Pipeline} (hs : k.stage = .inside inner)
    (h : w.leaveStep a k inner = some w') : w.Stride w' a k expired := by
  unfold leaveStep at h
  cases hr : w.runs a with
  | none => simp [hr] at h
  | some run =>
    obtain ⟨hworkers, hruns, hstarted, hcancelled, -⟩ :=
      takeOutputs_others w inner .empty k.node.outputs
    cases hc : run.collector with
    | idle => simp [hr, hc] at h
    | waiting _ _ => simp [hr, hc] at h
    | dropped => simp [hr, hc] at h
    | returned result =>
      cases result with
      | error e =>
        simp only [hr, hc, Option.map_some, Option.some.injEq] at h
        subst h
        exact .innerFailed hs hr hc ⟨rfl, rfl, rfl, rfl, rfl⟩
      | ok report =>
        simp only [hr, hc, Option.map_some] at h
        rcases ht : w.takeOutputs inner .empty k.node.outputs with ⟨c | produced, u⟩ <;>
          simp only [ht, Option.some.injEq] at h hworkers hruns hstarted hcancelled <;> subst h
        · exact .missed hs hr hc (by rw [ht])
            ⟨by rw [← hworkers]; rfl, by rw [ht]; rfl, hruns, hstarted, hcancelled⟩
        · exact .left hs hr hc (by rw [ht])
            ⟨by rw [← hworkers]; rfl, by rw [ht]; rfl, hruns, hstarted, hcancelled⟩

lemma stride_check {produced : Payload} (hs : k.stage = .checking produced) :
    w.Stride (w.checkStep a k produced) a k expired := by
  unfold checkStep
  rcases hp : k.node.prepare produced with ⟨notices, e | ready⟩
  · exact .rejected hs (by rw [hp]) ⟨rfl, rfl, rfl, rfl, rfl⟩
  · exact .checked hs (by rw [hp]) ⟨rfl, rfl, rfl, rfl, rfl⟩

lemma stride_send {c : Channel} {v : Value} {rest : List (Channel × Value)} {total : Nat}
    (hs : k.stage = .sending ((c, v) :: rest) total) :
    w.Stride (w.sendStep a k total c v rest) a k expired := by
  unfold sendStep
  cases hv : c.type.accepts v with
  | true =>
    simp only [send, Channel.check_eq_ok_iff.2 hv, bind, Except.bind, pure, Except.pure]
    exact .sent hs hv ⟨rfl, rfl, rfl, rfl, rfl⟩
  | false =>
    simp only [send, Channel.check_eq_error hv, bind, Except.bind]
    exact .unsent hs hv ⟨rfl, rfl, rfl, rfl, rfl⟩

lemma stride_report {result : Except ExecutionError Unit} (hs : k.stage = .ended result) :
    w.Stride (w.reportStep a k result) a k expired := by
  refine .told hs ?_
  unfold reportStep
  have hruns : (w.goTo a k (.reported result)).runs a.tail = w.runs a.tail := rfl
  cases hr : w.runs a.tail with
  | none =>
    simp only [hruns, hr]
    exact ⟨rfl, by simp only [hr]; rfl, rfl, rfl, rfl⟩
  | some run =>
    cases hc : run.collector with
    | dropped =>
      simp only [hruns, hr, hc]
      refine ⟨rfl, ?_, rfl, rfl, rfl⟩
      simp only [hr, Option.elim_some, delivered, hc]
      exact (update_self hr).symm
    | idle =>
      simp only [hruns, hr, hc]
      refine ⟨rfl, ?_, rfl, rfl, rfl⟩
      simp only [hr, Option.elim_some, delivered, hc]
      rfl
    | waiting _ _ =>
      simp only [hruns, hr, hc]
      refine ⟨rfl, ?_, rfl, rfl, rfl⟩
      simp only [hr, Option.elim_some, delivered, hc]
      rfl
    | returned _ =>
      simp only [hruns, hr, hc]
      refine ⟨rfl, ?_, rfl, rfl, rfl⟩
      simp only [hr, Option.elim_some, delivered, hc]
      rfl

/-- **Every step of a worker** is one of these strides. -/
theorem stride_of_work? (h : w.work? a expired = some w') :
    ∃ k, w.workers a = some k ∧ w.Stride w' a k expired := by
  unfold work? at h
  cases hk : w.workers a with
  | none => simp [hk] at h
  | some k =>
    refine ⟨k, rfl, ?_⟩
    simp only [hk] at h
    split at h
    · cases h
    · next hs => exact stride_gather hk hs h
    · next hs => exact Option.some.inj h ▸ stride_call hs
    · next hs => exact Option.some.inj h ▸ stride_enter hs
    · next hs => exact stride_leave hs h
    · next hs => exact Option.some.inj h ▸ stride_check hs
    · next hs => exact Option.some.inj h ▸ stride_send hs
    · next hs => exact Option.some.inj h ▸ .finished hs ⟨rfl, rfl, rfl, rfl, rfl⟩
    · next hs => exact Option.some.inj h ▸ stride_report hs
    · cases h

lemma stride_of_worker (hk : w.workers a = some k) (h : w.work? a expired = some w') :
    w.Stride w' a k expired := by
  obtain ⟨k', hk', hst⟩ := stride_of_work? h
  obtain rfl := Option.some.inj (hk.symm.trans hk')
  exact hst

/-! ### The receiver of a run -/

/-- The run at `r` is now `run`; workers, conduits and started pipelines are what they were. -/
structure Turned (w w' : World) (r : Address) (run : Run) : Prop where
  runs : w'.runs = update w.runs r (some run)
  workers : w'.workers = w.workers
  conduits : w'.conduits = w.conduits
  started : w'.started = w.started

/-- What looking at the next outcome does. The first failure stays the first, and under `failFast`
it cancels the run. -/
inductive Collected (w w' : World) (r : Address) : Prop where
  | success {run : Run} {completed : List String} {failure : Option ExecutionError} {o : Outcome}
      {rest : List Outcome} (running : w.runs r = some run)
      (collector : run.collector = .waiting completed failure) (mailbox : run.mailbox = o :: rest)
      (result : o.result = .ok ())
      (turned : w.Turned w' r
        { run with mailbox := rest, collector := .waiting (completed ++ [o.node]) failure })
      (cancelled : w'.cancelled = w.cancelled)
  | failure {run : Run} {completed : List String} {failure : Option ExecutionError} {o : Outcome}
      {rest : List Outcome} {e first : ExecutionError} (running : w.runs r = some run)
      (collector : run.collector = .waiting completed failure) (mailbox : run.mailbox = o :: rest)
      (result : o.result = .error e) (kept : first = failure.getD e)
      (turned : w.Turned w' r
        { run with mailbox := rest, collector := .waiting completed (some first) })
      (cancelled : w'.cancelled = w.cancelled ∧ (failure = none →
          run.pipeline.options.failureStrategy = .failFast → w.isCancelled run.token = true) ∨
        w'.cancelled = w.cancelled ++ [run.token])

theorem collected_of_collect? {r : Address} (h : w.collect? r = some w') :
    w.Collected w' r := by
  unfold collect? at h
  cases hr : w.runs r with
  | none => simp [hr] at h
  | some run =>
    simp only [hr] at h
    split at h
    · next completed failure o rest hc hm =>
      split at h
      · next ho =>
        exact .success hr hc hm ho (Option.some.inj h ▸ ⟨rfl, rfl, rfl, rfl⟩)
          (Option.some.inj h ▸ rfl)
      · next e ho =>
        refine Option.some.inj h ▸ ?_
        unfold recordFailure
        cases failure with
        | some first =>
          by_cases he : e.isCancellation = true
          · simp only [Option.isSome_some, he, Bool.and_self, if_true]
            exact .failure hr hc hm ho rfl ⟨rfl, rfl, rfl, rfl⟩ (.inl ⟨rfl, by simp⟩)
          · simp only [Option.isSome_some, he, Bool.and_false, Bool.false_eq_true, if_false]
            exact .failure hr hc hm ho rfl ⟨rfl, rfl, rfl, rfl⟩ (.inl ⟨rfl, by simp⟩)
        | none =>
          simp only [Option.isSome_none, Bool.false_and, Bool.false_eq_true, if_false]
          by_cases hf : run.pipeline.options.failureStrategy = .failFast
          · cases hx : w.isCancelled run.token with
            | true =>
              have hx' : (w.say (.nodeFailed o.node e.message false)).isCancelled run.token
                  = true := hx
              simp only [hf, hx', decide_true, Bool.not_true, Bool.and_false, Bool.false_eq_true,
                if_false]
              exact .failure hr hc hm ho rfl ⟨rfl, rfl, rfl, rfl⟩ (.inl ⟨rfl, fun _ _ => hx⟩)
            | false =>
              have hx' : (w.say (.nodeFailed o.node e.message false)).isCancelled run.token
                  = false := hx
              simp only [hf, hx', decide_true, Bool.not_false, Bool.and_self, if_true]
              exact .failure hr hc hm ho rfl ⟨rfl, rfl, rfl, rfl⟩ (.inr rfl)
          · simp only [hf, decide_false, Bool.false_and, Bool.false_eq_true, if_false]
            exact .failure hr hc hm ho rfl ⟨rfl, rfl, rfl, rfl⟩
              (.inl ⟨rfl, fun _ h => absurd h hf⟩)
    · cases h

/-- What the end of a wait does. -/
structure Concluded (w w' : World) (r : Address) (run : Run) (completed : List String)
    (failure : Option ExecutionError) : Prop where
  running : w.runs r = some run
  collector : run.collector = .waiting completed failure
  mailbox : run.mailbox = []
  reported : w.allReported r run = true
  turned : w.Turned w' r { run with
    collector := .returned (failure.elim (.ok ⟨run.pipeline.name, completed⟩) .error) }
  cancelled : w'.cancelled = w.cancelled

theorem concluded_of_conclude? {r : Address} (h : w.conclude? r = some w') :
    ∃ run completed failure, w.Concluded w' r run completed failure := by
  unfold conclude? at h
  cases hr : w.runs r with
  | none => simp [hr] at h
  | some run =>
    simp only [hr] at h
    split at h
    · next completed failure hc hm =>
      split at h
      · next ha =>
        refine ⟨run, completed, failure, ?_⟩
        cases failure <;>
          exact ⟨hr, hc, hm, ha, Option.some.inj h ▸ ⟨rfl, rfl, rfl, rfl⟩, Option.some.inj h ▸ rfl⟩
      · cases h
    · cases h

end World

end Dataflow
