import Dataflow.Proofs.Blame

/-!
One call of one node. An errand is any order of the steps of one worker, and of the workers and
receivers of the run that it may have started inside, with whatever others do in between. It is
told deed by deed, as a chronicle is.

Main statements: each worker keeps to the channels of its node and of the pipeline that its node
wraps (`Stride.conduit_cases`), and its diary bears out its stage (`Kept.work`).
-/

namespace Dataflow

/-- The moves of the worker at `a` and of the runs below it. -/
def Move.From (a : Address) : Move → Prop
  | .work b => a <:+ b
  | .expire b => a <:+ b
  | .collect b => a <:+ b
  | .conclude b => a <:+ b
  | .cancel _ => False

namespace World

variable {w v u : World} {a b : Address} {k : Worker} {n : Node} {expired : Bool}
  {ds : List Deed} {c : Channel} {y : Value} {p : Pipeline}

/-- Moves of the worker at `a` and of those below it lead from `w` to another world, with these
deeds. In between others may act as `env` allows. -/
inductive Errand (a : Address) (env : World → World → Prop) (w : World) :
    List Deed → World → Prop where
  | start : Errand a env w [] w
  | move {ds : List Deed} {v u : World} {m : Move} (before : Errand a env w ds v)
      (own : m.From a) (step : v.step? m = some u) : Errand a env w (ds ++ v.deeds m) u
  | others {ds : List Deed} {v u : World} (before : Errand a env w ds v) (act : env v u) :
      Errand a env w ds u

lemma Errand.steps {env : World → World → Prop} {ms : List Move} (h : w.Errand a env ds v)
    (hof : ∀ m ∈ ms, m.From a) (hs : v.steps ms = some u) :
    ∃ es, w.Errand a env (ds ++ es) u := by
  induction ms generalizing v ds with
  | nil => exact ⟨[], by simpa using Option.some.inj hs ▸ h⟩
  | cons m rest ih =>
    rw [steps] at hs
    cases hm : v.step? m with
    | none => simp [hm] at hs
    | some v' =>
      simp only [hm] at hs
      obtain ⟨es, hes⟩ := ih (h.move (hof m List.mem_cons_self) hm)
        (fun m' hm' => hof m' (List.mem_cons_of_mem _ hm')) hs
      exact ⟨v.deeds m ++ es, by rwa [← List.append_assoc]⟩

/-- A move is a step of the worker at `a`, or one of the moves below it. -/
lemma from_cases {m : Move} (hm : m.From a) : (m = .work a ∨ m = .expire a) ∨ m.Of a := by
  cases m with
  | work b => exact (suffix_cases hm).imp_left fun h => .inl (congrArg _ h)
  | expire b => exact (suffix_cases hm).imp_left fun h => .inr (congrArg _ h)
  | collect b => exact .inr hm
  | conclude b => exact .inr hm
  | cancel t => exact hm.elim

/-- Below `a` a worker takes a step, or a receiver turns its run and does no deed. -/
lemma below_cases {m : Move} (hm : m.Of a) (hs : v.step? m = some u) :
    (∃ b k expired, Below a b ∧ v.workers b = some k ∧ v.work? b expired = some u ∧
      v.deeds m = v.workDeeds b expired) ∨
    v.deeds m = [] ∧ u.workers = v.workers ∧ u.conduits = v.conduits ∧
      u.started = v.started := by
  have work : ∀ {b expired}, v.work? b expired = some u → ∃ k, v.workers b = some k :=
    fun hs => (stride_of_work? hs).imp fun _ h => h.1
  cases m with
  | work b =>
    obtain ⟨k, hk⟩ := work hs
    exact .inl ⟨b, k, false, hm, hk, hs, rfl⟩
  | expire b =>
    obtain ⟨k, hk⟩ := work hs
    exact .inl ⟨b, k, true, hm, hk, hs, rfl⟩
  | collect b =>
    cases collected_of_collect? hs with
    | success _ _ _ _ turned _ => exact .inr ⟨rfl, turned.workers, turned.conduits, turned.started⟩
    | failure _ _ _ _ _ turned _ =>
      exact .inr ⟨rfl, turned.workers, turned.conduits, turned.started⟩
  | conclude b =>
    obtain ⟨run, _, _, hc⟩ := concluded_of_conclude? hs
    exact .inr ⟨rfl, hc.turned.workers, hc.turned.conduits, hc.turned.started⟩
  | cancel t => exact hm.elim

/-! ### What a worker deals with -/

/-- What a worker is about to send goes to one of its outputs. -/
lemma output_of_sending {d : Diary} {rest : List (Channel × Value)} {total : Nat}
    (hp : Page n d (.sending ((c, y) :: rest) total)) : c ∈ n.outputs := by
  obtain ⟨result, -, hsent, -⟩ := hp
  have hmem : (c, y) ∈ n.restrict result := hsent ▸ by simp
  exact (n.restrict_sublist result).subset (List.mem_map_of_mem hmem)

/-- What a step does to a conduit. A worker deals with its own channels and with those of the
pipeline that its node wraps; to its outputs it only sends. -/
theorem Stride.conduit_cases {d : Diary} (hst : v.Stride u b k expired)
    (hs : k.node.Suits k.stage) (hp : Page k.node d k.stage) (x : Nat) :
    u.conduits x = v.conduits x ∨ (∃ c ∈ k.node.inputs, c.id = x) ∨
      (∃ inner, k.node.inner? = some inner ∧ ∃ c ∈ inner.channels, c.id = x) ∨
      ∃ c y rest total, c ∈ k.node.outputs ∧ c.id = x ∧
        k.stage = .sending ((c, y) :: rest) total ∧ c.type.accepts y = true ∧
        u.conduits x = (v.conduits x).send y := by
  -- a worker that gathers deals with the channel that it needs next
  have gathered : ∀ {got c rest q s}, k.stage = .gathering got (c :: rest) →
      v.Shift u b k s (update v.conduits c.id q) →
      u.conduits x = v.conduits x ∨ ∃ c ∈ k.node.inputs, c.id = x := by
    intro got c rest q s hstage hsh
    rw [hstage] at hs
    by_cases hx : c.id = x
    · exact .inr ⟨c, hs.2.subset List.mem_cons_self, hx⟩
    · exact .inl (by rw [hsh.conduits, update_of_ne (Ne.symm hx)])
  -- one that goes inside or comes out deals with the channels there
  have inside : ∀ {inner f}, k.node.inner? = some inner → u.conduits = f →
      ((∀ c ∈ inner.channels, c.id ≠ x) → f x = v.conduits x) →
      u.conduits x = v.conduits x ∨
        ∃ inner, k.node.inner? = some inner ∧ ∃ c ∈ inner.channels, c.id = x := by
    intro inner f hi hf hsame
    by_cases hx : ∃ c ∈ inner.channels, c.id = x
    · exact .inr ⟨inner, hi, hx⟩
    · exact .inl (hf ▸ hsame fun c hc heq => hx ⟨c, hc, heq⟩)
  have inner_of : ∀ {inner},
      (k.stage = .inside inner ∨ ∃ inputs, k.stage = .entering inner inputs) →
        k.node.inner? = some inner := by
    rintro inner (h | ⟨inputs, h⟩) <;> rwa [h] at hs
  cases hst with
  | linedUp stage _ _ _ hsh => exact (gathered stage hsh).imp_right .inl
  | took stage _ _ _ hsh => exact (gathered stage hsh).imp_right .inl
  | foundNothing stage _ _ hsh => exact (gathered stage hsh).imp_right .inl
  | gaveUp stage _ hsh => exact (gathered stage hsh).imp_right .inl
  | entered stage _ entry =>
    exact (inside (inner_of (.inr ⟨_, stage⟩)) entry.conduits fun hne =>
      Pipeline.sow_of_forall_ne hne _ _).imp_right fun h => .inr (.inl h)
  | left stage _ _ _ hsh =>
    exact (inside (inner_of (.inl stage)) hsh.conduits fun hne =>
      takeOutputs_of_forall_ne hne _ _ _).imp_right fun h => .inr (.inl h)
  | missed stage _ _ _ hsh =>
    exact (inside (inner_of (.inl stage)) hsh.conduits fun hne =>
      takeOutputs_of_forall_ne hne _ _ _).imp_right fun h => .inr (.inl h)
  | @sent c y rest total stage fits hsh =>
    by_cases hx : c.id = x
    · subst hx
      have hout := output_of_sending (stage ▸ hp)
      refine .inr (.inr (.inr ⟨c, y, rest, total, hout, rfl, stage, fits, ?_⟩))
      rw [hsh.conduits, update_same]
      rfl
    · exact .inl (by rw [hsh.conduits, update_of_ne (Ne.symm hx)])
  | told stage told => exact .inl (by rw [told.conduits])
  | _ =>
    have hsh := (by assumption : v.Shift u b k _ v.conduits)
    exact .inl (by rw [hsh.conduits])

/-- Only a worker that is about to send publishes. -/
lemma sent_mem_workDeeds (hk : v.workers b = some k) :
    .sent a c y ∈ v.workDeeds b expired ↔
      a = b ∧ c.type.accepts y = true ∧
        ∃ rest total, k.stage = .sending ((c, y) :: rest) total := by
  have gained : ∀ gains : List (Channel × Value),
      Deed.sent a c y ∉ gains.map fun e => Deed.gained b e.1 e.2 := by
    intro gains hmem
    obtain ⟨e, -, he⟩ := List.mem_map.1 hmem
    cases he
  simp only [workDeeds, hk]
  unfold workerDeeds
  constructor
  · intro hmem
    split at hmem
    · split at hmem <;> simp at hmem
    · simp at hmem
    · split at hmem <;> simp at hmem
    · split at hmem
      · rcases List.mem_append.1 hmem with hmem | hmem
        · exact absurd hmem (gained _)
        · split at hmem <;> simp at hmem
      · simp at hmem
    · next d x rest total hs =>
      split at hmem
      · next hacc =>
        obtain ⟨rfl, rfl, rfl⟩ : a = b ∧ c = d ∧ y = x := by simpa using hmem
        exact ⟨rfl, hacc, rest, total, hs⟩
      · simp at hmem
    · simp at hmem
    · simp at hmem
  · rintro ⟨rfl, hacc, rest, total, hs⟩
    simp [hs, hacc]

lemma conduits_of_sending (hk : v.workers b = some k) {rest : List (Channel × Value)}
    {total : Nat} (hs : k.stage = .sending ((c, y) :: rest) total) (hacc : c.type.accepts y = true)
    (hstep : v.work? b expired = some u) :
    u.conduits = update v.conduits c.id ((v.conduit c).send y) := by
  have hsend : v.sendStep b k total c y rest = u := by simpa [work?, hk, hs] using hstep
  rw [← hsend, sendStep, send, Channel.check_eq_ok_iff.2 hacc]
  rfl

/-! ### What is recorded -/

/-- The diaries of the worker at `a` and of those below it bear out their stages. -/
structure Kept (v : World) (a : Address) (ds : List Deed) : Prop where
  page : ∀ b k, a <:+ b → v.workers b = some k → Page k.node (diary ds b) k.stage
  blank : ∀ b, a <:+ b → v.workers b = none → diary ds b = {}
  own : ∀ d ∈ ds, a <:+ d.actor

lemma Kept.same (h : v.Kept a ds) (hw : ∀ b, a <:+ b → u.workers b = v.workers b) :
    u.Kept a ds where
  page b k hb hk := h.page b k hb (hw b hb ▸ hk)
  blank b hb hn := h.blank b hb (hw b hb ▸ hn)
  own := h.own

theorem Kept.work (h : v.Kept a ds) (hb : a <:+ b) (hk : v.workers b = some k)
    (hw : k.node.wiringFault? = none) (hs : k.node.Suits k.stage)
    (hbare : ∀ inner inputs, k.stage = .entering inner inputs → ∀ i, v.workers (i :: b) = none)
    (hstep : v.work? b expired = some u) : u.Kept a (ds ++ v.workDeeds b expired) := by
  have hdo := doing_of_work? hk hstep
  generalize v.workDeeds b expired = es at hdo
  have hst := stride_of_worker hk hstep
  obtain ⟨s, hself, hpage⟩ := page_of_doing (h.page b k hb hk) hw hs hdo
  have hdiary : ∀ x, x ≠ b → diary (ds ++ es) x = diary ds x := fun x hx => by
    rw [diary_append, diary_of_actors fun d hd heq => hx (heq.symm.trans (hdo.actor d hd)),
      Diary.append_empty]
  refine ⟨fun x k' hx hk' => ?_, fun x hx hn => ?_, fun d hd => ?_⟩
  · by_cases hxb : x = b
    · subst hxb
      obtain rfl := Option.some.inj (hself.symm.trans hk')
      exact hpage
    · rw [hdiary x hxb]
      rcases hst.worker_of_ne hbare hxb with hsame | ⟨hnone, n, token, limit, hnew⟩
      · exact h.page x k' hx (hsame ▸ hk')
      · obtain rfl := Option.some.inj (hnew.symm.trans hk')
        rw [h.blank x hx hnone]
        exact page_gather rfl rfl
  · by_cases hxb : x = b
    · rw [hxb, hself] at hn
      cases hn
    · rw [hdiary x hxb]
      rcases hst.worker_of_ne hbare hxb with hsame | ⟨-, n, token, limit, hnew⟩
      · exact h.blank x hx (hsame ▸ hn)
      · rw [hnew] at hn
        cases hn
  · rcases List.mem_append.1 hd with hd | hd
    · exact h.own d hd
    · rw [hdo.actor d hd]
      exact hb

/-! ### The caller and what is below it -/

/-- In line a step of a worker moves nobody else. -/
lemma Stride.aside (hst : v.Stride u a k expired) (x : Nat) :
    (v.conduits x).Aside a (u.conduits x) := by
  rcases hst.lines with ⟨-, hc⟩ | ⟨_, _, _, q, -, hcs, hq, -⟩
  · exact hc x a
  · exact hcs ▸ aside_update hq x

/-- A step of the worker at `a` that starts no run leaves what is below it alone. -/
lemma Stride.outside_below (ha : a ≠ []) (hst : v.Stride u a k expired)
    (hne : ∀ inner inputs id, ¬ v.Entered u a k inner id inputs) : v.Outside a u := by
  have hcond : ∀ x, (v.conduits x).Orderly → (u.conduits x).Orderly ∧
      ∀ b, Below a b → (b ∈ (u.conduits x).line ↔ b ∈ (v.conduits x).line) := fun x hx =>
    ⟨(hst.aside x hx).1, fun b hb => (hst.aside x hx).2 b hb.ne⟩
  rcases hst.kinds with ⟨inner, inputs, id, -, he⟩ | ⟨result, -, told⟩ | ⟨s, f, hsh, -, -⟩
  · exact absurd he (hne inner inputs id)
  · refine ⟨fun b hb => ?_, fun b hb => ?_, told.cancelled ▸ List.Subset.refl _, hcond⟩
    · rw [told.workers, update_of_ne hb.ne]
    · have htail : b ≠ a.tail := by
        rintro rfl
        have hlen := hb.length_le
        have hpos := List.length_pos_iff.2 ha
        rw [List.length_tail] at hlen
        omega
      rw [told.runs]
      cases v.runs a.tail with
      | none => rfl
      | some run => rw [Option.elim_some, update_of_ne htail]
  · exact ⟨fun b hb => by rw [hsh.workers, update_of_ne hb.ne], fun b _ => by rw [hsh.runs],
      hsh.cancelled ▸ List.Subset.refl _, hcond⟩

/-- Who goes on to any stage but the one inside has started no run. -/
lemma Stride.outside_of_shift (ha : a ≠ []) (hst : v.Stride u a k expired) {s : Stage}
    {f : Nat → Conduit Address} (hsh : v.Shift u a k s f) (hne : ∀ q, s ≠ .inside q) :
    v.Outside a u :=
  hst.outside_below ha fun q inputs id he => by
    have hself := he.worker_self
    rw [hsh.workers, update_same] at hself
    exact hne q (congrArg Worker.stage (Option.some.inj hself))

lemma Stride.outside_of_told (ha : a ≠ []) (hst : v.Stride u a k expired)
    {result : Except ExecutionError Unit} (told : v.Told u a k result) : v.Outside a u :=
  hst.outside_below ha fun q inputs id he => by
    have hself := he.worker_self
    rw [told.workers, update_same] at hself
    cases congrArg Worker.stage (Option.some.inj hself)

lemma Vacant.outside (h : v.Vacant a) (ho : ∀ x, (v.conduits x).Orderly) (hout : v.Outside a u) :
    u.Vacant a where
  runs b hb := (hout.runs b hb).trans (h.runs b hb)
  workers b hb := (hout.workers b hb).trans (h.workers b hb)
  lines x b hx hb := h.lines x b (((hout.conduits x (ho x)).2 b hb).1 hx) hb

/-- Where nothing stands, nothing moves. -/
lemma Vacant.step?_eq_none (h : v.Vacant a) {m : Move} (hm : m.Of a) : v.step? m = none := by
  cases m with
  | work b => simp only [step?, work?, h.workers b hm]
  | expire b => simp only [step?, work?, h.workers b hm]
  | collect b => simp only [step?, collect?, h.runs b hm]
  | conclude b => simp only [step?, conclude?, h.runs b hm]
  | cancel t => exact hm.elim

/-- A composite that goes inside sets a run on its course. -/
lemma Entered.course {inner : Pipeline} {inputs : Payload} {id : Nat}
    (he : v.Entered u a k inner id inputs) (hv : v.Vacant a)
    (ho : ∀ x, (v.conduits x).Orderly) : u.Course a inner := by
  -- but for the composite itself and for the receiver, this is a launch
  let launched : World := { u with
    workers := staff v.workers a inner.nodes (id :: k.token) inner.options.receiveTimeout
    runs := update v.runs a (some ⟨inner, id :: k.token, [], .idle⟩)
    calls := v.calls }
  have hl : v.Launched launched a inner inputs (id :: k.token) :=
    ⟨rfl, rfl, he.conduits, he.started, he.cancelled, rfl⟩
  have hcourse : (launched.await a).Course a inner :=
    ⟨(tree_of_launched hv hl).await, (lines_of_launched hv ho hl).await,
      (hearing_of_launched hv hl).await⟩
  obtain ⟨hworkers, hconduits, -, hcancelled, -⟩ := await_others launched a
  refine hcourse.outside ⟨fun b hb => ?_, fun b hb => ?_, ?_, fun x hx => ?_⟩
  · rw [hworkers, he.workers, update_of_ne hb.ne]
  · rw [runs_await]
    by_cases hba : b = a
    · subst hba
      rw [if_pos rfl, he.run_self, hl.run_self]
      rfl
    · rw [if_neg hba, he.run_old hba]
      exact (update_of_ne hba).symm
  · rw [hcancelled]
    exact List.Subset.refl _
  · rw [hconduits] at hx ⊢
    exact ⟨hx, fun _ _ => Iff.rfl⟩

/-! ### What goes on below -/

section

variable {m : Move}

lemma Kept.exists_worker (h : v.Kept a ds) (hsent : .sent b c y ∈ ds) :
    ∃ k, v.workers b = some k := by
  cases hk : v.workers b with
  | some k => exact ⟨k, rfl⟩
  | none =>
    have hmem := mem_diary_sent.2 hsent
    rw [h.blank b (h.own _ hsent) hk] at hmem
    cases hmem

/-- A move below `a` leaves the worker there where it is. -/
lemma Kept.below (h : v.Kept a ds) (hlaid : p.Laid) (hc : v.Course a p) (hk : v.workers a = some k)
    (hm : m.Of a) (hs : v.step? m = some u) :
    u.Kept a (ds ++ v.deeds m) ∧ u.workers a = some k := by
  rcases below_cases hm hs with ⟨b, k', expired, hb, hk', hstep, hdeeds⟩ | ⟨hdeeds, hws, -⟩
  · have hst := stride_of_worker hk' hstep
    have hbare : ∀ q inputs, k'.stage = .entering q inputs → ∀ i, v.workers (i :: b) = none :=
      fun q inputs hs => hc.tree.workers_of_runs_none hb.suffix (hc.tree.runs_of_entering hb hk' hs)
    obtain ⟨i, path, run, -, -, hpost, hlevel⟩ := hc.tree.place hb hk'
    have hwired := (hlaid.sound _ _ hlevel).wired _ (List.mem_of_getElem? hpost.node)
    refine ⟨hdeeds ▸ h.work hb.suffix hk' hwired (hc.tree.suits b k' hb hk') hbare hstep, ?_⟩
    rcases hst.worker_of_ne hbare hb.ne.symm with hsame | ⟨hnone, -⟩
    · exact hsame.trans hk
    · rw [hk] at hnone
      cases hnone
  · rw [hdeeds, List.append_nil]
    exact ⟨h.same fun b _ => by rw [hws], by rw [hws, hk]⟩

/-- What workers below have published went to channels inside. -/
lemma Kept.inward (h : v.Kept a ds) (hlaid : p.Laid) (hc : v.Course a p) (hb : Below a b)
    (hsent : .sent b c y ∈ ds) : ∃ path q, p.level? path = some q ∧ c ∈ q.channels := by
  obtain ⟨k, hk⟩ := h.exists_worker hsent
  obtain ⟨i, path, run, -, -, hpost, hlevel⟩ := hc.tree.place hb hk
  have hout := (h.page b k hb.suffix hk).proper.sent.subset
    (List.mem_map_of_mem (mem_diary_sent.2 hsent))
  exact ⟨path, _, hlevel, hlaid.output hlevel (List.mem_of_getElem? hpost.node) hout⟩

/-- A move of a run touches no channels but those of its levels. -/
lemma Course.conduit_cases (hc : v.Course a p) (hlaid : p.Laid)
    (hpage : ∀ b k, Below a b → v.workers b = some k → Page k.node (diary ds b) k.stage)
    (hm : m.Of a) (hs : v.step? m = some u) (x : Nat) : u.conduits x = v.conduits x ∨
      ∃ path q c, p.level? path = some q ∧ c ∈ q.channels ∧ c.id = x := by
  rcases below_cases hm hs with ⟨b, k, expired, hb, hk, hstep, -⟩ | ⟨-, -, hcs, -⟩
  · have hst := stride_of_worker hk hstep
    obtain ⟨i, path, run, -, -, hpost, hlevel⟩ := hc.tree.place hb hk
    have hnode := List.mem_of_getElem? hpost.node
    rcases hst.conduit_cases (hc.tree.suits b k hb hk) (hpage b k hb hk) x with
      hsame | ⟨c, hc', hid⟩ | ⟨q, hq, c, hc', hid⟩ | ⟨c, -, -, -, hc', hid, -⟩
    · exact .inl hsame
    · exact .inr ⟨path, _, c, hlevel, hlaid.input hlevel hnode hc', hid⟩
    · exact .inr ⟨i :: path, q, c, Pipeline.level?_cons hlevel hpost.node hq, hc', hid⟩
    · exact .inr ⟨path, _, c, hlevel, hlaid.output hlevel hnode hc', hid⟩
  · exact .inl (congrFun hcs x)

end

end World

end Dataflow
