import Dataflow.Proofs.Ledger

/-!
Tokens of runs. The run inside a composite gets a child of its worker's token, under a number that
nobody has had before. So tokens are inside each other exactly as their runs are, and whoever
cancels one token reaches that run and the runs inside it, and no other.
-/

namespace Dataflow

/-- Neither of the tokens is an ancestor of the other. -/
def Unrelated (s t : Token) : Prop := ¬ s <:+ t ∧ ¬ t <:+ s

/-- Ancestors of one token are related. -/
lemma Unrelated.not_suffix {s t u : Token} (h : Unrelated s t) (ht : t <:+ u) : ¬ s <:+ u :=
  fun hs => (List.suffix_or_suffix_of_suffix hs ht).elim h.1 h.2

namespace World

variable {w w' v u : World} {r a b : Address} {p inner : Pipeline} {k : Worker} {token : Token}
  {inputs seeds : Payload} {run : Run}

/-! ### Numbers that were not used -/

lemma fresh_seed {entries : List (String × Value)} (h : w.seed p entries = .ok w') :
    w'.fresh = w.fresh := by
  induction entries generalizing w with
  | nil => rw [← Except.ok.inj h]
  | cons e rest ih =>
    obtain ⟨name, x⟩ := e
    rw [seed] at h
    cases hc : p.channel? name with
    | none =>
      rw [hc] at h
      exact ih h
    | some c =>
      rw [hc] at h
      by_cases hx : c.type.accepts x = true
      · simp only [send, Channel.check_eq_ok_iff.2 hx, bind, Except.bind, pure, Except.pure] at h
        exact (ih h).trans rfl
      · simp [send, Channel.check_eq_error (Bool.eq_false_iff.2 hx), bind, Except.bind] at h

lemma fresh_spawnAll (w : World) (r : Address) (token : Token) (limit : Option Duration) (i : Nat)
    (nodes : List Node) : (w.spawnAll r token limit i nodes).fresh = w.fresh := by
  induction nodes generalizing w i with
  | nil => rfl
  | cons n rest ih => exact ih (w.spawn (i :: r) n token limit) (i + 1)

lemma fresh_start {runtime : Bool} (h : w.start r p seeds token runtime = .ok w') :
    w'.fresh = w.fresh := by
  obtain ⟨hnew, hvalid, -⟩ := start_eq_ok h
  cases runtime with
  | false =>
    simp [start, hnew, hvalid, bind, Except.bind, throw, throwThe, MonadExceptOf.throw] at h
  | true =>
    cases hs : (w.markStarted p).seed p seeds.entries with
    | error e => simp [start, hnew, hvalid, hs, bind, Except.bind] at h
    | ok x =>
      simp only [start, hnew, hvalid, hs, bind, Except.bind, pure, Except.pure] at h
      obtain rfl : x.launch r p token = w' := by simpa using h
      have hseed : x.fresh = (w.markStarted p).fresh := fresh_seed hs
      exact (fresh_spawnAll _ _ _ _ _ _).trans hseed

lemma fresh_takeOutputs (w : World) (inner : Pipeline) (got : Payload) (outs : List Channel) :
    (w.takeOutputs inner got outs).2.fresh = w.fresh := by
  induction outs generalizing w got with
  | nil => rfl
  | cons o rest ih =>
    rw [takeOutputs]
    split
    · rfl
    · next c _ =>
      rcases hrec : w.tryReceive c with ⟨_ | x, w₁⟩ <;>
        obtain rfl : w.setConduit c (w.conduit c).tryReceive.2 = w₁ := congrArg Prod.snd hrec
      · rfl
      · exact ih _ _

lemma fresh_await (w : World) (r : Address) : (w.await r).fresh = w.fresh := by
  unfold await
  split
  · split <;> rfl
  · rfl

lemma fresh_leaveStep (h : w.leaveStep a k inner = some w') : w'.fresh = w.fresh := by
  have htake := fresh_takeOutputs w inner .empty k.node.outputs
  unfold leaveStep at h
  split at h
  · exact Option.some.inj h ▸ rfl
  · split at h
    · next ht => exact Option.some.inj h ▸ (by rwa [ht] at htake)
    · next ht => exact Option.some.inj h ▸ (by rwa [ht] at htake)
  · cases h

lemma fresh_enterStep (w : World) (a : Address) (k : Worker) (inner : Pipeline)
    (inputs : Payload) : (w.enterStep a k inner inputs).fresh = w.fresh + 1 := by
  unfold enterStep
  dsimp only [takeFresh, say]
  split
  · rfl
  · next x hx => exact (fresh_await x a).trans (fresh_start hx)

lemma fresh_poll (w : World) (a : Address) (c : Channel) (token : Option Token)
    (expired : Option Duration) : (w.poll a c token expired).2.fresh = w.fresh := by
  obtain ⟨q, hq, -⟩ := poll_eq_setConduit w a c token expired
  rw [hq]
  rfl

lemma fresh_gatherStep {expired : Bool} {got : Payload} {c : Channel} {rest : List Channel}
    (h : w.gatherStep a k expired got c rest = some w') : w'.fresh = w.fresh := by
  have hpoll := fresh_poll w a c (some k.token) (if expired then k.limit else none)
  unfold gatherStep at h
  split at h
  · next hp => exact Option.some.inj h ▸ (by rwa [hp] at hpoll)
  · next hp => exact Option.some.inj h ▸ (by rwa [hp] at hpoll)
  · next hp =>
    split at h
    · cases h
    · exact Option.some.inj h ▸ (by rwa [hp] at hpoll)

/-- Only a composite that goes inside uses up a number. -/
lemma fresh_work? {expired : Bool} (hk : w.workers a = some k)
    (h : w.work? a expired = some w') : w'.fresh = w.fresh ∨ w'.fresh = w.fresh + 1 := by
  unfold work? at h
  simp only [hk] at h
  split at h
  · cases h
  · exact .inl (fresh_gatherStep h)
  · refine Option.some.inj h ▸ .inl ?_
    unfold callStep
    dsimp only
    split <;> rfl
  · exact Option.some.inj h ▸ .inr (fresh_enterStep _ _ _ _ _)
  · exact .inl (fresh_leaveStep h)
  · refine Option.some.inj h ▸ .inl ?_
    unfold checkStep
    split <;> rfl
  · next c x rest total _ =>
    refine Option.some.inj h ▸ .inl ?_
    unfold sendStep
    by_cases hx : c.type.accepts x = true
    · simp only [send, Channel.check_eq_ok_iff.2 hx, bind, Except.bind, pure, Except.pure]
      rfl
    · simp only [send, Channel.check_eq_error (Bool.eq_false_iff.2 hx), bind, Except.bind]
      rfl
  · exact Option.some.inj h ▸ .inl rfl
  · refine Option.some.inj h ▸ .inl ?_
    unfold reportStep
    dsimp only
    split
    · rfl
    · split <;> rfl
  · cases h

lemma fresh_recordFailure (w : World) (run : Run) (node : String) (e : ExecutionError)
    (failure : Option ExecutionError) : (w.recordFailure run node e failure).2.fresh = w.fresh := by
  unfold recordFailure
  split
  · rfl
  · dsimp only
    split
    · rfl
    · split <;> rfl

lemma fresh_collect? (h : w.collect? b = some w') : w'.fresh = w.fresh := by
  unfold collect? at h
  split at h
  · cases h
  · next run _ =>
    split at h
    · split at h
      · exact Option.some.inj h ▸ rfl
      · have hv := congrArg World.fresh (Option.some.inj h)
        exact hv.symm.trans (fresh_recordFailure w run _ _ _)
    · cases h

lemma fresh_conclude? (h : w.conclude? b = some w') : w'.fresh = w.fresh := by
  unfold conclude? at h
  split at h
  · cases h
  · split at h
    · split at h
      · dsimp only at h
        split at h <;> exact Option.some.inj h ▸ rfl
      · cases h
    · cases h

theorem fresh_step {m : Move} (h : w.step? m = some w') : w.fresh ≤ w'.fresh := by
  have work : ∀ {a expired}, w.work? a expired = some w' → w.fresh ≤ w'.fresh := by
    intro a expired h
    obtain ⟨k, hk, -⟩ := stride_of_work? h
    rcases fresh_work? hk h with hf | hf <;> omega
  cases m with
  | work a => exact work h
  | expire a => exact work h
  | collect b => exact (fresh_collect? h).ge
  | conclude b => exact (fresh_conclude? h).ge
  | cancel t => exact Option.some.inj h ▸ Nat.le_refl _

lemma enterStep_of_work? {expired : Bool} (hk : w.workers a = some k)
    (hs : k.stage = .entering inner inputs) (h : w.work? a expired = some w') :
    w.enterStep a k inner inputs = w' := by
  unfold work? at h
  simp only [hk, hs] at h
  exact Option.some.inj h

lemma fresh_of_entering {expired : Bool} (hk : w.workers a = some k)
    (hs : k.stage = .entering inner inputs) (h : w.work? a expired = some w') :
    w'.fresh = w.fresh + 1 := by
  rw [← enterStep_of_work? hk hs h, fresh_enterStep]

/-- The run inside a composite has a child of the worker's token, under a new number. -/
lemma Entered.token_eq {id : Nat} {expired : Bool} (he : w.Entered w' a k inner id inputs)
    (hk : w.workers a = some k) (hs : k.stage = .entering inner inputs)
    (h : w.work? a expired = some w') : id = w.fresh := by
  have hstep := enterStep_of_work? hk hs h
  have hrun := he.run_self
  rw [← hstep] at hrun
  have hself := he.worker_self
  rw [← hstep] at hself
  unfold enterStep at hrun hself
  dsimp only [takeFresh] at hrun hself
  split at hrun
  · next e hx =>
    simp only [hx] at hself
    have := congrArg Worker.stage (Option.some.inj ((update_same _ _ _).symm.trans hself))
    cases this
  · next x hx =>
    obtain ⟨-, -, hl⟩ := start_eq_ok hx
    have hawait : (x.await a).runs a = (x.runs a).map Run.attended := by rw [runs_await, if_pos rfl]
    have hruns : (x.await a).runs a = some ⟨inner, id :: k.token, [], .waiting [] none⟩ := hrun
    rw [hawait, hl.run_self] at hruns
    exact ((List.cons.inj (congrArg Run.token (Option.some.inj hruns))).1).symm

/-! ### Kinship -/

/-- Tokens of runs at and below `r` come from `token` by numbers that have been used, and are
inside each other only as their runs are. -/
structure Kin (v : World) (r : Address) (token : Token) : Prop where
  numbers : ∀ b run, r <:+ b → v.runs b = some run → ∃ ids, run.token = ids ++ token ∧
    ∀ i ∈ ids, i < v.fresh
  nested : ∀ b c run run', r <:+ b → r <:+ c → v.runs b = some run → v.runs c = some run' →
    run'.token <:+ run.token → c <:+ b

/-- Two runs never have one token. -/
lemma Kin.unique {run' : Run} {c : Address} (h : v.Kin r token) (hb : r <:+ b) (hc : r <:+ c)
    (hrun : v.runs b = some run) (hrun' : v.runs c = some run') (htok : run.token = run'.token) :
    b = c :=
  (h.nested c b run' run hc hb hrun' hrun (htok ▸ List.suffix_rfl)).eq_of_length_le
    (h.nested b c run run' hb hc hrun hrun' (htok ▸ List.suffix_rfl)).length_le

lemma Kin.same (h : v.Kin r token) (hfresh : v.fresh ≤ u.fresh)
    (hruns : ∀ b run', r <:+ b → u.runs b = some run' → ∃ run, v.runs b = some run ∧
      run'.token = run.token) : u.Kin r token where
  numbers b run' hb hrun' := by
    obtain ⟨run, hrun, htok⟩ := hruns b run' hb hrun'
    obtain ⟨ids, hids, hlt⟩ := h.numbers b run hb hrun
    exact ⟨ids, htok.trans hids, fun i hi => (hlt i hi).trans_le hfresh⟩
  nested b c run₁ run₂ hb hc h₁ h₂ hsuf := by
    obtain ⟨run, hrun, htok⟩ := hruns b run₁ hb h₁
    obtain ⟨run', hrun', htok'⟩ := hruns c run₂ hc h₂
    exact h.nested b c run run' hb hc hrun hrun' (htok ▸ htok' ▸ hsuf)

lemma Kin.entered (h : v.Kin r token) (ht : v.Tree r p) (ha : Below r a)
    (hk : v.workers a = some k) (he : v.Entered u a k inner v.fresh inputs)
    (hfresh : u.fresh = v.fresh + 1) : u.Kin r token := by
  obtain ⟨i, path, above, rfl, habove, hpost, -⟩ := ht.place ha hk
  have hsuffix : r <:+ path ++ r := List.suffix_append path r
  obtain ⟨ids, hids, hlt⟩ := h.numbers _ above hsuffix habove
  have htok : v.fresh :: k.token = (v.fresh :: ids) ++ token := by rw [hpost.token, hids]; rfl
  have hnew : ∀ b run, r <:+ b → u.runs b = some run →
      (b = i :: (path ++ r) ∧ run.token = v.fresh :: k.token) ∨
        (b ≠ i :: (path ++ r) ∧ v.runs b = some run) := by
    intro b run hb hrun
    by_cases hba : b = i :: (path ++ r)
    · subst hba
      rw [he.run_self] at hrun
      exact .inl ⟨rfl, Option.some.inj hrun ▸ rfl⟩
    · rw [he.run_old hba] at hrun
      exact .inr ⟨hba, hrun⟩
  -- the new number occurs in no token that was there before
  have unused : ∀ b run, r <:+ b → v.runs b = some run → ∀ ids', run.token = ids' ++ token →
      v.fresh ∉ ids' := by
    intro b run hb hrun ids' hids' hmem
    obtain ⟨ids'', hids'', hlt'⟩ := h.numbers b run hb hrun
    obtain rfl := List.append_cancel_right (hids'.symm.trans hids'')
    exact absurd (hlt' _ hmem) (Nat.lt_irrefl _)
  refine ⟨fun b run hb hrun => ?_, fun b c run run' hb hc hrun hrun' hsuf => ?_⟩
  · rcases hnew b run hb hrun with ⟨rfl, hrt⟩ | ⟨-, hold⟩
    · refine ⟨_, hrt.trans htok, fun j hj => ?_⟩
      rcases List.mem_cons.1 hj with rfl | hj
      · omega
      · have := hlt j hj
        omega
    · obtain ⟨ids', hids', hlt'⟩ := h.numbers b run hb hold
      refine ⟨ids', hids', fun j hj => ?_⟩
      have := hlt' j hj
      omega
  · rcases hnew b run hb hrun with ⟨rfl, hrt⟩ | ⟨hba, hold⟩ <;>
      rcases hnew c run' hc hrun' with ⟨rfl, hrt'⟩ | ⟨hca, hold'⟩
    · exact List.suffix_rfl
    · rw [hrt] at hsuf
      rcases List.suffix_cons_iff.1 hsuf with heq | hsuf
      · exact absurd List.mem_cons_self (unused c run' hc hold' _ (heq.trans htok))
      · exact (h.nested _ c above run' hsuffix hc habove hold' (hpost.token ▸ hsuf)).trans
          (List.suffix_cons _ _)
    · obtain ⟨ids', hids', -⟩ := h.numbers b run hb hold
      rw [hrt', htok, hids'] at hsuf
      obtain ⟨before, hbefore⟩ := hsuf
      rw [← List.append_assoc] at hbefore
      have hmem : v.fresh ∈ ids' := List.append_cancel_right hbefore ▸ by simp
      exact absurd hmem (unused b run hb hold _ hids')
    · exact h.nested b c run run' hb hc hold hold' hsuf

/-- A step starts one run inside, or leaves every run that there is its token. -/
lemma tokens_of_step {m : Move} (hm : m.Of r) (hs : v.step? m = some u) :
    (∃ a k inner inputs, Below r a ∧ v.workers a = some k ∧
      v.Entered u a k inner v.fresh inputs ∧ u.fresh = v.fresh + 1) ∨
    ∀ b run', r <:+ b → u.runs b = some run' →
      ∃ run, v.runs b = some run ∧ run'.token = run.token := by
  have work : ∀ {a expired}, Below r a → v.work? a expired = some u →
      (∃ a k inner inputs, Below r a ∧ v.workers a = some k ∧
        v.Entered u a k inner v.fresh inputs ∧ u.fresh = v.fresh + 1) ∨
      ∀ b run', r <:+ b → u.runs b = some run' →
        ∃ run, v.runs b = some run ∧ run'.token = run.token := by
    intro a expired ha hs
    obtain ⟨k, hk, hst⟩ := stride_of_work? hs
    rcases hst.kinds with ⟨inner, inputs, id, stage, entry⟩ | ⟨result, -, told⟩ | ⟨_, _, hsh, -, -⟩
    · obtain rfl := entry.token_eq hk stage hs
      exact .inl ⟨a, k, inner, inputs, ha, hk, entry, fresh_of_entering hk stage hs⟩
    · refine .inr fun b run' hb hrun' => ?_
      rw [told.runs] at hrun'
      cases hr : v.runs a.tail with
      | none =>
        rw [hr, Option.elim_none] at hrun'
        exact ⟨run', hrun', rfl⟩
      | some run₀ =>
        rw [hr, Option.elim_some] at hrun'
        by_cases hb' : b = a.tail
        · subst hb'
          rw [update_same] at hrun'
          exact ⟨run₀, hr, Option.some.inj hrun' ▸ (later_delivered _ _).token⟩
        · rw [update_of_ne hb'] at hrun'
          exact ⟨run', hrun', rfl⟩
    · exact .inr fun b run hb hrun => ⟨run, hsh.runs ▸ hrun, rfl⟩
  have turn : ∀ {c : Address} {run₀ run₁ : Run}, v.runs c = some run₀ → v.Turned u c run₁ →
      run₁.token = run₀.token → ∀ b run', r <:+ b → u.runs b = some run' →
        ∃ run, v.runs b = some run ∧ run'.token = run.token := by
    intro c run₀ run₁ hc ht htok b run' hb hrun'
    rw [ht.runs] at hrun'
    by_cases hbc : b = c
    · subst hbc
      rw [update_same] at hrun'
      exact ⟨run₀, hc, Option.some.inj hrun' ▸ htok⟩
    · rw [update_of_ne hbc] at hrun'
      exact ⟨run', hrun', rfl⟩
  cases m with
  | work a => exact work hm hs
  | expire a => exact work hm hs
  | collect b =>
    cases collected_of_collect? hs with
    | success running collector mailbox result turned => exact .inr (turn running turned rfl)
    | failure running collector mailbox result kept turned => exact .inr (turn running turned rfl)
  | conclude b =>
    obtain ⟨_, _, _, hc⟩ := concluded_of_conclude? hs
    exact .inr (turn hc.running hc.turned rfl)
  | cancel t => exact hm.elim

theorem Kin.step (h : v.Kin r token) (ht : v.Tree r p) {m : Move} (hm : m.Of r)
    (hs : v.step? m = some u) : u.Kin r token := by
  rcases tokens_of_step hm hs with ⟨a, k, inner, inputs, ha, hk, entry, hfresh⟩ | hold
  · exact h.entered ht ha hk entry hfresh
  · exact h.same (fresh_step hs) hold

lemma tokens_await {run' : Run} (h : (v.await r).runs b = some run') :
    ∃ run, v.runs b = some run ∧ run'.token = run.token := by
  rw [runs_await] at h
  split at h
  · obtain ⟨run, hrun, rfl⟩ := Option.map_eq_some_iff.1 h
    exact ⟨run, hrun, run.later_attended.token⟩
  · exact ⟨run', h, rfl⟩

lemma Kin.await (h : v.Kin r token) : (v.await r).Kin r token :=
  h.same (fresh_await v r).ge fun _ _ _ hrun' => tokens_await hrun'

lemma Kin.outside (h : v.Kin r token) (ho : v.Outside r u) (hfresh : v.fresh ≤ u.fresh) :
    u.Kin r token :=
  h.same hfresh fun b run' hb hrun' => ⟨run', ho.runs b hb ▸ hrun', rfl⟩

lemma kin_of_launched (hv : w.Vacant r) (hl : w.Launched v r p seeds token) :
    v.Kin r token := by
  have only : ∀ b run, r <:+ b → v.runs b = some run → b = r ∧ run.token = token := by
    intro b run hb hrun
    by_cases hbr : b = r
    · subst hbr
      rw [hl.run_self] at hrun
      exact ⟨rfl, Option.some.inj hrun ▸ rfl⟩
    · rw [hl.run_old hv hb hbr] at hrun
      cases hrun
  refine ⟨fun b run hb hrun => ⟨[], (only b run hb hrun).2, by simp⟩, ?_⟩
  intro b c run run' hb hc hrun hrun' _
  rw [(only c run' hc hrun').1]
  exact hb

end World

end Dataflow
