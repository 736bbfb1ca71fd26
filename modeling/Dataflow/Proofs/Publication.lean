import Dataflow.Proofs.Boundary

/-!
Publishing sends all or nothing. What a body returned is checked as a whole before the first value
goes out, so a value that does not fit keeps the others back, and a call that fails for whatever
reason has put nothing on the outputs of its node.

Main statements: `publishes_of_checking` (publishing alone), `Called.step` (what every step of a
call preserves) and `publication_all_or_nothing`.
-/

namespace Dataflow

/-- The payload has a value for the channel that the channel's type rejects. -/
def Payload.misfits (produced : Payload) (c : Channel) : Bool :=
  (produced.get? c.name).any fun x => !c.type.accepts x

namespace Node

variable {n : Node} {produced : Payload}

/-- Either all values fit, or the first output with one that does not is named. -/
lemma pair_cases (n : Node) (produced : Payload) (outs : List Channel) :
    (outs.find? produced.misfits = none ∧ ∃ ready, (n.pair produced outs).2 = .ok ready) ∨
      ∃ c x, outs.find? produced.misfits = some c ∧ produced.get? c.name = some x ∧
        (n.pair produced outs).2 = .error (.typeMismatch c.name c.type x.type) := by
  induction outs with
  | nil => exact .inl ⟨rfl, [], rfl⟩
  | cons c rest ih =>
    rw [pair]
    cases hx : produced.get? c.name with
    | none =>
      rw [List.find?_cons_of_neg (by simp [Payload.misfits, hx])]
      exact ih
    | some x =>
      cases hacc : c.type.accepts x with
      | false =>
        rw [List.find?_cons_of_pos (by simp [Payload.misfits, hx, hacc])]
        exact .inr ⟨c, x, rfl, hx, by simp only [Channel.check_eq_error hacc]⟩
      | true =>
        rw [List.find?_cons_of_neg (by simp [Payload.misfits, hx, hacc])]
        simp only [Channel.check_eq_ok_iff.2 hacc]
        rcases ih with ⟨hfits, ready, hready⟩ | ⟨d, y, hd, hy, herr⟩
        · exact .inl ⟨hfits, (c, x) :: ready, by rw [hready]; rfl⟩
        · exact .inr ⟨d, y, hd, hy, by rw [herr]; rfl⟩

/-- What is prepared is all that was produced for the outputs, or the error for the first output
whose value does not fit. -/
lemma prepare_cases (n : Node) (produced : Payload) :
    (n.outputs.find? produced.misfits = none ∧
        (n.prepare produced).2 = .ok (n.restrict produced)) ∨
      ∃ c x, n.outputs.find? produced.misfits = some c ∧ produced.get? c.name = some x ∧
        (n.prepare produced).2 = .error (.typeMismatch c.name c.type x.type) := by
  rcases n.pair_cases produced n.outputs with ⟨hfits, ready, hready⟩ | ⟨c, x, hc, hx, herr⟩
  · have hok : (n.prepare produced).2 = .ok ready := by
      unfold prepare
      rcases hp : n.pair produced n.outputs with ⟨notices, e | ready'⟩ <;> rw [hp] at hready
      · cases hready
      · exact hready
    exact .inl ⟨hfits, (prepare_eq_ok hok).1 ▸ hok⟩
  · refine .inr ⟨c, x, hc, hx, ?_⟩
    unfold prepare
    rcases hp : n.pair produced n.outputs with ⟨notices, e | ready'⟩ <;> rw [hp] at herr
    · exact herr
    · cases herr

lemma mem_restrict {c : Channel} {x : Value} :
    (c, x) ∈ n.restrict produced ↔ c ∈ n.outputs ∧ produced.get? c.name = some x := by
  simp only [restrict, List.mem_filterMap, Option.map_eq_some_iff]
  constructor
  · rintro ⟨d, hd, y, hy, heq⟩
    obtain ⟨rfl, rfl⟩ := Prod.mk.inj heq
    exact ⟨hd, hy⟩
  · rintro ⟨hc, hx⟩
    exact ⟨c, hc, x, hx, rfl⟩

lemma length_restrict (n : Node) (produced : Payload) : (n.restrict produced).length =
    n.outputs.countP fun o => (produced.get? o.name).isSome := by
  rw [restrict, List.length_filterMap_eq_countP]
  simp only [Option.isSome_map]

end Node

namespace World

variable {w v u : World} {a b : Address} {k : Worker} {n : Node} {produced : Payload}
  {expired : Bool} {ds : List Deed} {c o : Channel} {y : Value} {m : Move}
  {ready : List (Channel × Value)} {f : Nat → Conduit Address} {env : World → World → Prop}

/-! ### Publishing alone -/

/-- The conduits after these values were sent, one after the other. -/
def sendAll (ready : List (Channel × Value)) (f : Nat → Conduit Address) :
    Nat → Conduit Address :=
  ready.foldl (fun f e => update f e.1.id ((f e.1.id).send e.2)) f

lemma sendAll_cons (c : Channel) (y : Value) (rest : List (Channel × Value))
    (f : Nat → Conduit Address) : sendAll ((c, y) :: rest) f =
      sendAll rest (update f c.id ((f c.id).send y)) := rfl

lemma sendAll_of_notMem {x : Nat} (h : ∀ e ∈ ready, e.1.id ≠ x) : sendAll ready f x = f x := by
  induction ready generalizing f with
  | nil => rfl
  | cons e rest ih =>
    rw [sendAll_cons, ih fun e' he' => h e' (List.mem_cons_of_mem _ he'),
      update_of_ne (h e List.mem_cons_self).symm]

/-- Where each value has a channel of its own, each channel gets the one value. -/
lemma sendAll_of_mem (hids : (ready.map (·.1.id)).Nodup) (h : (c, y) ∈ ready) :
    sendAll ready f c.id = (f c.id).send y := by
  induction ready generalizing f with
  | nil => cases h
  | cons e rest ih =>
    obtain ⟨d, z⟩ := e
    rw [List.map_cons, List.nodup_cons] at hids
    rw [sendAll_cons]
    rcases List.mem_cons.1 h with heq | h
    · obtain ⟨rfl, rfl⟩ := Prod.mk.inj heq
      rw [sendAll_of_notMem fun e he hid => hids.1 (List.mem_map.2 ⟨e, he, hid⟩), update_same]
    · have hne : c.id ≠ d.id := fun hid => hids.1 (List.mem_map.2 ⟨_, h, hid⟩)
      rw [ih hids.2 h, update_of_ne hne]

/-- A worker that has only fitting values to send sends all of them and has then succeeded. -/
lemma steps_of_sending {total : Nat} (hk : v.workers a = some k)
    (hs : k.stage = .sending ready total) (hfits : ∀ e ∈ ready, e.1.type.accepts e.2 = true) :
    ∃ u, v.steps (List.replicate (ready.length + 1) (.work a)) = some u ∧
      u.workers a = some { k with stage := .ended (.ok ()) } ∧
      u.conduits = sendAll ready v.conduits ∧
      u.journal = v.journal ++ [.nodeCompleted k.node.name k.node.kind.name total none] := by
  induction ready generalizing v k with
  | nil =>
    refine ⟨(v.say (.nodeCompleted k.node.name k.node.kind.name total none)).goTo a k
      (.ended (.ok ())), ?_, update_same _ _ _, rfl, rfl⟩
    simp [steps, step?, work?, hk, hs]
  | cons e rest ih =>
    obtain ⟨c, x⟩ := e
    let sent := (v.setConduit c ((v.conduit c).send x)).goTo a k (.sending rest total)
    have hstep : v.step? (.work a) = some sent := by
      have hacc := Channel.check_eq_ok_iff.2 (hfits _ List.mem_cons_self)
      simp [step?, work?, hk, hs, sendStep, send, hacc, bind, Except.bind, pure, Except.pure, sent]
    obtain ⟨u, hu, hworker, hconduits, hjournal⟩ := ih (v := sent)
      (k := { k with stage := .sending rest total }) (update_same _ _ _) rfl
      fun e he => hfits e (List.mem_cons_of_mem _ he)
    refine ⟨u, ?_, hworker, hconduits, hjournal⟩
    rw [List.length_cons, List.replicate_succ, steps, hstep]
    exact hu

/-- What becomes of the conduits when the worker `k` at `a` publishes what its body produced. -/
structure Publishes (v : World) (a : Address) (k : Worker) (produced : Payload) : Prop where
  refused : ∀ c, k.node.outputs.find? produced.misfits = some c → ∃ x,
    produced.get? c.name = some x ∧ ∀ expired, ∃ u, v.work? a expired = some u ∧
      u.workers a = some { k with
        stage := .ended (.error (.channel k.node.name (.typeMismatch c.name c.type x.type))) } ∧
      u.conduits = v.conduits
  /-- One step to check, one for each value and one for the notice, which has their number. -/
  sent : k.node.outputs.find? produced.misfits = none → ∃ u,
    v.steps (List.replicate ((k.node.restrict produced).length + 2) (.work a)) = some u ∧
      u.workers a = some { k with stage := .ended (.ok ()) } ∧
      (∀ o ∈ k.node.outputs,
        u.conduit o = (produced.get? o.name).elim (v.conduit o) (v.conduit o).send) ∧
      (∀ x, (∀ o ∈ k.node.outputs, (produced.get? o.name).isSome → o.id ≠ x) →
        u.conduits x = v.conduits x) ∧
      u.journal = v.journal ++ (k.node.prepare produced).1 ++
        [.nodeCompleted k.node.name k.node.kind.name
          (k.node.outputs.countP fun o => (produced.get? o.name).isSome) none]

theorem publishes_of_checking (hids : (k.node.outputs.map (·.id)).Nodup)
    (hk : v.workers a = some k) (hs : k.stage = .checking produced) :
    v.Publishes a k produced := by
  have hcheck : ∀ expired, v.work? a expired = some (v.checkStep a k produced) := fun expired => by
    simp only [work?, hk, hs]
  rcases hp : k.node.prepare produced with ⟨notices, result⟩
  rcases k.node.prepare_cases produced with ⟨hfits, hok⟩ | ⟨c, x, hc, hx, herr⟩
  · refine ⟨fun c hc => (by rw [hfits] at hc; cases hc), fun _ => ?_⟩
    obtain rfl : result = .ok (k.node.restrict produced) := by rw [← hok, hp]
    let checked := (v.sayAll notices).goTo a k
      (.sending (k.node.restrict produced) (k.node.restrict produced).length)
    have hstep : v.step? (.work a) = some checked := by
      rw [step?, hcheck, checkStep, hp]
    obtain ⟨u, hu, hworker, hconduits, hjournal⟩ := steps_of_sending (v := checked)
      (k := { k with
        stage := .sending (k.node.restrict produced) (k.node.restrict produced).length })
      (update_same _ _ _) rfl
      (Node.prepare_eq_ok hok).2
    have hready : ((k.node.restrict produced).map (·.1.id)).Nodup := by
      rw [show (fun e : Channel × Value => e.1.id) = (·.id) ∘ Prod.fst from rfl, ← List.map_map]
      exact hids.sublist ((k.node.restrict_sublist produced).map _)
    refine ⟨u, ?_, hworker, fun o ho => ?_, fun x hx => ?_, ?_⟩
    · rw [List.replicate_succ, steps, hstep]
      exact hu
    · rw [conduit, hconduits]
      cases hy : produced.get? o.name with
      | none =>
        refine sendAll_of_notMem fun e he hid => ?_
        obtain ⟨hout, hval⟩ := Node.mem_restrict.1 he
        rw [List.inj_on_of_nodup_map hids hout ho hid, hy] at hval
        cases hval
      | some y => exact sendAll_of_mem hready (Node.mem_restrict.2 ⟨ho, hy⟩)
    · rw [hconduits]
      refine sendAll_of_notMem fun e he hid => ?_
      obtain ⟨hout, hval⟩ := Node.mem_restrict.1 he
      exact hx e.1 hout (by rw [hval]; rfl) hid
    · rw [hjournal, ← Node.length_restrict, hp]
      rfl
  · refine ⟨fun d hd => ?_, fun hfits => (by rw [hc] at hfits; cases hfits)⟩
    obtain rfl := Option.some.inj (hc.symm.trans hd)
    obtain rfl : result = .error (.typeMismatch c.name c.type x.type) := by rw [← herr, hp]
    refine ⟨x, hx, fun expired => ⟨_, hcheck expired, ?_, ?_⟩⟩ <;>
      simp only [checkStep, hp, fail, goTo, setWorker, sayAll, update_same]

/-! ### A call and what it has sent -/

/-- None of the outputs of the node is one of the channels inside. -/
def Enclosed (n : Node) (inner : Pipeline) : Prop :=
  ∀ o ∈ n.outputs, ∀ path q c, inner.level? path = some q → c ∈ q.channels → c.id ≠ o.id

/-- The worker at `a` is about to process `n`, and nothing stands below it. -/
structure Posed (w : World) (a : Address) (n : Node) : Prop where
  addressed : a ≠ []
  worker : ∃ token limit, w.workers a = some (.new n token limit)
  vacant : w.Vacant a
  orderly : ∀ x, (w.conduits x).Orderly

end World

/-- The body of the node has not begun yet. -/
def Stage.Early : Stage → Prop
  | .gathering _ _ => True
  | .calling _ _ => True
  | .entering _ _ => True
  | _ => False

namespace World

variable {w v u : World} {a b : Address} {k : Worker} {n : Node} {produced : Payload}
  {expired : Bool} {ds : List Deed} {c o : Channel} {y : Value} {m : Move}
  {env : World → World → Prop}

/-- A worker goes on to a stage that suits its node, and does not go back. -/
lemma Stride.restaged (hst : v.Stride u a k expired) (hs : k.node.Suits k.stage) :
    ∃ s, u.workers a = some { k with stage := s } ∧ k.node.Suits s ∧
      (s.Early → k.stage.Early) ∧ ∀ q, s = .inside q → k.stage.Early := by
  have on : ∀ {s f}, v.Shift u a k s f → k.node.Suits s → (s.Early → k.stage.Early) →
      (∀ q, s = .inside q → k.stage.Early) → ∃ s, u.workers a = some { k with stage := s } ∧
        k.node.Suits s ∧ (s.Early → k.stage.Early) ∧ ∀ q, s = .inside q → k.stage.Early :=
    fun {s _} hsh hsuits hearly hin => ⟨s, by rw [hsh.workers, update_same], hsuits, hearly, hin⟩
  -- after most steps the body has begun and is not inside
  have late : ∀ {s f}, v.Shift u a k s f → k.node.Suits s → ¬ s.Early → (∀ q, s ≠ .inside q) →
      ∃ s, u.workers a = some { k with stage := s } ∧ k.node.Suits s ∧
        (s.Early → k.stage.Early) ∧ ∀ q, s = .inside q → k.stage.Early :=
    fun hsh hsuits hnot hout => on hsh hsuits (fun h => absurd h hnot) fun q h => absurd h (hout q)
  cases hst with
  | linedUp stage _ _ _ hsh => exact on hsh hs id fun q hq => by rw [stage]; trivial
  | took stage _ _ _ hsh =>
    rw [stage] at hs
    exact on hsh (Node.suits_gather _ ((List.suffix_cons _ _).trans hs.2))
      (fun _ => by rw [stage]; trivial) fun _ _ => by rw [stage]; trivial
  | entered stage _ entry =>
    rw [stage] at hs
    exact ⟨_, entry.worker_self, hs, False.elim, fun _ _ => by rw [stage]; trivial⟩
  | told stage told =>
    exact ⟨.reported _, by rw [told.workers, update_same], trivial, False.elim,
      fun _ h => by cases h⟩
  | foundNothing _ _ _ hsh => exact late hsh trivial id (by simp)
  | gaveUp _ _ hsh => exact late hsh trivial id (by simp)
  | called _ _ hsh => exact late hsh trivial id (by simp)
  | crashed _ _ hsh => exact late hsh trivial id (by simp)
  | refused _ _ hsh => exact late hsh trivial id (by simp)
  | innerFailed _ _ _ hsh => exact late hsh trivial id (by simp)
  | left _ _ _ _ hsh => exact late hsh trivial id (by simp)
  | missed _ _ _ _ hsh => exact late hsh trivial id (by simp)
  | checked _ _ hsh => exact late hsh trivial id (by simp)
  | rejected _ _ hsh => exact late hsh trivial id (by simp)
  | sent _ _ hsh => exact late hsh trivial id (by simp)
  | unsent _ _ hsh => exact late hsh trivial id (by simp)
  | finished _ hsh => exact late hsh trivial id (by simp)

/-- A call of `n` by the worker at `a` at any time. -/
structure Called (v : World) (a : Address) (n : Node) (ds : List Deed) : Prop where
  kept : v.Kept a ds
  orderly : ∀ x, (v.conduits x).Orderly
  worker : ∃ k, v.workers a = some k ∧ k.node = n ∧ n.Suits k.stage ∧
    (k.stage.Early → v.Vacant a)
  below : v.Vacant a ∨ ∃ inner, n.inner? = some inner ∧ v.Course a inner

lemma Posed.called (h : w.Posed a n) : w.Called a n [] := by
  obtain ⟨token, limit, hk⟩ := h.worker
  refine ⟨⟨fun b k hb hk' => ?_, fun _ _ _ => rfl, fun _ hd => by cases hd⟩, h.orderly,
    ⟨_, hk, rfl, Node.suits_gather _ List.suffix_rfl, fun _ => h.vacant⟩, .inl h.vacant⟩
  rcases suffix_cases hb with rfl | hb
  · obtain rfl := Option.some.inj (hk.symm.trans hk')
    exact page_gather rfl rfl
  · rw [h.vacant.workers b hb] at hk'
    cases hk'

lemma Called.others (h : v.Called a n ds) (hout : v.Outside a u)
    (hself : u.workers a = v.workers a) : u.Called a n ds := by
  have hworkers : ∀ b, a <:+ b → u.workers b = v.workers b := fun b hb => by
    rcases suffix_cases hb with rfl | hb
    · exact hself
    · exact hout.workers b hb
  obtain ⟨k, hk, hn, hsuits, hearly⟩ := h.worker
  refine ⟨h.kept.same hworkers, fun x => (hout.conduits x (h.orderly x)).1,
    ⟨k, hself.trans hk, hn, hsuits, fun he => (hearly he).outside h.orderly hout⟩, ?_⟩
  exact h.below.imp (·.outside h.orderly hout) fun ⟨q, hq, hc⟩ => ⟨q, hq, hc.outside hout⟩

lemma Called.own (hwired : n.wiringFault? = none) (ha : a ≠ []) (h : v.Called a n ds)
    (hstep : v.work? a expired = some u) : u.Called a n (ds ++ v.workDeeds a expired) := by
  obtain ⟨k, hk, rfl, hsuits, hearly⟩ := h.worker
  have hst := stride_of_worker hk hstep
  obtain ⟨s, hself, hsuits', hearly', hinside⟩ := hst.restaged hsuits
  have hkept := h.kept.work List.suffix_rfl hk hwired hsuits (fun q inputs hs i => by
    have hvacant := hearly (by rw [hs]; trivial)
    exact hvacant.workers _ (below_cons.2 List.suffix_rfl)) hstep
  have horderly : ∀ x, (u.conduits x).Orderly := fun x => (hst.aside x (h.orderly x)).1
  by_cases hentered : ∃ inner inputs id, v.Entered u a k inner id inputs
  · obtain ⟨inner, inputs, id, he⟩ := hentered
    obtain rfl : s = .inside inner :=
      congrArg Worker.stage (Option.some.inj (hself.symm.trans he.worker_self))
    exact ⟨hkept, horderly, ⟨_, hself, rfl, hsuits', False.elim⟩,
      .inr ⟨inner, hsuits', he.course (hearly (hinside inner rfl)) h.orderly⟩⟩
  · have hout := hst.outside_below ha fun q inputs id he => hentered ⟨q, inputs, id, he⟩
    exact ⟨hkept, horderly, ⟨_, hself, rfl, hsuits', fun he =>
        (hearly (hearly' he)).outside h.orderly hout⟩,
      h.below.imp (·.outside h.orderly hout) fun ⟨q, hq, hc⟩ => ⟨q, hq, hc.outside hout⟩⟩

section

variable (hlaid : ∀ inner, n.inner? = some inner → inner.Laid)
include hlaid

lemma Called.inside (h : v.Called a n ds) (hm : m.Of a) (hs : v.step? m = some u) :
    u.Called a n (ds ++ v.deeds m) := by
  obtain ⟨k, hk, rfl, hsuits, hearly⟩ := h.worker
  have nothing : ¬ v.Vacant a := fun hv => by
    rw [hv.step?_eq_none hm] at hs
    cases hs
  obtain ⟨inner, hinner, hc⟩ := h.below.resolve_left nothing
  obtain ⟨hkept, hself⟩ := h.kept.below (hlaid inner hinner) hc hk hm hs
  exact ⟨hkept, (hc.step hm hs).lines.orderly, ⟨k, hself, rfl, hsuits, fun he =>
    absurd (hearly he) nothing⟩, .inr ⟨inner, hinner, hc.step hm hs⟩⟩

theorem Called.step (hwired : n.wiringFault? = none) (ha : a ≠ []) (h : v.Called a n ds)
    (hm : m.From a) (hs : v.step? m = some u) : u.Called a n (ds ++ v.deeds m) := by
  rcases from_cases hm with (rfl | rfl) | hbelow
  · exact h.own hwired ha hs
  · exact h.own hwired ha hs
  · exact h.inside hlaid hbelow hs

theorem called_of_errand (hwired : n.wiringFault? = none) (hposed : w.Posed a n)
    (henv : ∀ x y, env x y → x.Outside a y ∧ y.workers a = x.workers a)
    (h : w.Errand a env ds v) : v.Called a n ds := by
  induction h with
  | start => exact hposed.called
  | move _ own step ih => exact ih.step hlaid hwired hposed.addressed own step
  | others _ act ih => exact ih.others (henv _ _ act).1 (henv _ _ act).2

/-- What workers below publish goes to channels inside. -/
lemma Called.inward (h : v.Called a n ds) (hc : .sent b c y ∈ ds) (hb : b ≠ a) :
    ∃ inner path q, n.inner? = some inner ∧ inner.level? path = some q ∧ c ∈ q.channels := by
  have hbelow : Below a b := (suffix_cases (h.kept.own _ hc)).resolve_left hb
  rcases h.below with hv | ⟨inner, hinner, hcourse⟩
  · obtain ⟨k, hk⟩ := h.kept.exists_worker hc
    rw [hv.workers b hbelow] at hk
    cases hk
  · obtain ⟨path, q, hlevel, hmem⟩ := h.kept.inward (hlaid inner hinner) hcourse hbelow hc
    exact ⟨inner, path, q, hinner, hlevel, hmem⟩

/-- A step of a call leaves an output of the node alone, unless the worker itself sends there. -/
lemma Called.conduit_step (hids : (n.channels.map (·.id)).Nodup)
    (henclosed : ∀ inner, n.inner? = some inner → Enclosed n inner) (h : v.Called a n ds)
    (ho : o ∈ n.outputs) (hm : m.From a) (hs : v.step? m = some u) :
    u.conduits o.id = v.conduits o.id ∨ ∃ y, .sent a o y ∈ v.deeds m := by
  obtain ⟨k, hk, rfl, hsuits, -⟩ := h.worker
  have hmem := List.mem_append_right k.node.inputs ho
  have own : ∀ {expired}, v.work? a expired = some u →
      u.conduits o.id = v.conduits o.id ∨ ∃ y, .sent a o y ∈ v.workDeeds a expired := by
    intro expired hstep
    have hst := stride_of_worker hk hstep
    rcases hst.conduit_cases hsuits (h.kept.page a k List.suffix_rfl hk) o.id with
      hsame | ⟨c, hc, hid⟩ | ⟨q, hq, c, hc, hid⟩ | ⟨c, y, rest, total, hc, hid, hstage, hacc, -⟩
    · exact .inl hsame
    · rw [Node.channels, List.map_append, List.nodup_append] at hids
      exact absurd hid (hids.2.2 _ (List.mem_map_of_mem hc) _ (List.mem_map_of_mem ho))
    · exact absurd hid (henclosed q hq o ho [] q c rfl hc)
    · obtain rfl := List.inj_on_of_nodup_map hids (List.mem_append_right _ hc) hmem hid
      exact .inr ⟨y, (sent_mem_workDeeds hk).2 ⟨rfl, hacc, rest, total, hstage⟩⟩
  rcases from_cases hm with (rfl | rfl) | hbelow
  · exact own hs
  · exact own hs
  rcases h.below with hv | ⟨inner, hinner, hc⟩
  · rw [hv.step?_eq_none hbelow] at hs
    cases hs
  rcases hc.conduit_cases (hlaid inner hinner) (fun b k' hb => h.kept.page b k' hb.suffix) hbelow hs
    o.id with hsame | ⟨path, q, c, hlevel, hmem, hid⟩
  · exact .inl hsame
  · exact absurd hid (henclosed inner hinner o ho path q c hlevel hmem)

/-- As long as the worker itself has sent nothing, its outputs are as they were. -/
lemma conduit_of_errand (hwired : n.wiringFault? = none) (hids : (n.channels.map (·.id)).Nodup)
    (henclosed : ∀ inner, n.inner? = some inner → Enclosed n inner) (hposed : w.Posed a n)
    (henv : ∀ x y, env x y → x.Outside a y ∧ y.workers a = x.workers a) (ho : o ∈ n.outputs)
    (hspared : ∀ x y, env x y → y.conduit o = x.conduit o) (h : w.Errand a env ds v)
    (hnone : (diary ds a).sent = []) : v.conduit o = w.conduit o := by
  induction h with
  | start => rfl
  | @move ds v u m before own step ih =>
    rw [diary_append, Diary.append_def] at hnone
    obtain ⟨hbefore, hnow⟩ := List.append_eq_nil_iff.1 hnone
    have hcalled := called_of_errand hlaid hwired hposed henv before
    refine Eq.trans ?_ (ih hbefore)
    rcases hcalled.conduit_step hlaid hids henclosed ho own step with hsame | ⟨y, hy⟩
    · exact hsame
    · have hsent := mem_diary_sent.2 hy
      rw [hnow] at hsent
      cases hsent
  | others _ act ih => exact (hspared _ _ act).trans (ih hnone)

end

/-- What a call of `n` by the worker at `a`, which began in `w`, has done to the outputs of the node
by now. -/
structure Discreet (w v : World) (env : World → World → Prop) (a : Address) (n : Node)
    (ds : List Deed) : Prop where
  /-- A send that is due has nothing to refuse. -/
  fits : ∀ k c x rest total, v.workers a = some k → k.stage = .sending ((c, x) :: rest) total →
    c.type.accepts x = true
  succeeded : ∀ k, v.workers a = some k → k.Ended (.ok ()) →
    ∃ result, Worked n (diary ds a) result ∧ (diary ds a).sent = n.restrict result
  silent : ∀ k e, v.workers a = some k → k.Ended (.error e) → ∀ o ∈ n.outputs,
    (∀ b c x, .sent b c x ∈ ds → c.id ≠ o.id) ∧
      ((∀ x y, env x y → y.conduit o = x.conduit o) → v.conduit o = w.conduit o)

/-- **Publication is all or nothing.** A worker that publishes ends with an error exactly if some
output has a value that its channel's type rejects; the error names the first such output, and no
channel has changed. Otherwise each output that is there gets its one value, no other channel
changes, and the number of these values is what the notice gives. In a call of the node, whoever
else is at work, no send is ever refused, and when the call fails, for whatever reason, neither the
worker nor anybody below it has sent anything to an output, provided that no output is one of the
channels inside. -/
theorem publication_all_or_nothing (hwired : n.wiringFault? = none)
    (hids : (n.channels.map (·.id)).Nodup) :
    (∀ (v : World) (a : Address) (k : Worker) (produced : Payload), v.workers a = some k →
      k.node = n → k.stage = .checking produced → v.Publishes a k produced) ∧
    ∀ (w v : World) (env : World → World → Prop) (a : Address) (ds : List Deed),
      (∀ inner, n.inner? = some inner → inner.Laid ∧ Enclosed n inner) → w.Posed a n →
      (∀ x y, env x y → x.Outside a y ∧ y.workers a = x.workers a) →
      w.Errand a env ds v → w.Discreet v env a n ds := by
  refine ⟨fun v a k produced hk hn hs => publishes_of_checking ?_ hk hs,
    fun w v env a ds hinner hposed henv h => ?_⟩
  · rw [Node.channels, List.map_append, List.nodup_append] at hids
    exact hn ▸ hids.2.1
  have hlaid := fun inner hi => (hinner inner hi).1
  have henclosed := fun inner hi => (hinner inner hi).2
  have hcalled := called_of_errand hlaid hwired hposed henv h
  have page : ∀ {k}, v.workers a = some k → k.node = n ∧ Page k.node (diary ds a) k.stage := by
    intro k hk
    obtain ⟨k', hk', hn, -⟩ := hcalled.worker
    exact ⟨Option.some.inj (hk.symm.trans hk') ▸ hn, hcalled.kept.page a k List.suffix_rfl hk⟩
  refine ⟨fun k c x rest total hk hs => ?_, fun k hk hended => ?_, fun k e hk hended o ho => ?_⟩
  · obtain ⟨-, hpage⟩ := page hk
    rw [hs] at hpage
    obtain ⟨-, -, -, -, hall⟩ := hpage
    exact hall _ List.mem_cons_self
  · obtain ⟨hn, hpage⟩ := page hk
    rcases hended with hs | hs <;> rw [hs] at hpage <;> exact hn ▸ hpage.1
  · obtain ⟨-, hpage⟩ := page hk
    have hnone : (diary ds a).sent = [] := by
      rcases hended with hs | hs <;> rw [hs] at hpage <;> exact hpage.1.2
    refine ⟨fun b c x hx hid => ?_, fun hspared => conduit_of_errand hlaid hwired hids henclosed
      hposed henv ho hspared h hnone⟩
    by_cases hb : b = a
    · have hsent := mem_diary_sent.2 (hb ▸ hx)
      rw [hnone] at hsent
      cases hsent
    · obtain ⟨inner, path, q, hi, hlevel, hc⟩ := hcalled.inward hlaid hx hb
      exact henclosed inner hi o ho path q c hlevel hc hid

lemma posed_spawn (n : Node) : (initial.spawn [9] n [9] none).Posed [9] n where
  addressed := by simp
  worker := ⟨_, _, rfl⟩
  vacant := ⟨fun _ _ => rfl, fun b hb => update_of_ne hb.ne, fun _ _ h => by cases h⟩
  orderly := orderly_initial

/-- A source whose first value is right and whose second is not. -/
def mixed : Node := ⟨"mixed", [], [⟨1, "good", .integer⟩, ⟨2, "bad", .integer⟩],
  .source (.pure .producer fun _ =>
    .returned ((Payload.singleton "good" (.integer 1)).insert "bad" (.text "oops")))⟩

/-- The right value is kept back. -/
theorem mixed_keeps_back :
    mixed.wiringFault? = none ∧ (mixed.channels.map (·.id)).Nodup ∧
      (∀ inner, mixed.inner? = some inner → inner.Laid ∧ Enclosed mixed inner) ∧
      (initial.spawn [9] mixed [9] none).Posed [9] mixed ∧ ∃ ds v k e,
      (initial.spawn [9] mixed [9] none).Errand [9] (fun _ _ => False) ds v ∧
      v.workers [9] = some k ∧ k.Ended (.error e) ∧
      e = .channel "mixed" (.typeMismatch "bad" .integer .text) ∧
      ∀ o ∈ mixed.outputs, v.conduit o = initial.conduit o := by
  have hwired : mixed.wiringFault? = none := rfl
  have hids : (mixed.channels.map (·.id)).Nodup := by decide
  have hinner : ∀ inner, mixed.inner? = some inner → inner.Laid ∧ Enclosed mixed inner :=
    fun _ h => by cases h
  have hposed := posed_spawn mixed
  obtain ⟨v, k, hsteps, hk, hs⟩ : ∃ v k, (initial.spawn [9] mixed [9] none).steps [.work [9],
      .work [9]] = some v ∧ v.workers [9] = some k ∧ k.stage = .ended (.error
        (.channel "mixed" (.typeMismatch "bad" .integer .text))) := ⟨_, _, rfl, rfl, rfl⟩
  have hbegin : (initial.spawn [9] mixed [9] none).Errand [9] (fun _ _ => False) []
    (initial.spawn [9] mixed [9] none) := .start
  obtain ⟨ds, h⟩ := hbegin.steps (by simp [Move.From]) hsteps
  have hdiscreet := (publication_all_or_nothing hwired hids).2 _ _ _ _ _ hinner hposed
    (fun _ _ h => h.elim) h
  exact ⟨hwired, hids, hinner, hposed, _, v, k, _, h, hk, .inl hs, rfl, fun o ho =>
    (hdiscreet.silent k _ hk (.inl hs) o ho).2 fun _ _ h => h.elim⟩

/-- A source with two outputs that has a value for the first. -/
def tap : Pipeline where
  id := 0
  name := "tap"
  options := { validateInputs := false }
  channels := [⟨1, "y", .text⟩, ⟨2, "z", .text⟩]
  nodes := [⟨"s", [], [⟨1, "y", .text⟩, ⟨2, "z", .text⟩],
    .source (.pure .producer fun _ => .returned (.singleton "y" (.text "hi")))⟩]

/-- The tap as a node whose outputs are the channels inside. -/
def faucet : Node := ⟨"k", [], [⟨2, "z", .text⟩, ⟨1, "y", .text⟩], .composite tap⟩

/-- A node whose outputs are channels inside may fail after one of them has received a value. -/
theorem faucet_drips :
    initial.composite "k" [] [⟨2, "z", .text⟩, ⟨1, "y", .text⟩] tap = .ok faucet ∧ tap.Laid ∧
      faucet.wiringFault? = none ∧ (faucet.channels.map (·.id)).Nodup ∧
      (initial.spawn [9] faucet [9] none).Posed [9] faucet ∧ ∃ ds v k e,
      (initial.spawn [9] faucet [9] none).Errand [9] (fun _ _ => False) ds v ∧
      v.workers [9] = some k ∧ k.Ended (.error e) ∧
      ∃ o ∈ faucet.outputs, (initial.conduit o).queue = [] ∧
        (v.conduit o).queue = [.text "hi"] := by
  have hlaid : tap.Laid := by
    refine .of_flat ⟨by decide, by decide, by decide, ?_, ?_⟩
      (by simp [Pipeline.Flat, tap, Node.inner?]) <;> simp only [tap, List.forall_mem_cons]
    · exact ⟨rfl, fun _ h => by cases h⟩
    · exact ⟨rfl, fun _ h => by cases h⟩
  have hposed := posed_spawn faucet
  obtain ⟨v, k, hsteps, hk, hs, hq⟩ : ∃ v k, (initial.spawn [9] faucet [9] none).steps [.work [9],
      .work [0, 9], .work [0, 9], .work [0, 9], .work [0, 9], .work [0, 9], .collect [9],
      .conclude [9], .work [9]] = some v ∧ v.workers [9] = some k ∧
      k.stage = .ended (.error (.missingOutput "k" "z")) ∧
      (v.conduits 1).queue = [.text "hi"] := ⟨_, _, rfl, rfl, rfl, rfl⟩
  have hbegin : (initial.spawn [9] faucet [9] none).Errand [9] (fun _ _ => False) []
    (initial.spawn [9] faucet [9] none) := .start
  obtain ⟨ds, h⟩ := hbegin.steps (by simp [Move.From]) hsteps
  exact ⟨by cbv, hlaid, rfl, by decide, hposed, _, v, k, _, h, hk, .inl hs,
    ⟨1, "y", .text⟩, by decide, rfl, hq⟩

end World

end Dataflow
