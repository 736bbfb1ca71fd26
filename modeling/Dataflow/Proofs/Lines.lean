import Dataflow.Proofs.Tree

/-!
Who is in line. Every conduit stays orderly, and a worker of the run is in line only on the
channel whose value it needs next.
-/

namespace Dataflow.World

variable {w w' : World} {r a : Address} {p : Pipeline} {k : Worker}

/-- All conduits are orderly, and those at or below `r` who are in line gather from there. -/
structure Lines (w : World) (r : Address) : Prop where
  orderly : ∀ x, (w.conduits x).Orderly
  member : ∀ x, ∀ a ∈ (w.conduits x).line, Below r a → ∃ k got c rest,
    w.workers a = some k ∧ k.stage = .gathering got (c :: rest) ∧ c.id = x

/-- Only its own gathering moves a worker in a line; every step leaves the others there. -/
lemma Stride.lines {expired : Bool} (hst : w.Stride w' a k expired) :
    ((∀ got rest, k.stage ≠ .gathering got rest) ∧
        ∀ x o, (w.conduits x).Aside o (w'.conduits x)) ∨
      ∃ got c rest q, k.stage = .gathering got (c :: rest) ∧
        w'.conduits = update w.conduits c.id q ∧ (w.conduit c).Aside a q ∧
        ((w.conduit c).Orderly → a ∈ q.line → w'.workers a = some k) := by
  have same : w'.conduits = w.conduits → ∀ x o, (w.conduits x).Aside o (w'.conduits x) :=
    fun h x o => h ▸ .refl _ _
  cases hst with
  | linedUp stage alive empty new hsh =>
    exact .inr ⟨_, _, _, _, stage, hsh.conduits, Conduit.aside_enqueue empty new,
      fun _ _ => by rw [hsh.workers, update_same]⟩
  | took stage alive permit pop hsh =>
    exact .inr ⟨_, _, _, _, stage, hsh.conduits, Conduit.aside_take permit pop,
      fun ho ha => absurd ha (ho.not_mem_line_take permit pop)⟩
  | foundNothing stage permit pop hsh =>
    refine .inr ⟨_, _, _, _, stage, hsh.conduits, fun ho => ?_, fun ho => ?_⟩
    · exact absurd pop (ho.pop?_isSome permit)
    · exact absurd pop (ho.pop?_isSome permit)
  | gaveUp stage why hsh =>
    exact .inr ⟨_, _, _, _, stage, hsh.conduits, Conduit.aside_abandon a _,
      fun ho ha => absurd ha ho.not_mem_line_abandon⟩
  | called stage reply hsh => exact .inl ⟨by simp [stage], same hsh.conduits⟩
  | crashed stage reply hsh => exact .inl ⟨by simp [stage], same hsh.conduits⟩
  | entered stage new entry =>
    exact .inl ⟨by simp [stage], fun x o => entry.conduits ▸ Pipeline.aside_sow _ o x _ _⟩
  | refused stage why hsh => exact .inl ⟨by simp [stage], same hsh.conduits⟩
  | innerFailed stage inner_run returned hsh => exact .inl ⟨by simp [stage], same hsh.conduits⟩
  | left stage inner_run returned taken hsh =>
    exact .inl ⟨by simp [stage], fun x o => hsh.conduits ▸ aside_takeOutputs o x w _ _ _⟩
  | missed stage inner_run returned taken hsh =>
    exact .inl ⟨by simp [stage], fun x o => hsh.conduits ▸ aside_takeOutputs o x w _ _ _⟩
  | checked stage fits hsh => exact .inl ⟨by simp [stage], same hsh.conduits⟩
  | rejected stage misfit hsh => exact .inl ⟨by simp [stage], same hsh.conduits⟩
  | sent stage fits hsh =>
    exact .inl ⟨by simp [stage], fun x o =>
      hsh.conduits ▸ aside_update (Conduit.aside_send _ _ _) x⟩
  | unsent stage misfit hsh => exact .inl ⟨by simp [stage], same hsh.conduits⟩
  | finished stage hsh => exact .inl ⟨by simp [stage], same hsh.conduits⟩
  | told stage ht => exact .inl ⟨by simp [stage], same ht.conduits⟩

/-- A step of a worker changes its own stage, unless it starts a run or reports. -/
lemma Stride.kinds {expired : Bool} (h : w.Stride w' a k expired) :
    (∃ inner inputs id, k.stage = .entering inner inputs ∧ w.Entered w' a k inner id inputs) ∨
      (∃ result, k.stage = .ended result ∧ w.Told w' a k result) ∨
      ∃ s f, w.Shift w' a k s f ∧ (∀ result, k.stage ≠ .reported result) ∧
        ∀ result, s ≠ .reported result := by
  cases h with
  | entered stage new entry => exact .inl ⟨_, _, _, stage, entry⟩
  | told stage ht => exact .inr (.inl ⟨_, stage, ht⟩)
  | linedUp stage alive empty new hsh =>
    exact .inr (.inr ⟨_, _, hsh, by simp [stage], by simp [stage]⟩)
  | took stage alive permit pop hsh =>
    exact .inr (.inr ⟨_, _, hsh, by simp [stage], Node.gather_ne_reported _ _ _⟩)
  | foundNothing stage _ _ hsh => exact .inr (.inr ⟨_, _, hsh, by simp [stage], by simp⟩)
  | gaveUp stage _ hsh => exact .inr (.inr ⟨_, _, hsh, by simp [stage], by simp⟩)
  | called stage _ hsh => exact .inr (.inr ⟨_, _, hsh, by simp [stage], by simp⟩)
  | crashed stage _ hsh => exact .inr (.inr ⟨_, _, hsh, by simp [stage], by simp⟩)
  | refused stage _ hsh => exact .inr (.inr ⟨_, _, hsh, by simp [stage], by simp⟩)
  | innerFailed stage _ _ hsh => exact .inr (.inr ⟨_, _, hsh, by simp [stage], by simp⟩)
  | left stage _ _ _ hsh => exact .inr (.inr ⟨_, _, hsh, by simp [stage], by simp⟩)
  | missed stage _ _ _ hsh => exact .inr (.inr ⟨_, _, hsh, by simp [stage], by simp⟩)
  | checked stage _ hsh => exact .inr (.inr ⟨_, _, hsh, by simp [stage], by simp⟩)
  | rejected stage _ hsh => exact .inr (.inr ⟨_, _, hsh, by simp [stage], by simp⟩)
  | sent stage _ hsh => exact .inr (.inr ⟨_, _, hsh, by simp [stage], by simp⟩)
  | unsent stage _ hsh => exact .inr (.inr ⟨_, _, hsh, by simp [stage], by simp⟩)
  | finished stage hsh => exact .inr (.inr ⟨_, _, hsh, by simp [stage], by simp⟩)

/-- A step of a worker leaves all others as they are, except that a composite makes new ones where
nobody stood. -/
lemma Stride.worker_of_ne {expired : Bool} (hst : w.Stride w' a k expired)
    (hbare : ∀ inner inputs, k.stage = .entering inner inputs → ∀ i, w.workers (i :: a) = none)
    {b : Address} (hb : b ≠ a) : w'.workers b = w.workers b ∨
      w.workers b = none ∧ ∃ n token limit, w'.workers b = some (.new n token limit) := by
  rcases hst.kinds with ⟨inner, inputs, id, hs, he⟩ | ⟨_, -, told⟩ | ⟨_, _, hsh, -, -⟩
  · have hnone := hbare inner inputs hs
    by_cases hi : ∃ i, b = i :: a
    · obtain ⟨i, rfl⟩ := hi
      rw [he.worker_new hnone, hnone]
      cases inner.nodes[i]? with
      | none => exact .inl rfl
      | some n => exact .inr ⟨rfl, n, _, _, rfl⟩
    · exact .inl (he.worker_old hb fun i hbi => hi ⟨i, hbi⟩)
  · exact .inl (by rw [told.workers, update_of_ne hb])
  · exact .inl (by rw [hsh.workers, update_of_ne hb])

lemma Lines.of_aside (h : w.Lines r)
    (hc : ∀ x o, (w.conduits x).Aside o (w'.conduits x))
    (hw : ∀ b k got rest, Below r b → w.workers b = some k → k.stage = .gathering got rest →
      w'.workers b = some k) : w'.Lines r where
  orderly x := (hc x [] (h.orderly x)).1
  member x b hb hr := by
    have hmem := ((hc x (0 :: b) (h.orderly x)).2 b (cons_ne_self 0 b).symm).1 hb
    obtain ⟨k, got, c, rest, hk, hs, hx⟩ := h.member x b hmem hr
    exact ⟨k, got, c, rest, hw b k got _ hr hk hs, hs, hx⟩

/-- Within a run it may make new ones where no run was. -/
lemma Tree.worker_of_ne (h : w.Tree r p) (ha : Below r a) (hk : w.workers a = some k)
    {expired : Bool} (hst : w.Stride w' a k expired) {b : Address} (hb : b ≠ a) :
    w'.workers b = w.workers b ∨
      w.workers b = none ∧ ∃ n token limit, w'.workers b = some (.new n token limit) :=
  hst.worker_of_ne (fun _ _ hs =>
    h.workers_of_runs_none ha.suffix (h.runs_of_entering ha hk hs)) hb

/-- Nor does it change who else is in line. -/
lemma Lines.line_of_ne (h : w.Lines r) {expired : Bool} (hst : w.Stride w' a k expired)
    {b : Address} (hb : b ≠ a) (x : Nat) :
    b ∈ (w'.conduits x).line ↔ b ∈ (w.conduits x).line := by
  rcases hst.lines with ⟨-, hc⟩ | ⟨got, c, rest, q, -, hcs, hq, -⟩
  · exact (hc x (0 :: b) (h.orderly x)).2 b (cons_ne_self 0 b).symm
  · rw [hcs]
    exact (aside_update hq x (h.orderly x)).2 b hb

lemma Lines.stride (h : w.Lines r) (ht : w.Tree r p) (ha : Below r a)
    (hk : w.workers a = some k) {expired : Bool} (hst : w.Stride w' a k expired) :
    w'.Lines r := by
  have others : ∀ {b k'}, b ≠ a → w.workers b = some k' → w'.workers b = some k' := by
    intro b k' hb hk'
    rcases ht.worker_of_ne ha hk hst hb with hw | ⟨hn, -⟩
    · exact hw.trans hk'
    · rw [hn] at hk'
      cases hk'
  rcases hst.lines with ⟨hs, hc⟩ | ⟨got, c, rest, q, hs, hcs, hq, hself⟩
  · refine h.of_aside hc fun b k' got rest _ hk' hs' => ?_
    by_cases hba : b = a
    · subst hba
      obtain rfl := Option.some.inj (hk.symm.trans hk')
      exact absurd hs' (hs got rest)
    · exact others hba hk'
  · have hx : ∀ x, (w.conduits x).Aside a (w'.conduits x) := fun x => hcs ▸ aside_update hq x
    refine ⟨fun x => (hx x (h.orderly x)).1, fun x b hb hr => ?_⟩
    by_cases hba : b = a
    · subst hba
      by_cases hxc : x = c.id
      · subst hxc
        rw [hcs, update_same] at hb
        exact ⟨k, got, c, rest, hself (h.orderly _) hb, hs, rfl⟩
      · rw [hcs, update_of_ne hxc] at hb
        obtain ⟨k', got', c', rest', hk', hs', hx'⟩ := h.member x b hb hr
        obtain rfl := Option.some.inj (hk.symm.trans hk')
        rw [hs] at hs'
        cases hs'
        exact absurd hx'.symm hxc
    · have hmem := (h.line_of_ne hst hba x).1 hb
      obtain ⟨k', got', c', rest', hk', hs', hx'⟩ := h.member x b hmem hr
      exact ⟨k', got', c', rest', others hba hk', hs', hx'⟩

theorem Lines.step (h : w.Lines r) (ht : w.Tree r p) {m : Move} (hm : m.Of r)
    (hs : w.step? m = some w') : w'.Lines r := by
  rcases step_cases hm hs with ⟨a, k, expired, -, ha, hk, hst⟩ | ⟨b, run, run', -, -, hb, -⟩
  · exact h.stride ht ha hk hst
  · exact h.of_aside (fun x o => hb.conduits ▸ .refl _ _) fun _ _ _ _ _ hk _ => hb.workers ▸ hk

lemma Lines.await (h : w.Lines r) : (w.await r).Lines r := by
  obtain ⟨hw, hc, -⟩ := await_others w r
  exact h.of_aside (fun x o => hc ▸ .refl _ _) fun _ _ _ _ _ hk _ => hw ▸ hk

lemma Lines.outside (h : w.Lines r) (ho : w.Outside r w') : w'.Lines r where
  orderly x := (ho.conduits x (h.orderly x)).1
  member x a ha hr := by
    obtain ⟨k, got, c, rest, hk, hs⟩ :=
      h.member x a (((ho.conduits x (h.orderly x)).2 a hr).1 ha) hr
    exact ⟨k, got, c, rest, ho.workers a hr ▸ hk, hs⟩

/-- Whoever is made when a run starts is in line nowhere. -/
lemma Launched.not_mem_line {initial : Payload} {token : Token}
    (hl : w.Launched w' r p initial token) (hv : w.Vacant r) (ho : ∀ x, (w.conduits x).Orderly)
    (ha : Below r a) (x : Nat) : a ∉ (w'.conduits x).line := by
  rw [hl.conduits]
  intro hmem
  have := ((Pipeline.aside_sow p (0 :: a) x initial.entries w.conduits (ho x)).2 a
    (cons_ne_self 0 a).symm).1 hmem
  exact hv.lines x a this ha

lemma lines_of_launched {initial : Payload} {token : Token} (hv : w.Vacant r)
    (ho : ∀ x, (w.conduits x).Orderly) (hl : w.Launched w' r p initial token) : w'.Lines r where
  orderly x := by
    rw [hl.conduits]
    exact (Pipeline.aside_sow p [] x _ _ (ho x)).1
  member x a ha hr := absurd ha (hl.not_mem_line hv ho hr x)

/-! ### What counts as the doing of others -/

lemma poll_eq_setConduit (w : World) (a : Address) (c : Channel) (token : Option Token)
    (expired : Option Duration) :
    ∃ q, (w.poll a c token expired).2 = w.setConduit c q ∧ (w.conduit c).Aside a q := by
  unfold poll
  split
  · exact ⟨_, rfl, Conduit.aside_abandon a _⟩
  · cases hu : (w.conduit c).usePermit? a with
    | some q =>
      cases hp : q.pop? with
      | some r =>
        simp only [hp]
        exact ⟨_, rfl, Conduit.aside_take hu hp⟩
      | none =>
        simp only [hp]
        exact ⟨_, rfl, fun ho => absurd hp (ho.pop?_isSome hu)⟩
    | none =>
      cases expired with
      | some limit => exact ⟨_, rfl, Conduit.aside_abandon a _⟩
      | none =>
        by_cases hw : a ∈ (w.conduit c).waiting
        · simp only [inLine, hw, decide_true, if_true]
          refine ⟨w.conduit c, ?_, .refl _ _⟩
          rw [setConduit, conduit, update_self rfl]
        · simp only [inLine, hw, decide_false, Bool.false_eq_true, if_false]
          exact ⟨_, rfl, Conduit.aside_enqueue hu hw⟩

/-- Whoever deals with a channel from elsewhere leaves the run alone. -/
lemma outside_setConduit {o : Address} (ho : ¬ Below r o) {c : Channel} {q : Conduit Address}
    (h : (w.conduit c).Aside o q) : w.Outside r (w.setConduit c q) where
  workers _ _ := rfl
  runs _ _ := rfl
  cancelled := List.Subset.refl _
  conduits x hx := by
    have haside := aside_update (f := w.conduits) h x hx
    exact ⟨haside.1, fun b hb => haside.2 b fun heq => ho (heq ▸ hb)⟩

theorem outside_send {c : Channel} {v : Value} (h : w.send c v = .ok w') : w.Outside r w' := by
  have hw : w' = w.setConduit c ((w.conduit c).send v) := by
    unfold send at h
    cases hv : c.check v with
    | error e => simp [hv, bind, Except.bind] at h
    | ok u => simpa [hv, bind, Except.bind, pure, Except.pure, eq_comm] using h
  exact hw ▸ outside_setConduit (o := []) (fun h => h) (Conduit.aside_send _ _ _)

theorem outside_tryReceive (w : World) (r : Address) (c : Channel) :
    w.Outside r (w.tryReceive c).2 :=
  outside_setConduit (o := []) (fun h => h) (Conduit.aside_tryReceive _ _)

theorem outside_poll {o : Address} (ho : ¬ Below r o) (w : World) (c : Channel)
    (token : Option Token) (expired : Option Duration) :
    w.Outside r (w.poll o c token expired).2 := by
  obtain ⟨q, hq, haside⟩ := poll_eq_setConduit w o c token expired
  exact hq ▸ outside_setConduit ho haside

theorem outside_leaveLine {o : Address} (ho : ¬ Below r o) (w : World) (c : Channel) :
    w.Outside r (w.leaveLine o c) :=
  outside_setConduit ho (Conduit.aside_abandon o _)

/-- A step of a worker elsewhere. -/
lemma Stride.outside {expired : Bool} (hra : ¬ r <:+ a) (hst : w.Stride w' a k expired) :
    w.Outside r w' := by
  have hne : ∀ b, r <:+ b → b ≠ a := fun b hb heq => hra (heq ▸ hb)
  have hcond : ∀ x, (w.conduits x).Orderly → (w'.conduits x).Orderly ∧
      ∀ b, Below r b → (b ∈ (w'.conduits x).line ↔ b ∈ (w.conduits x).line) := by
    intro x hx
    have haside : (w.conduits x).Aside a (w'.conduits x) := by
      rcases hst.lines with ⟨-, hc⟩ | ⟨_, _, _, q, -, hcs, hq, -⟩
      · exact hc x a
      · exact hcs ▸ aside_update hq x
    exact ⟨(haside hx).1, fun b hb => (haside hx).2 b (hne b hb.suffix)⟩
  cases hst with
  | entered stage new entry =>
    refine ⟨fun b hb => ?_, fun b hb => ?_, entry.cancelled ▸ List.Subset.refl _, hcond⟩
    · rw [entry.workers, update_of_ne (hne b hb.suffix), staff_of_tail_ne]
      rintro i rfl
      exact hra (below_cons.1 hb)
    · rw [entry.runs, update_of_ne (hne b hb)]
  | told stage ht =>
    refine ⟨fun b hb => ?_, fun b hb => ?_, ht.cancelled ▸ List.Subset.refl _, hcond⟩
    · rw [ht.workers, update_of_ne (hne b hb.suffix)]
    · have htail : b ≠ a.tail := fun heq =>
        hra ((heq ▸ hb : r <:+ a.tail).trans (List.tail_suffix a))
      rw [ht.runs]
      cases w.runs a.tail with
      | none => rfl
      | some run => rw [Option.elim_some, update_of_ne htail]
  | _ =>
    have hsh := (by assumption : w.Shift w' a k _ _)
    exact ⟨fun b hb => by rw [hsh.workers, update_of_ne (hne b hb.suffix)],
      fun b _ => by rw [hsh.runs], hsh.cancelled ▸ List.Subset.refl _, hcond⟩

lemma Turned.outside {b : Address} {run : Run} (hb : ¬ r <:+ b) (ht : w.Turned w' b run)
    (hx : w.cancelled ⊆ w'.cancelled) : w.Outside r w' := by
  refine ⟨fun a _ => by rw [ht.workers], fun c hc => ?_, hx, fun x h => ?_⟩
  · have hne : c ≠ b := fun heq => hb (heq ▸ hc)
    rw [ht.runs, update_of_ne hne]
  · rw [ht.conduits]
    exact ⟨h, fun _ _ => Iff.rfl⟩

/-- The moves of other runs, and cancellations. -/
theorem outside_step {m : Move} (hr : w.workers r = none) (hm : ¬ m.Of r)
    (hs : w.step? m = some w') : w.Outside r w' := by
  have work : ∀ {a : Address} {expired : Bool}, ¬ Below r a → w.work? a expired = some w' →
      w.Outside r w' := by
    intro a expired ha hs
    obtain ⟨k, hk, hst⟩ := stride_of_work? hs
    refine hst.outside fun hra => ?_
    rcases suffix_cases hra with rfl | hb
    · rw [hr] at hk
      cases hk
    · exact ha hb
  cases m with
  | work a => exact work hm hs
  | expire a => exact work hm hs
  | collect b =>
    cases collected_of_collect? hs with
    | success _ _ _ _ ht hx => exact ht.outside hm (hx ▸ List.Subset.refl _)
    | failure _ _ _ _ _ ht hx =>
      refine ht.outside hm ?_
      rcases hx with ⟨hx, -⟩ | hx
      · exact hx ▸ List.Subset.refl _
      · exact hx ▸ List.subset_append_left _ _
  | conclude b =>
    obtain ⟨_, _, _, hc⟩ := concluded_of_conclude? hs
    exact hc.turned.outside hm (hc.cancelled ▸ List.Subset.refl _)
  | cancel t =>
    exact ⟨fun _ _ => Option.some.inj hs ▸ rfl, fun _ _ => Option.some.inj hs ▸ rfl,
      Option.some.inj hs ▸ List.subset_append_left _ _,
      fun x h => Option.some.inj hs ▸ ⟨h, fun _ _ => Iff.rfl⟩⟩

end Dataflow.World
