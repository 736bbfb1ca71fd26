import Dataflow.Proofs.Play

/-!
The tree of runs. Below the address of a run stand the workers of its nodes, and below a worker
stands at most one run, of the pipeline that its node wraps. A composite makes that run when it
goes inside, and comes out only after it has returned.
-/

namespace Dataflow

/-- The logic that a node calls. -/
def Node.logic? (n : Node) : Option Logic :=
  match n.body with
  | .source logic => some logic
  | .sink logic => some logic
  | .transform logic => some logic
  | .composite _ => none

lemma Node.inner?_of_logic? {n : Node} {logic : Logic} (h : n.logic? = some logic) :
    n.inner? = none := by
  unfold logic? at h
  unfold inner?
  cases hb : n.body <;> simp_all

/-- The receiver of a run is waiting, or has returned. -/
def Run.Attended (run : Run) : Prop :=
  (∃ completed failure, run.collector = .waiting completed failure) ∨
    ∃ result, run.collector = .returned result

def Run.Over (run : Run) : Prop := ∃ result, run.collector = .returned result

/-- `k` is the worker for the `i`-th node of the run. -/
structure Posted (run : Run) (i : Nat) (k : Worker) : Prop where
  node : run.pipeline.nodes[i]? = some k.node
  token : k.token = run.token
  limit : k.limit = run.pipeline.options.receiveTimeout

/-- `run` is the run that a worker for the composite `n` has started under its token. -/
structure Nested (n : Node) (token : Token) (run : Run) : Prop where
  inner : n.inner? = some run.pipeline
  token : token <:+ run.token
  attended : run.Attended

/-- What a stage says about the node that is in it. -/
def Node.Suits (n : Node) : Stage → Prop
  | .gathering _ rest => rest ≠ [] ∧ rest <:+ n.inputs
  | .calling logic _ => n.logic? = some logic
  | .entering inner _ => n.inner? = some inner
  | .inside inner => n.inner? = some inner
  | _ => True

/-- What the stage of a worker says about the run below it. -/
def Worker.Above (k : Worker) (below : Option Run) : Prop :=
  match k.stage with
  | .gathering _ _ => below = none
  | .calling _ _ => below = none
  | .entering _ _ => below = none
  | .inside _ => ∃ run, below = some run ∧ Nested k.node k.token run
  | _ => ∀ run, below = some run → Nested k.node k.token run ∧ run.Over

/-- A worker gathers as long as it needs something, and then it begins with its body. -/
lemma Node.gather_cases (n : Node) (got : Payload) (rest : List Channel) :
    (∃ c cs, rest = c :: cs ∧ n.gather got rest = .gathering got (c :: cs)) ∨
      rest = [] ∧ ((∃ logic, n.logic? = some logic ∧ n.gather got rest = .calling logic got) ∨
        ∃ inner, n.inner? = some inner ∧ n.gather got rest = .entering inner got) := by
  cases rest with
  | cons c cs => exact .inl ⟨c, cs, rfl, rfl⟩
  | nil =>
    refine .inr ⟨rfl, ?_⟩
    obtain ⟨_, _, _, body⟩ := n
    cases body with
    | source logic => exact .inl ⟨logic, rfl, rfl⟩
    | sink logic => exact .inl ⟨logic, rfl, rfl⟩
    | transform logic => exact .inl ⟨logic, rfl, rfl⟩
    | composite inner => exact .inr ⟨inner, rfl, rfl⟩

lemma Node.suits_gather {n : Node} {rest : List Channel} (got : Payload)
    (h : rest <:+ n.inputs) : n.Suits (n.gather got rest) := by
  rcases n.gather_cases got rest with
    ⟨c, cs, rfl, hg⟩ | ⟨rfl, ⟨logic, hl, hg⟩ | ⟨inner, hi, hg⟩⟩ <;> rw [hg]
  · exact ⟨by simp, h⟩
  · exact hl
  · exact hi

lemma Node.above_gather {k : Worker} {n : Node} (got : Payload) (rest : List Channel)
    (h : k.stage = n.gather got rest) : k.Above none := by
  unfold Worker.Above
  rw [h]
  rcases n.gather_cases got rest with
    ⟨c, cs, rfl, hg⟩ | ⟨rfl, ⟨logic, hl, hg⟩ | ⟨inner, hi, hg⟩⟩ <;> rw [hg]

lemma Node.gather_ne_reported (n : Node) (got : Payload) (rest : List Channel)
    (result : Except ExecutionError Unit) : n.gather got rest ≠ .reported result := by
  rcases n.gather_cases got rest with
    ⟨c, cs, rfl, hg⟩ | ⟨rfl, ⟨logic, hl, hg⟩ | ⟨inner, hi, hg⟩⟩ <;> rw [hg] <;> simp

lemma Node.gather_ne_inside (n : Node) (got : Payload) (rest : List Channel)
    (inner : Pipeline) : n.gather got rest ≠ .inside inner := by
  rcases n.gather_cases got rest with
    ⟨c, cs, -, hg⟩ | ⟨-, ⟨logic, -, hg⟩ | ⟨inner, -, hg⟩⟩ <;> rw [hg] <;> simp

/-- What becomes of a run while it goes on. -/
structure Run.Later (run run' : Run) : Prop where
  pipeline : run'.pipeline = run.pipeline
  token : run'.token = run.token
  attended : run.Attended → run'.Attended
  ended : run.Over → run'.Over

lemma Run.Later.refl (run : Run) : run.Later run := ⟨rfl, rfl, id, id⟩

lemma Run.later_self (run? : Option Run) : (run? = none ∧ run? = none) ∨
    ∃ run run', run? = some run ∧ run? = some run' ∧ run.Later run' := by
  cases run? with
  | none => exact .inl ⟨rfl, rfl⟩
  | some run => exact .inr ⟨run, run, rfl, rfl, .refl run⟩

lemma Run.later_attended (run : Run) : run.Later run.attended := by
  unfold Run.attended
  cases hc : run.collector with
  | idle => exact ⟨rfl, rfl, fun _ => .inl ⟨_, _, rfl⟩, fun ⟨_, h⟩ => by rw [hc] at h; cases h⟩
  | waiting _ _ => exact .refl _
  | returned _ => exact .refl _
  | dropped => exact .refl _

lemma World.later_delivered (run : Run) (o : Outcome) : run.Later (World.delivered run o) := by
  unfold World.delivered
  split
  · exact .refl _
  · exact ⟨rfl, rfl, id, id⟩

lemma Posted.later {run run' : Run} {i : Nat} {k : Worker} (h : Posted run i k)
    (hl : run.Later run') : Posted run' i k :=
  ⟨hl.pipeline ▸ h.node, hl.token ▸ h.token, hl.pipeline ▸ h.limit⟩

lemma Nested.later {run run' : Run} {k : Worker} (h : Nested k.node k.token run)
    (hl : run.Later run') : Nested k.node k.token run' :=
  ⟨hl.pipeline ▸ h.inner, hl.token ▸ h.token, hl.attended h.attended⟩

/-- Whatever run is below a worker is one that it has started. -/
lemma Worker.Above.nested {k : Worker} {run : Run} (h : k.Above (some run)) :
    Nested k.node k.token run := by
  unfold Worker.Above at h
  cases hs : k.stage <;> rw [hs] at h
  case gathering => cases h
  case calling => cases h
  case entering => cases h
  case inside =>
    obtain ⟨_, ⟨⟩, hn⟩ := h
    exact hn
  all_goals exact (h _ rfl).1

lemma Worker.Above.later {k : Worker} {run run' : Run} (h : k.Above (some run))
    (hl : run.Later run') : k.Above (some run') := by
  unfold Worker.Above at h ⊢
  have later : (∀ x, some run = some x → Nested k.node k.token x ∧ x.Over) →
      ∀ x, some run' = some x → Nested k.node k.token x ∧ x.Over := by
    rintro h _ ⟨⟩
    exact ⟨(h _ rfl).1.later hl, hl.ended (h _ rfl).2⟩
  cases hs : k.stage <;> rw [hs] at h
  case gathering => cases h
  case calling => cases h
  case entering => cases h
  case inside =>
    obtain ⟨_, ⟨⟩, hn⟩ := h
    exact ⟨_, rfl, hn.later hl⟩
  all_goals exact later h

namespace World

/-- The workers and runs at `r` and below belong to a run of `p`. -/
structure Tree (w : World) (r : Address) (p : Pipeline) : Prop where
  root : ∃ run, w.runs r = some run ∧ run.pipeline = p
  manned : ∀ b i run n, r <:+ b → w.runs b = some run → run.pipeline.nodes[i]? = some n →
    ∃ k, w.workers (i :: b) = some k
  posted : ∀ b i k, r <:+ b → w.workers (i :: b) = some k →
    ∃ run, w.runs b = some run ∧ Posted run i k
  suits : ∀ a k, Below r a → w.workers a = some k → k.node.Suits k.stage
  above : ∀ a k, Below r a → w.workers a = some k → k.Above (w.runs a)
  bare : ∀ a, Below r a → w.workers a = none → w.runs a = none

variable {w w' : World} {r a : Address} {p : Pipeline} {k : Worker}

section

variable {inner : Pipeline} {inputs : Payload}

lemma Tree.runs_of_entering (h : w.Tree r p) (ha : Below r a) (hk : w.workers a = some k)
    (hs : k.stage = .entering inner inputs) : w.runs a = none := by
  have habove := h.above a k ha hk
  rwa [Worker.Above, hs] at habove

lemma Tree.inner_of_entering (h : w.Tree r p) (ha : Below r a) (hk : w.workers a = some k)
    (hs : k.stage = .entering inner inputs) : k.node.inner? = some inner := by
  have hsuits := h.suits a k ha hk
  rwa [hs] at hsuits

lemma Tree.inner_of_inside (h : w.Tree r p) (ha : Below r a) (hk : w.workers a = some k)
    (hs : k.stage = .inside inner) : k.node.inner? = some inner := by
  have hsuits := h.suits a k ha hk
  rwa [hs] at hsuits

lemma Tree.run_of_inside (h : w.Tree r p) (ha : Below r a) (hk : w.workers a = some k)
    (hs : k.stage = .inside inner) : ∃ run, w.runs a = some run ∧ Nested k.node k.token run := by
  have habove := h.above a k ha hk
  rwa [Worker.Above, hs] at habove

end

/-- Runs that go on leave the tree what it is. -/
lemma Tree.later (h : w.Tree r p) (hw : ∀ a, Below r a → w'.workers a = w.workers a)
    (hr : ∀ b, r <:+ b → (w.runs b = none ∧ w'.runs b = none) ∨
      ∃ run run', w.runs b = some run ∧ w'.runs b = some run' ∧ run.Later run') : w'.Tree r p where
  root := by
    obtain ⟨run, hrun, hp⟩ := h.root
    rcases hr r List.suffix_rfl with ⟨hn, -⟩ | ⟨_, run', hs, hs', hl⟩
    · rw [hn] at hrun; cases hrun
    · obtain rfl := Option.some.inj (hs.symm.trans hrun)
      exact ⟨run', hs', hl.pipeline.trans hp⟩
  manned b i run n hb hrun hn := by
    rw [hw (i :: b) hb]
    rcases hr b hb with ⟨-, hn'⟩ | ⟨run₀, run', hs, hs', hl⟩
    · rw [hn'] at hrun; cases hrun
    · obtain rfl := Option.some.inj (hs'.symm.trans hrun)
      exact h.manned b i run₀ n hb hs (hl.pipeline ▸ hn)
  posted b i k hb hk := by
    rw [hw (i :: b) hb] at hk
    obtain ⟨run, hrun, hpost⟩ := h.posted b i k hb hk
    rcases hr b hb with ⟨hn, -⟩ | ⟨_, run', hs, hs', hl⟩
    · rw [hn] at hrun; cases hrun
    · obtain rfl := Option.some.inj (hs.symm.trans hrun)
      exact ⟨run', hs', hpost.later hl⟩
  suits a k ha hk := h.suits a k ha (hw a ha ▸ hk)
  above a k ha hk := by
    have habove := h.above a k ha (hw a ha ▸ hk)
    rcases hr a ha.suffix with ⟨hn, hn'⟩ | ⟨run, run', hs, hs', hl⟩
    · rw [hn']; rwa [hn] at habove
    · rw [hs']; rw [hs] at habove; exact habove.later hl
  bare a ha hk := by
    have hnone := h.bare a ha (hw a ha ▸ hk)
    rcases hr a ha.suffix with ⟨-, hn'⟩ | ⟨run, run', hs, -, -⟩
    · exact hn'
    · rw [hnone] at hs; cases hs

/-- A worker goes on to a stage that suits its node and what is below it. -/
lemma Tree.restage (h : w.Tree r p) (hk : w.workers a = some k) {s : Stage}
    (hw : w'.workers = update w.workers a (some { k with stage := s })) (hr : w'.runs = w.runs)
    (hs : k.node.Suits s) (ha : ({ k with stage := s } : Worker).Above (w.runs a)) :
    w'.Tree r p where
  root := hr ▸ h.root
  manned b i run n hb hrun hn := by
    rw [hw]
    by_cases hx : i :: b = a
    · exact ⟨_, by rw [hx, update_same]⟩
    · rw [update_of_ne hx]
      exact h.manned b i run n hb (hr ▸ hrun) hn
  posted b i k' hb hk' := by
    rw [hr]
    rw [hw] at hk'
    by_cases hx : i :: b = a
    · subst hx
      rw [update_same] at hk'
      obtain rfl := Option.some.inj hk'
      obtain ⟨run, hrun, hpost⟩ := h.posted b i k hb hk
      exact ⟨run, hrun, hpost.node, hpost.token, hpost.limit⟩
    · rw [update_of_ne hx] at hk'
      exact h.posted b i k' hb hk'
  suits x k' hx hk' := by
    rw [hw] at hk'
    by_cases hxa : x = a
    · subst hxa
      rw [update_same] at hk'
      obtain rfl := Option.some.inj hk'
      exact hs
    · rw [update_of_ne hxa] at hk'
      exact h.suits x k' hx hk'
  above x k' hx hk' := by
    rw [hr]
    rw [hw] at hk'
    by_cases hxa : x = a
    · subst hxa
      rw [update_same] at hk'
      obtain rfl := Option.some.inj hk'
      exact ha
    · rw [update_of_ne hxa] at hk'
      exact h.above x k' hx hk'
  bare x hx hk' := by
    rw [hr]
    rw [hw] at hk'
    by_cases hxa : x = a
    · subst hxa
      rw [update_same] at hk'
      cases hk'
    · rw [update_of_ne hxa] at hk'
      exact h.bare x hx hk'

lemma cons_ne_self {α : Type} (i : α) (a : List α) : i :: a ≠ a := fun h => by
  have := congrArg List.length h
  simp at this

/-- Where no worker stood, `staff` puts the new ones and nobody else. -/
lemma staff_of_none {f : Address → Option Worker} (h : ∀ i, f (i :: r) = none)
    (nodes : List Node) (token : Token) (limit : Option Duration) (i : Nat) :
    staff f r nodes token limit (i :: r) = (nodes[i]?).map fun n => .new n token limit := by
  rw [staff_cons_same, h i]
  cases nodes[i]? <;> rfl

section

variable {inner : Pipeline} {inputs : Payload} {id : Nat}

lemma Entered.worker_self (he : w.Entered w' a k inner id inputs) :
    w'.workers a = some { k with stage := .inside inner } := by
  rw [he.workers, update_same]

lemma Entered.worker_new (he : w.Entered w' a k inner id inputs)
    (hbare : ∀ i, w.workers (i :: a) = none) (i : Nat) : w'.workers (i :: a) =
      (inner.nodes[i]?).map fun n => .new n (id :: k.token) inner.options.receiveTimeout := by
  rw [he.workers, update_of_ne (cons_ne_self i a), staff_of_none hbare]

lemma Entered.worker_old (he : w.Entered w' a k inner id inputs) {x : Address} (hx : x ≠ a)
    (hnew : ∀ i, x ≠ i :: a) : w'.workers x = w.workers x := by
  rw [he.workers, update_of_ne hx, staff_of_tail_ne hnew]

lemma Entered.run_self (he : w.Entered w' a k inner id inputs) :
    w'.runs a = some ⟨inner, id :: k.token, [], .waiting [] none⟩ := by
  rw [he.runs, update_same]

lemma Entered.run_old (he : w.Entered w' a k inner id inputs) {x : Address} (hx : x ≠ a) :
    w'.runs x = w.runs x := by
  rw [he.runs, update_of_ne hx]

end

/-- An address is the composite's, one of the new workers', or another. -/
lemma entry_cases (a x : Address) : x = a ∨ (∃ i, x = i :: a) ∨ x ≠ a ∧ ∀ i, x ≠ i :: a := by
  by_cases hxa : x = a
  · exact .inl hxa
  · by_cases hx : ∃ i, x = i :: a
    · exact .inr (.inl hx)
    · exact .inr (.inr ⟨hxa, fun i hi => hx ⟨i, hi⟩⟩)

lemma Tree.workers_of_runs_none (h : w.Tree r p) {b : Address} (hb : r <:+ b)
    (hn : w.runs b = none) (i : Nat) : w.workers (i :: b) = none := by
  cases hk : w.workers (i :: b) with
  | none => rfl
  | some k =>
    obtain ⟨run, hrun, -⟩ := h.posted b i k hb hk
    rw [hn] at hrun
    cases hrun

lemma Tree.entered (h : w.Tree r p) (ha : Below r a) (hk : w.workers a = some k)
    {inner : Pipeline} {inputs : Payload} {id : Nat} (hs : k.stage = .entering inner inputs)
    (he : w.Entered w' a k inner id inputs) : w'.Tree r p := by
  have hnone := h.runs_of_entering ha hk hs
  have hinner := h.inner_of_entering ha hk hs
  have hbare := h.workers_of_runs_none ha.suffix hnone
  have hself := he.worker_self
  have hnew := he.worker_new hbare
  have hold := fun {x} hx hi => he.worker_old (x := x) hx hi
  have hrun := he.run_self
  have hruns := fun {x} hx => he.run_old (x := x) hx
  refine ⟨?_, ?_, ?_, ?_, ?_, ?_⟩
  · rw [hruns ha.ne.symm]
    exact h.root
  · intro b i run n hb hb' hn
    by_cases hba : b = a
    · subst hba
      obtain rfl := Option.some.inj (hrun.symm.trans hb')
      exact ⟨_, by rw [hnew, hn]; rfl⟩
    · rw [hruns hba] at hb'
      by_cases hia : i :: b = a
      · exact ⟨_, hia ▸ hself⟩
      · rw [hold hia fun j hj => hba (List.cons.inj hj).2]
        exact h.manned b i run n hb hb' hn
  · intro b i k' hb hk'
    by_cases hba : b = a
    · subst hba
      rw [hnew] at hk'
      obtain ⟨n, hn, rfl⟩ := Option.map_eq_some_iff.1 hk'
      exact ⟨_, hrun, hn, rfl, rfl⟩
    · rw [hruns hba]
      by_cases hia : i :: b = a
      · subst hia
        obtain rfl := Option.some.inj (hself.symm.trans hk')
        obtain ⟨run, hr, hpost⟩ := h.posted b i k hb hk
        exact ⟨run, hr, hpost.node, hpost.token, hpost.limit⟩
      · rw [hold hia fun j hj => hba (List.cons.inj hj).2] at hk'
        exact h.posted b i k' hb hk'
  · intro x k' hx hk'
    rcases entry_cases a x with rfl | ⟨i, rfl⟩ | ⟨hxa, hxi⟩
    · obtain rfl := Option.some.inj (hself.symm.trans hk')
      exact hinner
    · rw [hnew] at hk'
      obtain ⟨n, -, rfl⟩ := Option.map_eq_some_iff.1 hk'
      exact Node.suits_gather _ List.suffix_rfl
    · exact h.suits x k' hx (hold hxa hxi ▸ hk')
  · intro x k' hx hk'
    rcases entry_cases a x with rfl | ⟨i, rfl⟩ | ⟨hxa, hxi⟩
    · obtain rfl := Option.some.inj (hself.symm.trans hk')
      exact ⟨_, hrun, hinner, List.suffix_cons _ _, .inl ⟨_, _, rfl⟩⟩
    · rw [hruns (cons_ne_self i a), h.bare (i :: a) ha.suffix (hbare i)]
      rw [hnew] at hk'
      obtain ⟨n, -, rfl⟩ := Option.map_eq_some_iff.1 hk'
      exact Node.above_gather _ _ rfl
    · rw [hruns hxa]
      exact h.above x k' hx (hold hxa hxi ▸ hk')
  · intro x hx hk'
    rcases entry_cases a x with rfl | ⟨i, rfl⟩ | ⟨hxa, hxi⟩
    · rw [hself] at hk'
      cases hk'
    · rw [hruns (cons_ne_self i a)]
      exact h.bare _ hx (hbare i)
    · rw [hruns hxa]
      exact h.bare x hx (hold hxa hxi ▸ hk')

/-- A worker that tells its run how it ended leaves the run where it is. -/
lemma Tree.told (h : w.Tree r p) (hk : w.workers a = some k) (ha : Below r a)
    {result : Except ExecutionError Unit} (hs : k.stage = .ended result)
    (ht : w.Told w' a k result) : w'.Tree r p := by
  have hmid : ({ w with workers := w'.workers } : World).Tree r p := by
    refine h.restage hk ht.workers rfl trivial ?_
    have := h.above a k ha hk
    rw [Worker.Above, hs] at this
    exact this
  refine hmid.later (fun _ _ => rfl) fun b hb => ?_
  rw [ht.runs]
  cases hr : w.runs a.tail with
  | none => exact Run.later_self _
  | some run =>
    rw [Option.elim_some]
    by_cases hba : b = a.tail
    · subst hba
      rw [update_same]
      exact .inr ⟨run, _, hr, rfl, later_delivered _ _⟩
    · rw [update_of_ne hba]
      exact Run.later_self _

lemma Tree.stride (h : w.Tree r p) (ha : Below r a) (hk : w.workers a = some k)
    {expired : Bool} (hst : w.Stride w' a k expired) : w'.Tree r p := by
  have habove := h.above a k ha hk
  have hsuits := h.suits a k ha hk
  have shift : ∀ {s : Stage} {f : Nat → Conduit Address}, w.Shift w' a k s f →
      k.node.Suits s → ({ k with stage := s } : Worker).Above (w.runs a) → w'.Tree r p :=
    fun hsh => h.restage hk hsh.workers hsh.runs
  have nothing : w.runs a = none →
      ∀ run, w.runs a = some run → Nested k.node k.token run ∧ run.Over := fun hnone run hrun => by
    rw [hnone] at hrun
    cases hrun
  -- whoever leaves the run inside has heard that it is over
  have left : ∀ {inner : Pipeline} {below : Run} {result : Except ExecutionError Report},
      k.stage = .inside inner → w.runs a = some below → below.collector = .returned result →
      ∀ run, w.runs a = some run → Nested k.node k.token run ∧ run.Over := by
    intro inner below result hs hbelow hres run hrun
    obtain ⟨run', hrun', hn⟩ := h.run_of_inside ha hk hs
    obtain rfl := Option.some.inj (hrun.symm.trans hrun')
    obtain rfl := Option.some.inj (hrun.symm.trans hbelow)
    exact ⟨hn, _, hres⟩
  cases hst with
  | linedUp stage alive empty new hsh => exact shift hsh hsuits habove
  | took stage alive permit pop hsh =>
    rw [stage] at hsuits
    rw [Worker.Above, stage] at habove
    refine shift hsh (Node.suits_gather _ ((List.suffix_cons _ _).trans hsuits.2)) ?_
    rw [habove]
    exact Node.above_gather _ _ rfl
  | foundNothing stage permit pop hsh =>
    rw [Worker.Above, stage] at habove
    exact shift hsh trivial (nothing habove)
  | gaveUp stage why hsh =>
    rw [Worker.Above, stage] at habove
    exact shift hsh trivial (nothing habove)
  | called stage reply hsh =>
    rw [Worker.Above, stage] at habove
    exact shift hsh trivial (nothing habove)
  | crashed stage reply hsh =>
    rw [Worker.Above, stage] at habove
    exact shift hsh trivial (nothing habove)
  | entered stage new entry => exact h.entered ha hk stage entry
  | refused stage why hsh =>
    rw [Worker.Above, stage] at habove
    exact shift hsh trivial (nothing habove)
  | innerFailed stage inner_run returned hsh =>
    exact shift hsh trivial (left stage inner_run returned)
  | left stage inner_run returned taken hsh =>
    exact shift hsh trivial (left stage inner_run returned)
  | missed stage inner_run returned taken hsh =>
    exact shift hsh trivial (left stage inner_run returned)
  | checked stage fits hsh =>
    rw [Worker.Above, stage] at habove
    exact shift hsh trivial habove
  | rejected stage misfit hsh =>
    rw [Worker.Above, stage] at habove
    exact shift hsh trivial habove
  | sent stage fits hsh =>
    rw [Worker.Above, stage] at habove
    exact shift hsh trivial habove
  | unsent stage misfit hsh =>
    rw [Worker.Above, stage] at habove
    exact shift hsh trivial habove
  | finished stage hsh =>
    rw [Worker.Above, stage] at habove
    exact shift hsh trivial habove
  | told stage ht => exact h.told hk ha stage ht

/-- The receiver of a run looks at what has arrived. -/
lemma Tree.turned (h : w.Tree r p) {b : Address} {run run' : Run} (hb : w.runs b = some run)
    (ht : w.Turned w' b run') (hl : run.Later run') : w'.Tree r p := by
  refine h.later (fun x _ => by rw [ht.workers]) fun x _ => ?_
  rw [ht.runs]
  by_cases hx : x = b
  · subst hx
    exact .inr ⟨run, run', hb, update_same _ _ _, hl⟩
  · rw [update_of_ne hx]
    exact Run.later_self _

lemma Tree.collected (h : w.Tree r p) {b : Address} (hc : w.Collected w' b) : w'.Tree r p := by
  have later : ∀ {run : Run} {completed : List String} {failure : Option ExecutionError}
      (rest : List Outcome) (completed' : List String) (failure' : Option ExecutionError),
      run.collector = .waiting completed failure →
      run.Later { run with mailbox := rest, collector := .waiting completed' failure' } := by
    intro run completed failure rest completed' failure' hw
    refine ⟨rfl, rfl, fun _ => .inl ⟨_, _, rfl⟩, fun ⟨_, ho⟩ => ?_⟩
    rw [hw] at ho
    cases ho
  cases hc with
  | success running collector mailbox result turned cancelled =>
    exact h.turned running turned (later _ _ _ collector)
  | failure running collector mailbox result kept turned cancelled =>
    exact h.turned running turned (later _ _ _ collector)

lemma Tree.concluded (h : w.Tree r p) {b : Address} {run : Run} {completed : List String}
    {failure : Option ExecutionError} (hc : w.Concluded w' b run completed failure) :
    w'.Tree r p :=
  h.turned hc.running hc.turned ⟨rfl, rfl, fun _ => .inr ⟨_, rfl⟩, fun _ => ⟨_, rfl⟩⟩

theorem Tree.step (h : w.Tree r p) {m : Move} (hm : m.Of r) (hs : w.step? m = some w') :
    w'.Tree r p := by
  cases m with
  | work a =>
    obtain ⟨k, hk, hst⟩ := stride_of_work? hs
    exact h.stride hm hk hst
  | expire a =>
    obtain ⟨k, hk, hst⟩ := stride_of_work? hs
    exact h.stride hm hk hst
  | collect b => exact h.collected (collected_of_collect? hs)
  | conclude b =>
    obtain ⟨run, completed, failure, hc⟩ := concluded_of_conclude? hs
    exact h.concluded hc
  | cancel t => exact hm.elim

lemma Tree.await (h : w.Tree r p) : (w.await r).Tree r p := by
  refine h.later (fun x _ => by rw [(await_others w r).1]) fun x _ => ?_
  rw [runs_await]
  split
  · cases w.runs x with
    | none => exact .inl ⟨rfl, rfl⟩
    | some run => exact .inr ⟨run, _, rfl, rfl, run.later_attended⟩
  · exact Run.later_self _

lemma Tree.outside (h : w.Tree r p) (ho : w.Outside r w') : w'.Tree r p := by
  refine h.later ho.workers fun x hx => ?_
  rw [ho.runs x hx]
  exact Run.later_self _

section

variable {initial : Payload} {token : Token}

lemma Launched.run_self (hl : w.Launched w' r p initial token) :
    w'.runs r = some ⟨p, token, [], .idle⟩ := by
  rw [hl.runs, update_same]

lemma Launched.run_old (hl : w.Launched w' r p initial token) (hv : w.Vacant r) {b : Address}
    (hb : r <:+ b) (hne : b ≠ r) : w'.runs b = none := by
  rw [hl.runs, update_of_ne hne, hv.runs b hb]

/-- When a run has just started, its workers are new. -/
lemma Launched.worker_new (hl : w.Launched w' r p initial token) (hv : w.Vacant r) (i : Nat) :
    w'.workers (i :: r) =
      (p.nodes[i]?).map fun n => .new n token p.options.receiveTimeout := by
  rw [hl.workers, staff_of_none fun j => hv.workers _ (below_cons.2 List.suffix_rfl)]

lemma Launched.worker_old (hl : w.Launched w' r p initial token) (hv : w.Vacant r)
    (ha : Below r a) (hne : ∀ i, a ≠ i :: r) : w'.workers a = none := by
  rw [hl.workers, staff_of_tail_ne hne, hv.workers a ha]

end

/-- Where nothing stood, a run that was just started is a tree. -/
lemma tree_of_launched {initial : Payload} {token : Token} (hv : w.Vacant r)
    (hl : w.Launched w' r p initial token) : w'.Tree r p := by
  have hrun := hl.run_self
  have hnew := hl.worker_new hv
  have hold := fun a ha hne => hl.worker_old (a := a) hv ha hne
  have hruns := fun b hb hne => hl.run_old (b := b) hv hb hne
  refine ⟨⟨_, hrun, rfl⟩, ?_, ?_, ?_, ?_, ?_⟩
  · intro b i run n hb hb' hn
    by_cases hbr : b = r
    · subst hbr
      obtain rfl := Option.some.inj (hrun.symm.trans hb')
      exact ⟨_, by rw [hnew, hn]; rfl⟩
    · rw [hruns b hb hbr] at hb'
      cases hb'
  · intro b i k hb hk
    by_cases hbr : b = r
    · subst hbr
      rw [hnew] at hk
      obtain ⟨n, hn, rfl⟩ := Option.map_eq_some_iff.1 hk
      exact ⟨_, hrun, hn, rfl, rfl⟩
    · rw [hold (i :: b) hb fun j hj => hbr (List.cons.inj hj).2] at hk
      cases hk
  · intro a k ha hk
    by_cases hi : ∃ i, a = i :: r
    · obtain ⟨i, rfl⟩ := hi
      rw [hnew] at hk
      obtain ⟨n, -, rfl⟩ := Option.map_eq_some_iff.1 hk
      exact Node.suits_gather _ List.suffix_rfl
    · rw [hold a ha fun i h => hi ⟨i, h⟩] at hk
      cases hk
  · intro a k ha hk
    rw [hruns a ha.suffix ha.ne]
    by_cases hi : ∃ i, a = i :: r
    · obtain ⟨i, rfl⟩ := hi
      rw [hnew] at hk
      obtain ⟨n, -, rfl⟩ := Option.map_eq_some_iff.1 hk
      exact Node.above_gather _ _ rfl
    · rw [hold a ha fun i h => hi ⟨i, h⟩] at hk
      cases hk
  · intro a ha _
    exact hruns a ha.suffix ha.ne

/-- The run at an address below `r` is of the pipeline that stands at that address in `p`. -/
theorem Tree.level (h : w.Tree r p) {path : Address} {run : Run}
    (hrun : w.runs (path ++ r) = some run) : p.level? path = some run.pipeline := by
  induction path generalizing run with
  | nil =>
    obtain ⟨_, hroot, rfl⟩ := h.root
    obtain rfl := Option.some.inj (hroot.symm.trans hrun)
    rfl
  | cons i path ih =>
    have hb : r <:+ path ++ r := List.suffix_append _ _
    cases hk : w.workers (i :: (path ++ r)) with
    | none =>
      have := h.bare _ (below_cons.2 hb) hk
      rw [List.cons_append, this] at hrun
      cases hrun
    | some k =>
      obtain ⟨above, habove, hpost⟩ := h.posted _ _ _ hb hk
      refine Pipeline.level?_cons (ih habove) hpost.node ?_
      have hk' := h.above _ _ (below_cons.2 hb) hk
      rw [List.cons_append] at hrun
      rw [hrun] at hk'
      exact hk'.nested.inner

/-- A run that is there stays there. -/
theorem Tree.run_step (h : w.Tree r p) {m : Move} (hm : m.Of r) (hs : w.step? m = some w')
    {b : Address} {run : Run} (hrun : w.runs b = some run) :
    ∃ run', w'.runs b = some run' ∧ run'.pipeline = run.pipeline ∧ run'.token = run.token := by
  have same : w'.runs = w.runs → ∃ run', w'.runs b = some run' ∧
      run'.pipeline = run.pipeline ∧ run'.token = run.token := fun hr =>
    ⟨run, hr ▸ hrun, rfl, rfl⟩
  rcases step_cases hm hs with
    ⟨a, k, expired, -, ha, hk, hst⟩ | ⟨c, run₀, run₁, -, hc, ht, hp, htok, -⟩
  · cases hst with
    | entered stage new entry =>
      have hnone := h.runs_of_entering ha hk stage
      have hba : b ≠ a := by
        rintro rfl
        rw [hnone] at hrun
        cases hrun
      exact ⟨run, by rw [entry.runs, update_of_ne hba, hrun], rfl, rfl⟩
    | @told result stage ht =>
      rw [ht.runs]
      cases hr : w.runs a.tail with
      | none => exact ⟨run, hrun, rfl, rfl⟩
      | some run₀ =>
        rw [Option.elim_some]
        by_cases hba : b = a.tail
        · subst hba
          obtain rfl := Option.some.inj (hr.symm.trans hrun)
          have hl := later_delivered run₀ ⟨k.node.name, result⟩
          exact ⟨_, update_same _ _ _, hl.pipeline, hl.token⟩
        · exact ⟨run, by rw [update_of_ne hba, hrun], rfl, rfl⟩
    | _ => exact same (by assumption : w.Shift w' a k _ _).runs
  · rw [ht.runs]
    by_cases hbc : b = c
    · subst hbc
      obtain rfl := Option.some.inj (hc.symm.trans hrun)
      exact ⟨run₁, update_same _ _ _, hp, htok⟩
    · exact ⟨run, by rw [update_of_ne hbc, hrun], rfl, rfl⟩

/-- Where no run is, there is nothing below. -/
lemma Tree.empty_below (h : w.Tree r p) {c : Address} (hc : r <:+ c) (hn : w.runs c = none)
    {d : Address} (hd : c <:+ d) : w.runs d = none ∧ ∀ i, w.workers (i :: d) = none := by
  obtain ⟨path, rfl⟩ := hd
  have hr : ∀ path : Address, r <:+ path ++ c := fun path => hc.trans (List.suffix_append _ _)
  induction path with
  | nil => exact ⟨hn, h.workers_of_runs_none hc hn⟩
  | cons j path ih =>
    have hnone := h.bare (j :: (path ++ c)) (hr path) (ih.2 j)
    exact ⟨hnone, h.workers_of_runs_none (hr (j :: path)) hnone⟩

/-- Every worker stands for a node of some level. -/
lemma Tree.place (h : w.Tree r p) (ha : Below r a) (hk : w.workers a = some k) :
    ∃ i path run, a = i :: (path ++ r) ∧ w.runs (path ++ r) = some run ∧ Posted run i k ∧
      p.level? path = some run.pipeline := by
  cases a with
  | nil => exact ha.elim
  | cons i b =>
    obtain ⟨run, hrun, hpost⟩ := h.posted b i k ha hk
    obtain ⟨path, rfl⟩ := below_cons.1 ha
    exact ⟨i, path, run, rfl, hrun, hpost, h.level hrun⟩

/-- The token of the whole run is an ancestor of that of every run inside. -/
lemma Tree.token_suffix (h : w.Tree r p) {root : Run} (hroot : w.runs r = some root)
    {path : Address} {run : Run} (hrun : w.runs (path ++ r) = some run) :
    root.token <:+ run.token := by
  induction path generalizing run with
  | nil =>
    obtain rfl := Option.some.inj (hroot.symm.trans hrun)
    exact List.suffix_rfl
  | cons i path ih =>
    have hb : Below r (i :: (path ++ r)) := List.suffix_append path r
    rw [List.cons_append] at hrun
    cases hk : w.workers (i :: (path ++ r)) with
    | none =>
      rw [h.bare _ hb hk] at hrun
      cases hrun
    | some k =>
      obtain ⟨above, habove, hpost⟩ := h.posted _ _ _ hb hk
      have hnested := h.above _ _ hb hk
      rw [hrun] at hnested
      exact (ih habove).trans (hpost.token ▸ hnested.nested.token)

end World

end Dataflow
