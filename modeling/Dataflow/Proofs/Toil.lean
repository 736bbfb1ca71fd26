import Dataflow.Proofs.Hearing
import Dataflow.Proofs.Lines
import Dataflow.Run.Effort
import Mathlib.Algebra.Order.BigOperators.Group.List
import Mathlib.Algebra.BigOperators.Ring.List
import Mathlib.Algebra.Order.Group.Nat
import Mathlib.Algebra.Ring.Nat

/-!
Why every play comes to an end. Each worker has at most so many steps before it, each outcome is
looked at once, and each receiver returns once; every move of a run uses some of this up. What is
there at the start is at most twice the effort of the pipeline.
-/

namespace Dataflow

/-- A sum drops by `d` if one of its terms drops by `d` and no other grows. -/
lemma sum_map_drop {α : Type} {l : List α} {f g : α → Nat} {x : α} {d : Nat}
    (hle : ∀ y ∈ l, y ≠ x → g y ≤ f y) (hx : x ∈ l) (hd : g x + d ≤ f x) :
    (l.map g).sum + d ≤ (l.map f).sum := by
  have hall : ∀ y ∈ l, g y ≤ f y := by
    intro y hy
    by_cases hyx : y = x
    · subst hyx
      omega
    · exact hle y hy hyx
  induction l with
  | nil => simp at hx
  | cons y rest ih =>
    simp only [List.map_cons, List.sum_cons]
    rcases List.mem_cons.1 hx with rfl | hx
    · have := List.sum_le_sum (l := rest) (f := g) (g := f)
        fun z hz => hall z (List.mem_cons_of_mem _ hz)
      omega
    · have := ih (fun z hz => hle z (List.mem_cons_of_mem _ hz)) hx
        fun z hz => hall z (List.mem_cons_of_mem _ hz)
      have := hall y List.mem_cons_self
      omega

/-- The most steps that a worker in this stage can have before it, for a node with `outs` outputs.
Getting in line is a step too. -/
def Stage.toil (outs : Nat) (lined : Bool) : Stage → Nat
  | .gathering _ rest => 2 * rest.length + outs + if lined then 5 else 6
  | .calling _ _ => outs + 6
  | .entering _ _ => outs + 6
  | .inside _ => outs + 5
  | .checking _ => outs + 4
  | .sending ready _ => ready.length + 3
  | .ended _ => 2
  | .reported _ => 0

/-- The same for a worker that is still to come. -/
def Node.toil (n : Node) : Nat := 2 * n.inputs.length + n.outputs.length + 6

/-- The worker is in line for the input that it needs next. -/
def World.lined (w : World) (a : Address) : Stage → Bool
  | .gathering _ (c :: _) => (w.conduit c).line.contains a
  | _ => false

def World.toilAt (w : World) (a : Address) (n : Node) : Nat :=
  match w.workers a with
  | none => n.toil
  | some k => k.stage.toil k.node.outputs.length (w.lined a k.stage)

/-- What the receiver of a run has before it. -/
def Run.hearing (run : Run) : Nat :=
  match run.collector with
  | .returned _ => run.mailbox.length
  | _ => run.mailbox.length + 1

def World.hearingAt (w : World) (b : Address) : Nat := (w.runs b).elim 1 Run.hearing

def World.levelToil (w : World) (b : Address) (q : Pipeline) : Nat :=
  w.hearingAt b + (q.nodes.zipIdx.map fun t => w.toilAt (t.2 :: b) t.1).sum

/-- All that is before a run of `p` at `r`. -/
def World.toil (w : World) (r : Address) (p : Pipeline) : Nat :=
  (p.tiers.map fun t => w.levelToil (t.1 ++ r) t.2).sum

lemma Stage.toil_gather_le (n : Node) (got : Payload) (rest : List Channel) (lined : Bool) :
    (n.gather got rest).toil n.outputs.length lined ≤
      2 * rest.length + n.outputs.length + 6 := by
  rcases n.gather_cases got rest with
    ⟨c, cs, rfl, hg⟩ | ⟨rfl, ⟨logic, hl, hg⟩ | ⟨inner, hi, hg⟩⟩ <;> rw [hg] <;> simp only [toil]
  · split <;> omega
  · simp
  · simp

lemma Node.length_pair {n : Node} {produced : Payload} {outs : List Channel}
    {ready : List (Channel × Value)} (h : (n.pair produced outs).2 = .ok ready) :
    ready.length ≤ outs.length := by
  induction outs generalizing ready with
  | nil =>
    simp only [pair, Except.ok.injEq] at h
    simp [← h]
  | cons c rest ih =>
    rw [pair] at h
    cases hv : produced.get? c.name with
    | none =>
      simp only [hv] at h
      exact Nat.le_succ_of_le (ih h)
    | some v =>
      cases hc : c.check v with
      | error e => simp [hv, hc] at h
      | ok u =>
        cases hr : (n.pair produced rest).2 with
        | error e => simp [hv, hc, hr, Except.map] at h
        | ok tail =>
          simp only [hv, hc, hr, Except.map, Except.ok.injEq] at h
          subst h
          simpa using ih hr

lemma Node.length_prepare {n : Node} {produced : Payload} {ready : List (Channel × Value)}
    (h : (n.prepare produced).2 = .ok ready) : ready.length ≤ n.outputs.length := by
  unfold prepare at h
  rcases hp : n.pair produced n.outputs with ⟨notices, e | ready'⟩
  · simp [hp] at h
  · simp only [hp, Except.ok.injEq] at h
    exact h ▸ length_pair (by rw [hp])

namespace World

variable {w w' v : World} {r a b : Address} {p : Pipeline} {k : Worker} {run : Run}

lemma hearing_attended (run : Run) : run.attended.hearing = run.hearing := by
  unfold Run.attended
  cases hc : run.collector <;> simp [Run.hearing, hc]

/-- Where the worker and its place in line are the same, so is the toil. -/
lemma toilAt_congr {n : Node} (hw : w'.workers a = w.workers a)
    (hl : ∀ x, a ∈ (w'.conduits x).line ↔ a ∈ (w.conduits x).line) :
    w'.toilAt a n = w.toilAt a n := by
  have hlined : ∀ s, w'.lined a s = w.lined a s := by
    intro s
    unfold lined
    split
    · rw [List.contains_eq_mem, List.contains_eq_mem]
      exact decide_eq_decide.2 (hl _)
    · rfl
  simp only [toilAt, hw, hlined]

lemma toilAt_new_le {n : Node} {token : Token} {limit : Option Duration}
    (h : w.workers a = some (.new n token limit)) : w.toilAt a n ≤ n.toil := by
  rw [toilAt, h]
  exact Stage.toil_gather_le _ _ _ _

/-- The toil of a run is made of what stands at its address and below. -/
lemma toil_congr (hw : ∀ a, Below r a → w'.workers a = w.workers a)
    (hl : ∀ a x, Below r a → (a ∈ (w'.conduits x).line ↔ a ∈ (w.conduits x).line))
    (hb : ∀ b, r <:+ b → w'.hearingAt b = w.hearingAt b) : w'.toil r p = w.toil r p := by
  unfold toil
  refine congrArg List.sum (List.map_congr_left fun t _ => ?_)
  have hr : r <:+ t.1 ++ r := List.suffix_append _ _
  unfold levelToil
  rw [hb _ hr]
  refine congrArg _ (congrArg List.sum (List.map_congr_left fun s _ => ?_))
  have ha : Below r (s.2 :: (t.1 ++ r)) := hr
  exact toilAt_congr (hw _ ha) fun x => hl _ x ha

/-- A step at one place of a level uses something up, as long as nothing grows elsewhere. -/
lemma toil_drop (ht : w.Tree r p) (hrun : w.runs b = some run) (hb : r <:+ b)
    (hlevels : ∀ c, r <:+ c → c ≠ b → w'.hearingAt c ≤ w.hearingAt c)
    (hnodes : ∀ path q i n, p.level? path = some q → q.nodes[i]? = some n →
      path ++ r ≠ b → w'.toilAt (i :: (path ++ r)) n ≤ w.toilAt (i :: (path ++ r)) n)
    (hhere : w'.levelToil b run.pipeline + 1 ≤ w.levelToil b run.pipeline) :
    w'.toil r p + 1 ≤ w.toil r p := by
  obtain ⟨path, rfl⟩ := hb
  have hlevel := ht.level hrun
  refine sum_map_drop (x := (path, run.pipeline)) ?_ (Pipeline.mem_tiers.2 hlevel) hhere
  rintro ⟨path', q⟩ hmem hne
  have hq := Pipeline.mem_tiers.1 hmem
  have hpath : path' ++ r ≠ path ++ r := by
    intro heq
    obtain rfl := List.append_cancel_right heq
    rw [hlevel] at hq
    exact hne (by rw [Option.some.inj hq])
  refine Nat.add_le_add (hlevels _ (List.suffix_append _ _) hpath) (List.sum_le_sum ?_)
  rintro ⟨n, i⟩ hn
  exact hnodes path' q i n hq (List.mk_mem_zipIdx_iff_getElem?.1 hn) hpath

/-- Other workers have no more before them than they had. -/
lemma toilAt_le_of_ne (ht : w.Tree r p) (ht' : w'.Tree r p) (hl : w.Lines r) (ha : Below r a)
    (hk : w.workers a = some k) {expired : Bool} (hst : w.Stride w' a k expired)
    {path : Address} {q : Pipeline} {i : Nat} {n : Node} (hq : p.level? path = some q)
    (hn : q.nodes[i]? = some n) (hne : i :: (path ++ r) ≠ a) :
    w'.toilAt (i :: (path ++ r)) n ≤ w.toilAt (i :: (path ++ r)) n := by
  rcases ht.worker_of_ne ha hk hst hne with hw | ⟨hnone, n', token, limit, hnew⟩
  · exact Nat.le_of_eq (toilAt_congr hw (hl.line_of_ne hst hne))
  · -- a new worker stands where the level has its node
    obtain ⟨run, hrun, hpost⟩ := ht'.posted _ i _ (List.suffix_append path r) hnew
    obtain rfl := Option.some.inj (hq.symm.trans (ht'.level hrun))
    obtain rfl := Option.some.inj (hn.symm.trans hpost.node)
    rw [show w.toilAt (i :: (path ++ r)) _ = _ by rw [toilAt, hnone]]
    exact toilAt_new_le hnew

lemma le_toil_gathering (outs : Nat) (lined : Bool) (got : Payload) (c : Channel)
    (rest : List Channel) :
    2 * rest.length + outs + 7 ≤ (Stage.gathering got (c :: rest)).toil outs lined := by
  simp only [Stage.toil, List.length_cons]
  split <;> omega

lemma hearing_delivered_le (run : Run) (o : Outcome) :
    (delivered run o).hearing ≤ run.hearing + 1 := by
  unfold delivered
  cases hc : run.collector <;> simp only [Run.hearing, hc, List.length_append,
    List.length_singleton] <;> omega

/-- What a step uses up is more than what it leaves to the receiver. -/
lemma Stride.toil_drop (hk : w.workers a = some k) (ha : a ≠ []) {expired : Bool}
    (hst : w.Stride w' a k expired) (n : Node) :
    ∃ d, w'.toilAt a n + d ≤ w.toilAt a n ∧
      w'.hearingAt a.tail + 1 ≤ w.hearingAt a.tail + d := by
  have hold : w.toilAt a n = k.stage.toil k.node.outputs.length (w.lined a k.stage) := by
    rw [toilAt, hk]
  have hnew : ∀ {s : Stage}, w'.workers a = some { k with stage := s } →
      w'.toilAt a n = s.toil k.node.outputs.length (w'.lined a s) := by
    intro s hw
    rw [toilAt, hw]
  have shift : ∀ {s : Stage} {f : Nat → Conduit Address}, w.Shift w' a k s f →
      s.toil k.node.outputs.length (w'.lined a s) + 1 ≤
        k.stage.toil k.node.outputs.length (w.lined a k.stage) →
      ∃ d, w'.toilAt a n + d ≤ w.toilAt a n ∧
        w'.hearingAt a.tail + 1 ≤ w.hearingAt a.tail + d := by
    intro s f hsh hle
    refine ⟨1, by rwa [hold, hnew (by rw [hsh.workers, update_same])], ?_⟩
    rw [hearingAt, hearingAt, hsh.runs]
  cases hst with
  | @linedUp got c rest stage alive empty new hsh =>
    refine shift hsh ?_
    have hout : w.lined a k.stage = false := by
      simpa [lined, stage] using Conduit.not_mem_line_of_usePermit? empty new
    have hin : w'.lined a k.stage = true := by
      simp [lined, stage, conduit, hsh.conduits, Conduit.mem_line_enqueue]
    rw [hout, hin, stage]
    simp [Stage.toil]
  | @took got c rest q₁ q₂ x stage alive permit pop hsh =>
    refine shift hsh ?_
    have hgather := Stage.toil_gather_le k.node (got.insert c.name x) rest
      (w'.lined a (k.node.gather (got.insert c.name x) rest))
    have hbefore := le_toil_gathering k.node.outputs.length (w.lined a k.stage) got c rest
    rw [← stage] at hbefore
    omega
  | @foundNothing got c rest q stage permit pop hsh =>
    refine shift hsh ?_
    have hbefore := le_toil_gathering k.node.outputs.length (w.lined a k.stage) got c rest
    rw [← stage] at hbefore
    change 2 + 1 ≤ _
    omega
  | @gaveUp got c rest e stage why hsh =>
    refine shift hsh ?_
    have hbefore := le_toil_gathering k.node.outputs.length (w.lined a k.stage) got c rest
    rw [← stage] at hbefore
    change 2 + 1 ≤ _
    omega
  | entered stage new entry =>
    refine ⟨1, ?_, ?_⟩
    · rw [hold, hnew (by rw [entry.workers, update_same]), stage]
      exact Nat.le_refl _
    · have hne : a.tail ≠ a := by
        cases a with
        | nil => exact absurd rfl ha
        | cons i b => exact (cons_ne_self i b).symm
      rw [hearingAt, hearingAt, entry.runs, update_of_ne hne]
  | checked stage fits hsh =>
    refine shift hsh ?_
    have := Node.length_prepare fits
    rw [stage]
    simp only [Stage.toil]
    omega
  | told stage ht =>
    refine ⟨2, ?_, ?_⟩
    · rw [hold, hnew (by rw [ht.workers, update_same]), stage]
      exact Nat.le_refl _
    · rw [hearingAt, hearingAt, ht.runs]
      cases hr : w.runs a.tail with
      | none => simp [hr]
      | some run =>
        rw [Option.elim_some, update_same, Option.elim_some, Option.elim_some]
        exact Nat.add_le_add_right (hearing_delivered_le run _) 1
  | called stage _ hsh => exact shift hsh (by simp [stage, Stage.toil])
  | crashed stage _ hsh => exact shift hsh (by simp [stage, Stage.toil])
  | refused stage _ hsh => exact shift hsh (by simp [stage, Stage.toil])
  | innerFailed stage _ _ hsh => exact shift hsh (by simp [stage, Stage.toil])
  | left stage _ _ _ hsh => exact shift hsh (by simp [stage, Stage.toil])
  | missed stage _ _ _ hsh => exact shift hsh (by simp [stage, Stage.toil])
  | rejected stage _ hsh => exact shift hsh (by simp [stage, Stage.toil])
  | sent stage _ hsh => exact shift hsh (by simp [stage, Stage.toil])
  | unsent stage _ hsh => exact shift hsh (by simp [stage, Stage.toil])
  | finished stage hsh => exact shift hsh (by simp [stage, Stage.toil])

/-- The receivers of other runs have no more before them than they had. -/
lemma Stride.hearingAt_le {expired : Bool} (hst : w.Stride w' a k expired) (hb : b ≠ a.tail)
    (hnone : ∀ inner inputs, k.stage = .entering inner inputs → w.runs a = none) :
    w'.hearingAt b ≤ w.hearingAt b := by
  have same : w'.runs = w.runs → w'.hearingAt b ≤ w.hearingAt b := fun h => by
    rw [hearingAt, hearingAt, h]
  cases hst with
  | entered stage new entry =>
    rw [hearingAt, hearingAt, entry.runs]
    by_cases hba : b = a
    · subst hba
      rw [update_same, hnone _ _ stage]
      simp [Run.hearing]
    · rw [update_of_ne hba]
  | told stage ht =>
    rw [hearingAt, hearingAt, ht.runs]
    cases w.runs a.tail with
    | none => exact Nat.le_refl _
    | some run => rw [Option.elim_some, update_of_ne hb]
  | _ => exact same (by assumption : w.Shift w' a k _ _).runs

theorem toil_stride (ht : w.Tree r p) (hl : w.Lines r) (ha : Below r a)
    (hk : w.workers a = some k) {expired : Bool} (hst : w.Stride w' a k expired) :
    w'.toil r p + 1 ≤ w.toil r p := by
  have ht' := ht.stride ha hk hst
  have hnone : ∀ inner inputs, k.stage = .entering inner inputs → w.runs a = none :=
    fun _ _ => ht.runs_of_entering ha hk
  cases a with
  | nil => exact ha.elim
  | cons i b =>
    obtain ⟨run, hrun, hpost⟩ := ht.posted b i k ha hk
    obtain ⟨path, rfl⟩ := below_cons.1 ha
    have hlevel := ht.level hrun
    obtain ⟨d, hat, hhear⟩ := hst.toil_drop hk (by simp) k.node
    refine toil_drop ht hrun (List.suffix_append _ _)
      (fun c _ hc => hst.hearingAt_le hc hnone) ?_ ?_
    · intro path' q j n hq hn hne
      refine toilAt_le_of_ne ht ht' hl ha hk hst hq hn fun heq => ?_
      exact hne (List.cons.inj heq).2
    · have hsum : (run.pipeline.nodes.zipIdx.map fun t => w'.toilAt (t.2 :: (path ++ r)) t.1).sum
          + d ≤ (run.pipeline.nodes.zipIdx.map fun t => w.toilAt (t.2 :: (path ++ r)) t.1).sum := by
        refine sum_map_drop (x := (k.node, i)) ?_
          (List.mk_mem_zipIdx_iff_getElem?.2 hpost.node) hat
        rintro ⟨n, j⟩ hn hne
        have hnj := List.mk_mem_zipIdx_iff_getElem?.1 hn
        refine toilAt_le_of_ne ht ht' hl ha hk hst hlevel hnj fun heq => ?_
        obtain rfl := (List.cons.inj heq).1
        rw [hpost.node] at hnj
        exact hne (by rw [Option.some.inj hnj])
      rw [List.tail_cons] at hhear
      unfold levelToil
      omega

/-- A receiver that goes on uses something up. -/
lemma toil_turned (ht : w.Tree r p) (hb : r <:+ b) {run' : Run} (hrun : w.runs b = some run)
    (hturn : w.Turned w' b run') (hlt : run'.hearing + 1 ≤ run.hearing) :
    w'.toil r p + 1 ≤ w.toil r p := by
  have hat : ∀ a n, w'.toilAt a n = w.toilAt a n := fun a n =>
    toilAt_congr (by rw [hturn.workers]) fun x => by rw [hturn.conduits]
  have hhear : w'.hearingAt b + 1 ≤ w.hearingAt b := by
    rw [hearingAt, hearingAt, hturn.runs, update_same, hrun]
    exact hlt
  refine toil_drop ht hrun hb (fun c _ hc => ?_) (fun _ _ _ _ _ _ _ => Nat.le_of_eq (hat _ _)) ?_
  · rw [hearingAt, hearingAt, hturn.runs, update_of_ne hc]
  · simp only [levelToil, hat]
    omega

/-- **Every move of a run uses up some of its toil.** -/
theorem toil_step (ht : w.Tree r p) (hl : w.Lines r) {m : Move} (hm : m.Of r)
    (hs : w.step? m = some w') : w'.toil r p + 1 ≤ w.toil r p := by
  cases m with
  | work a =>
    obtain ⟨k, hk, hst⟩ := stride_of_work? hs
    exact toil_stride ht hl hm hk hst
  | expire a =>
    obtain ⟨k, hk, hst⟩ := stride_of_work? hs
    exact toil_stride ht hl hm hk hst
  | collect b =>
    cases collected_of_collect? hs with
    | success running collector mailbox _ turned _ =>
      exact toil_turned ht hm running turned (by simp [Run.hearing, collector, mailbox])
    | failure running collector mailbox _ _ turned _ =>
      exact toil_turned ht hm running turned (by simp [Run.hearing, collector, mailbox])
  | conclude b =>
    obtain ⟨run, completed, failure, hc⟩ := concluded_of_conclude? hs
    exact toil_turned ht hm hc.running hc.turned
      (by simp [Run.hearing, hc.collector, hc.mailbox])
  | cancel t => exact hm.elim

lemma toil_await : (w.await r).toil r p = w.toil r p := by
  obtain ⟨hw, hc, -⟩ := await_others w r
  refine toil_congr (fun a _ => by rw [hw]) (fun a x _ => by rw [hc]) fun b _ => ?_
  rw [hearingAt, hearingAt, runs_await]
  split
  · cases w.runs b with
    | none => rfl
    | some run => exact hearing_attended run
  · rfl

lemma toil_outside (hl : w.Lines r) (ho : w.Outside r w') : w'.toil r p = w.toil r p :=
  toil_congr ho.workers (fun a x ha => (ho.conduits x (hl.orderly x)).2 a ha)
    fun b hb => by rw [hearingAt, hearingAt, ho.runs b hb]

end World

/-! ### What there is at the start -/

def Pipeline.toil (p : Pipeline) : Nat := 1 + (p.nodes.map Node.toil).sum

lemma sum_tiersFrom (f : Pipeline → Nat) (i : Nat) (nodes : List Node) :
    ((tiersFrom i nodes).map fun t => f t.2).sum =
      (nodes.map fun n => (n.tiers.map fun t => f t.2).sum).sum := by
  induction nodes generalizing i with
  | nil => rfl
  | cons n rest ih => simp [tiersFrom, ih, Function.comp_def]

lemma Node.effort_eq (n : Node) :
    n.effort = n.inputs.length + n.outputs.length + n.body.effort + 8 := by
  cases n
  rfl

lemma Pipeline.effort_eq (p : Pipeline) : p.effort = (p.nodes.map Node.effort).sum + 2 := by
  obtain ⟨_, _, _, _, nodes⟩ := p
  have htotal : totalEffort nodes = (nodes.map Node.effort).sum := by
    induction nodes with
    | nil => rfl
    | cons n rest ih => rw [totalEffort, ih, List.map_cons, List.sum_cons]
  rw [Pipeline.effort, htotal]

lemma sum_tiers_le (p : Pipeline) : (p.tiers.map fun t => t.2.toil).sum ≤ 2 * p.effort := by
  induction p using Pipeline.nest_induction with
  | step p ih =>
    have hnode : ∀ n ∈ p.nodes,
        n.toil + (n.tiers.map fun t => t.2.toil).sum ≤ 2 * n.effort := by
      intro n hn
      have hbody : (n.tiers.map fun t => t.2.toil).sum ≤ 2 * n.body.effort := by
        obtain ⟨_, _, _, body⟩ := n
        cases body with
        | composite inner => exact ih _ hn inner rfl
        | _ => exact Nat.zero_le _
      rw [Node.effort_eq, Node.toil]
      omega
    have hsum := List.sum_le_sum hnode
    rw [List.sum_map_add, List.sum_map_mul_left p.nodes Node.effort 2] at hsum
    rw [Pipeline.tiers_eq, List.map_cons, List.sum_cons, sum_tiersFrom, Pipeline.effort_eq]
    change 1 + (p.nodes.map Node.toil).sum + _ ≤ _
    omega

namespace World

variable {w w' v : World} {r : Address} {p : Pipeline}

lemma toil_of_launched {initial : Payload} {token : Token} (hv : w.Vacant r)
    (hl : w.Launched w' r p initial token) : w'.toil r p ≤ 2 * p.effort := by
  suffices hlevels : ∀ t ∈ p.tiers, w'.levelToil (t.1 ++ r) t.2 ≤ t.2.toil by
    calc w'.toil r p
      _ ≤ (p.tiers.map fun t => t.2.toil).sum := List.sum_le_sum hlevels
      _ ≤ 2 * p.effort := sum_tiers_le p
  rintro ⟨path, q⟩ hmem
  have hb : r <:+ path ++ r := List.suffix_append _ _
  have hq := Pipeline.mem_tiers.1 hmem
  apply Nat.add_le_add
  · rw [hearingAt, hl.runs]
    by_cases hr : path ++ r = r
    · rw [hr, update_same]
      exact Nat.le_refl 1
    · rw [update_of_ne hr, hv.runs _ hb]
      exact Nat.le_refl 1
  · rw [← List.zipIdx_map_fst 0 q.nodes, List.map_map, List.zipIdx_map_fst]
    apply List.sum_le_sum
    rintro ⟨n, i⟩ hn
    have hni := List.mk_mem_zipIdx_iff_getElem?.1 hn
    by_cases hr : path = []
    · subst hr
      obtain rfl := Option.some.inj hq
      have hk := hl.worker_new hv i
      rw [hni] at hk
      exact toilAt_new_le hk
    · have hne : ∀ j, i :: (path ++ r) ≠ j :: r := by
        intro j hj
        exact hr (List.append_left_eq_self.1 (List.cons.inj hj).2)
      have hnone : w'.workers (i :: (path ++ r)) = none := by
        rw [hl.workers, staff_of_tail_ne hne, hv.workers _ (below_cons.2 hb)]
      simp only [toilAt, hnone, Function.comp_apply]
      exact Nat.le_refl _

/-- A play is no longer than the toil that it uses up. -/
lemma toil_plays {env : World → World → Prop} {ms : List Move}
    (henv : ∀ u u', env u u' → u.Outside r u') (ht : w.Tree r p) (hl : w.Lines r)
    (hplay : w.Plays r env ms v) :
    v.Tree r p ∧ v.Lines r ∧ v.toil r p + ms.length ≤ w.toil r p := by
  induction hplay with
  | start => exact ⟨ht, hl, Nat.le_refl _⟩
  | move _ own step ih =>
    obtain ⟨ht', hl', hle⟩ := ih
    have hdrop := toil_step ht' hl' own step
    refine ⟨ht'.step own step, hl'.step ht' own step, ?_⟩
    rw [List.length_append, List.length_singleton]
    omega
  | await _ ih =>
    obtain ⟨ht', hl', hle⟩ := ih
    exact ⟨ht'.await, hl'.await, by rwa [toil_await]⟩
  | others _ act ih =>
    obtain ⟨ht', hl', hle⟩ := ih
    have hact := henv _ _ act
    exact ⟨ht'.outside hact, hl'.outside hact, by rwa [toil_outside hl' hact]⟩

/-- **Every play of a run is short**: it has at most twice the effort of the pipeline. -/
theorem length_plays_le {initial : Payload} {token : Token} {runtime : Bool}
    {env : World → World → Prop} {ms : List Move} (hv : w.Vacant r)
    (ho : ∀ x, (w.conduits x).Orderly) (hstart : w.start r p initial token runtime = .ok w')
    (henv : ∀ u u', env u u' → u.Outside r u') (hplay : w'.Plays r env ms v) :
    ms.length ≤ 2 * p.effort := by
  obtain ⟨-, -, hl⟩ := start_eq_ok hstart
  have hplays := toil_plays henv (tree_of_launched hv hl) (lines_of_launched hv ho hl) hplay
  have hfirst := toil_of_launched hv hl
  omega

/-- Any world can be played on, with one worker held back, until nobody else has a move left. -/
lemma exists_resting {u : World} {o : Address} {ms : List Move} {N : Nat}
    {J : World → Prop}
    (hbound : ∀ ns u, v.Plays r Alone ns u → ns.length ≤ N)
    (hstep : ∀ ns u u' m, v.Plays r Alone ns u → J u → m.Of r → m ≠ .work o → m ≠ .expire o →
      u.step? m = some u' → J u')
    (hplay : v.Plays r Alone ms u) (hJ : J u) :
    ∃ ns u', v.Plays r Alone ns u' ∧ J u' ∧ u'.Resting r o := by
  induction h : N - ms.length using Nat.strongRecOn generalizing ms u with
  | ind left ih =>
    by_cases hrest : u.Resting r o
    · exact ⟨ms, u, hplay, hJ, hrest⟩
    · simp only [Resting, not_forall] at hrest
      obtain ⟨m, hm, hwork, hexpire, hsome⟩ := hrest
      obtain ⟨u', hs⟩ := Option.ne_none_iff_exists'.1 hsome
      have hnext := hplay.move hm hs
      have hlt : N - (ms ++ [m]).length < left := by
        have := hbound _ _ hnext
        rw [List.length_append, List.length_singleton] at this ⊢
        omega
      exact ih _ hlt hnext (hstep ms u u' m hplay hJ hm hwork hexpire hs) rfl

end World

end Dataflow
