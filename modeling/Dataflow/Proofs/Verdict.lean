import Dataflow.Proofs.Chronicle
import Dataflow.Proofs.Standstill

/-!
What a wait comes to. A receiver sees the outcomes of the workers of its run in the order in which
they were told, each of them once, and what it returns is decided by them.

Main statement: at all times what a receiver has seen and what is in its mailbox are the outcomes
that were told so far, and a wait that has returned has returned their verdict
(`tally_of_chronicle`).
-/

namespace Dataflow

def Outcome.error? (o : Outcome) : Option ExecutionError :=
  match o.result with
  | .ok () => none
  | .error e => some e

def firstFailure (os : List Outcome) : Option ExecutionError := os.findSome? Outcome.error?

/-- The names of the nodes that succeeded. -/
def successes (os : List Outcome) : List String :=
  (os.filter fun o => o.error?.isNone).map (·.node)

/-- What a wait for a run of `q` returns once it has seen these outcomes. -/
def verdict (q : Pipeline) (os : List Outcome) : Except ExecutionError Report :=
  (firstFailure os).elim (.ok ⟨q.name, successes os⟩) .error

section

variable {os : List Outcome} {o : Outcome} {e : ExecutionError}

lemma firstFailure_append_ok (h : o.result = .ok ()) :
    firstFailure (os ++ [o]) = firstFailure os := by
  simp [firstFailure, List.findSome?_append, Outcome.error?, h]

lemma firstFailure_append_error (h : o.result = .error e) :
    firstFailure (os ++ [o]) = some ((firstFailure os).getD e) := by
  unfold firstFailure
  rw [List.findSome?_append]
  cases os.findSome? Outcome.error? <;> simp [Outcome.error?, h]

lemma successes_append_ok (h : o.result = .ok ()) :
    successes (os ++ [o]) = successes os ++ [o.node] := by
  simp [successes, Outcome.error?, h]

lemma successes_append_error (h : o.result = .error e) : successes (os ++ [o]) = successes os := by
  simp [successes, Outcome.error?, h]

lemma firstFailure_ne_none (ho : o ∈ os) (h : o.result = .error e) : firstFailure os ≠ none := by
  intro hnone
  have := List.findSome?_eq_none_iff.1 hnone o ho
  simp [Outcome.error?, h] at this

end

/-- What the deed leaves in the mailbox of the run of `q` at `b`. -/
def Deed.outcome? (q : Pipeline) (b : Address) : Deed → Option Outcome
  | told (i :: a) result => if a = b then (q.nodes[i]?).map fun n => ⟨n.name, result⟩ else none
  | _ => none

/-- The outcomes of the run of `q` at `b`, in the order in which they were told. -/
def outcomes (q : Pipeline) (b : Address) (ds : List Deed) : List Outcome :=
  ds.filterMap (Deed.outcome? q b)

/-- What the receiver of a run has made of the outcomes so far. -/
def Run.Heard (run : Run) (os : List Outcome) : Prop :=
  match run.collector with
  | .idle => run.mailbox = os
  | .waiting completed failure => ∃ seen, os = seen ++ run.mailbox ∧ completed = successes seen ∧
      failure = firstFailure seen
  | .returned result => result = verdict run.pipeline os
  | .dropped => True

lemma Run.heard_attended {run : Run} {os : List Outcome} (h : run.Heard os) :
    run.attended.Heard os := by
  unfold attended
  cases hc : run.collector with
  | idle =>
    rw [Heard, hc] at h
    exact ⟨[], h.symm, rfl, rfl⟩
  | _ => exact h

section

variable {q : Pipeline} {a b : Address} {ds es : List Deed} {i : Nat}
  {result : Except ExecutionError Unit} {o : Outcome}

lemma outcomes_append (q : Pipeline) (b : Address) (ds es : List Deed) :
    outcomes q b (ds ++ es) = outcomes q b ds ++ outcomes q b es := List.filterMap_append

lemma outcomes_told {n : Node} (hn : q.nodes[i]? = some n) :
    outcomes q b [.told (i :: b) result] = [⟨n.name, result⟩] := by
  simp [outcomes, Deed.outcome?, hn]

lemma outcomes_of_ne (h : a ≠ b) : outcomes q b [.told (i :: a) result] = [] := by
  simp [outcomes, Deed.outcome?, h]

lemma mem_outcomes {n : Node} (hn : q.nodes[i]? = some n) (h : .told (i :: b) result ∈ ds) :
    ⟨n.name, result⟩ ∈ outcomes q b ds :=
  List.mem_filterMap.2 ⟨_, h, by simp [Deed.outcome?, hn]⟩

/-- Deeds that are no reports leave no outcomes. -/
lemma outcomes_of_untold (h : ∀ a result, .told a result ∉ ds) : outcomes q b ds = [] := by
  refine List.filterMap_eq_nil_iff.2 fun d hd => ?_
  cases d with
  | told a result => exact absurd hd (h a result)
  | _ => rfl

end

namespace World

variable {w w' v u : World} {r a b : Address} {p : Pipeline} {k : Worker} {run : Run}
  {ds es : List Deed}

/-- Only a step that is a report tells anything. -/
lemma Doing.untold (h : w.Doing w' a k es) :
    (∃ result, k.stage = .ended result ∧ es = [.told a result] ∧ w.Told w' a k result) ∨
      ∀ b result, .told b result ∉ es := by
  cases h with
  | @told result stage told => exact .inl ⟨result, stage, rfl, told⟩
  | left => exact .inr (by simp)
  | missed => exact .inr (by simp)
  | _ => exact .inr (by simp)

/-- What a step does to the runs, unless it is a report. -/
lemma Doing.runs (h : w.Doing w' a k es) (hno : ∀ b result, .told b result ∉ es) :
    w'.runs = w.runs ∨ ∃ inner inputs id, k.stage = .entering inner inputs ∧
      w.Entered w' a k inner id inputs := by
  cases h with
  | entered stage entry => exact .inr ⟨_, _, _, stage, entry⟩
  | told stage told => exact absurd (List.mem_singleton_self _) (hno a _)
  | _ => exact .inl (by assumption : w.Shift w' a k _ _).runs

/-- What was told so far is what the receivers at `r` and below have heard. -/
structure Tally (v : World) (r : Address) (ds : List Deed) : Prop where
  heard : ∀ b run, r <:+ b → v.runs b = some run → run.Heard (outcomes run.pipeline b ds)
  silent : ∀ b i result, r <:+ b → v.runs b = none → .told (i :: b) result ∉ ds

lemma Tally.same (h : v.Tally r ds) (hr : ∀ b, r <:+ b → u.runs b = v.runs b) : u.Tally r ds where
  heard b run hb hrun := h.heard b run hb (hr b hb ▸ hrun)
  silent b i result hb hrun := h.silent b i result hb (hr b hb ▸ hrun)

/-- Nothing has been told where no run has been. -/
lemma Tally.outcomes_eq_nil (h : v.Tally r ds) (hb : r <:+ b) (hrun : v.runs b = none)
    (q : Pipeline) : outcomes q b ds = [] := by
  refine List.filterMap_eq_nil_iff.2 fun d hd => ?_
  cases d with
  | told a result =>
    cases a with
    | nil => rfl
    | cons i a =>
      have hab : a ≠ b := fun heq => h.silent b i result hb hrun (heq ▸ hd)
      simp [Deed.outcome?, hab]
  | _ => rfl

lemma Tally.told (h : v.Tally r ds) (hc : v.Course r p) (ha : Below r a)
    (hk : v.workers a = some k) {result : Except ExecutionError Unit}
    (hs : k.stage = .ended result) (ht : v.Told u a k result) :
    u.Tally r (ds ++ [.told a result]) := by
  cases a with
  | nil => exact ha.elim
  | cons i a =>
  obtain ⟨run, hrun, hpost⟩ := hc.tree.posted a i k ha hk
  have hruns : u.runs = update v.runs a (some (delivered run ⟨k.node.name, result⟩)) := by
    rw [ht.runs, List.tail_cons, hrun]
    rfl
  refine ⟨fun b run' hb hrun' => ?_, fun b j result' hb hnone hmem => ?_⟩
  · rw [hruns] at hrun'
    rw [outcomes_append]
    by_cases hba : b = a
    · subst hba
      rw [update_same] at hrun'
      obtain rfl := Option.some.inj hrun'
      have hold := h.heard b run hb hrun
      have hopen : ¬ run.Over := fun hover => by
        obtain ⟨_, hs'⟩ := ((hc.hearing b run hb hrun).closed hover).2 i k hk
        rw [hs] at hs'
        cases hs'
      rw [(later_delivered run _).pipeline, outcomes_told hpost.node]
      unfold delivered
      cases hcol : run.collector with
      | idle =>
        rw [Run.Heard, hcol] at hold
        simp only [Run.Heard, hold]
      | waiting completed failure =>
        rw [Run.Heard, hcol] at hold
        obtain ⟨seen, hos, hdone, hfail⟩ := hold
        simp only [Run.Heard]
        exact ⟨seen, by rw [hos, List.append_assoc], hdone, hfail⟩
      | returned result' => exact absurd ⟨result', hcol⟩ hopen
      | dropped => exact absurd hcol (hc.hearing b run hb hrun).kept
    · rw [update_of_ne hba] at hrun'
      rw [outcomes_of_ne (Ne.symm hba), List.append_nil]
      exact h.heard b run' hb hrun'
  · have hba : b ≠ a := by
      rintro rfl
      rw [hruns, update_same] at hnone
      cases hnone
    rw [hruns, update_of_ne hba] at hnone
    rcases List.mem_append.1 hmem with hmem | hmem
    · exact h.silent b j result' hb hnone hmem
    · exact hba (List.cons.inj (Deed.told.inj (List.mem_singleton.1 hmem)).1).2

lemma Tally.entered (h : v.Tally r ds) (ha : Below r a) (hnone : v.runs a = none)
    {inner : Pipeline} {inputs : Payload} {id : Nat} (he : v.Entered u a k inner id inputs)
    (hno : ∀ b result, .told b result ∉ es) : u.Tally r (ds ++ es) := by
  refine ⟨fun b run hb hrun => ?_, fun b i result hb hrun hmem => ?_⟩
  · rw [outcomes_append, outcomes_of_untold hno, List.append_nil]
    rw [he.runs] at hrun
    by_cases hba : b = a
    · subst hba
      rw [update_same] at hrun
      obtain rfl := Option.some.inj hrun
      rw [h.outcomes_eq_nil hb hnone]
      exact ⟨[], rfl, rfl, rfl⟩
    · rw [update_of_ne hba] at hrun
      exact h.heard b run hb hrun
  · rw [he.runs] at hrun
    rcases List.mem_append.1 hmem with hmem | hmem
    · by_cases hba : b = a
      · exact h.silent b i result hb (hba ▸ hnone) hmem
      · rw [update_of_ne hba] at hrun
        exact h.silent b i result hb hrun hmem
    · exact hno _ _ hmem

lemma Tally.work (h : v.Tally r ds) (hc : v.Course r p) (ha : Below r a) {expired : Bool}
    (hs : v.work? a expired = some u) : u.Tally r (ds ++ v.workDeeds a expired) := by
  obtain ⟨k, hk, -⟩ := stride_of_work? hs
  have hdo := doing_of_work? hk hs
  generalize v.workDeeds a expired = es at hdo
  rcases hdo.untold with ⟨result, hstage, rfl, ht⟩ | hno
  · exact h.told hc ha hk hstage ht
  · rcases hdo.runs hno with hruns | ⟨inner, inputs, id, hstage, he⟩
    · have hsame := h.same (u := u) fun b _ => by rw [hruns]
      refine ⟨fun b run hb hrun => ?_, fun b i result hb hrun hmem => ?_⟩
      · rw [outcomes_append, outcomes_of_untold hno, List.append_nil]
        exact hsame.heard b run hb hrun
      · rcases List.mem_append.1 hmem with hmem | hmem
        · exact hsame.silent b i result hb hrun hmem
        · exact hno _ _ hmem
    · exact h.entered ha (hc.tree.runs_of_entering ha hk hstage) he hno

/-- A receiver that goes on makes of the outcomes what it is to make of them. -/
lemma Tally.turned (h : v.Tally r ds) {run' : Run} (hrun : v.runs b = some run)
    (ht : v.Turned u b run') (hp : run'.pipeline = run.pipeline)
    (hheard : ∀ os, run.Heard os → run'.Heard os) : u.Tally r ds where
  heard x run₀ hx hrun₀ := by
    rw [ht.runs] at hrun₀
    by_cases hxb : x = b
    · subst hxb
      rw [update_same] at hrun₀
      obtain rfl := Option.some.inj hrun₀
      exact hp ▸ hheard _ (h.heard x run hx hrun)
    · rw [update_of_ne hxb] at hrun₀
      exact h.heard x run₀ hx hrun₀
  silent x i result hx hnone := by
    rw [ht.runs] at hnone
    by_cases hxb : x = b
    · rw [hxb, update_same] at hnone
      cases hnone
    · rw [update_of_ne hxb] at hnone
      exact h.silent x i result hx hnone

lemma Tally.collected (h : v.Tally r ds) (hcol : v.Collected u b) : u.Tally r ds := by
  cases hcol with
  | @success run completed failure o rest running collector mailbox result turned _ =>
    refine h.turned running turned rfl fun os hos => ?_
    rw [Run.Heard, collector] at hos
    obtain ⟨seen, rfl, rfl, rfl⟩ := hos
    exact ⟨seen ++ [o], by rw [mailbox, List.append_assoc, List.singleton_append],
      (successes_append_ok result).symm, (firstFailure_append_ok result).symm⟩
  | @failure run completed failure o rest e first running collector mailbox result kept turned _ =>
    refine h.turned running turned rfl fun os hos => ?_
    rw [Run.Heard, collector] at hos
    obtain ⟨seen, rfl, rfl, rfl⟩ := hos
    exact ⟨seen ++ [o], by rw [mailbox, List.append_assoc, List.singleton_append],
      (successes_append_error result).symm, by rw [firstFailure_append_error result, kept]⟩

lemma Tally.concluded (h : v.Tally r ds) {completed : List String}
    {failure : Option ExecutionError} (hcon : v.Concluded u b run completed failure) :
    u.Tally r ds := by
  refine h.turned hcon.running hcon.turned rfl fun os hos => ?_
  rw [Run.Heard, hcon.collector, hcon.mailbox] at hos
  obtain ⟨seen, rfl, rfl, rfl⟩ := hos
  rw [List.append_nil]
  rfl

theorem Tally.step (h : v.Tally r ds) (hc : v.Course r p) {m : Move} (hm : m.Of r)
    (hs : v.step? m = some u) : u.Tally r (ds ++ v.deeds m) := by
  cases m with
  | work a => exact h.work hc hm hs
  | expire a => exact h.work hc hm hs
  | collect b =>
    rw [show v.deeds (.collect b) = [] from rfl, List.append_nil]
    exact h.collected (collected_of_collect? hs)
  | conclude b =>
    obtain ⟨run, completed, failure, hcon⟩ := concluded_of_conclude? hs
    rw [show v.deeds (.conclude b) = [] from rfl, List.append_nil]
    exact h.concluded hcon
  | cancel t => exact hm.elim

lemma Tally.await (h : v.Tally r ds) : (v.await r).Tally r ds where
  heard b run hb hrun := by
    rw [runs_await] at hrun
    split at hrun
    · obtain ⟨run₀, hr, rfl⟩ := Option.map_eq_some_iff.1 hrun
      rw [(attended_others run₀).1]
      exact Run.heard_attended (h.heard b run₀ hb hr)
    · exact h.heard b run hb hrun
  silent b i result hb hnone := by
    refine h.silent b i result hb ?_
    rw [runs_await] at hnone
    split at hnone
    · exact Option.map_eq_none_iff.1 hnone
    · exact hnone

/-- **Receivers hear what is told**, whatever others do. -/
theorem tally_of_chronicle {seeds : Payload} {token : Token} {runtime : Bool} {w₁ : World}
    {ms : List Move} (hv : w.Vacant r) (ho : ∀ x, (w.conduits x).Orderly)
    (hstart : w.start r p seeds token runtime = .ok w₁)
    (h : w₁.Chronicle r (Outside r) ms ds v) : v.Tally r ds := by
  induction h with
  | start =>
    obtain ⟨-, -, hl⟩ := start_eq_ok hstart
    refine ⟨fun b run hb hrun => ?_, fun _ _ _ _ _ => by simp⟩
    by_cases hbr : b = r
    · subst hbr
      obtain rfl := Option.some.inj (hl.run_self.symm.trans hrun)
      rfl
    · rw [hl.run_old hv hb hbr] at hrun
      cases hrun
  | move before own step ih =>
    exact ih.step (course_of_plays hv ho hstart (fun _ _ h => h) before.plays) own step
  | await _ ih => exact ih.await
  | others _ act ih => exact ih.same act.runs

end World

end Dataflow
