import Dataflow.Proofs.Stride

/-!
How a run can go on. A play is any order of the steps of the workers and receivers of one run and
of the runs inside it, with whatever the rest of the world does in between.
-/

namespace Dataflow

/-- A worker of the run at `r`, or of a run inside it, can stand at this address. -/
def Below (r : Address) : Address → Prop
  | [] => False
  | _ :: b => r <:+ b

@[simp] lemma below_cons {r b : Address} {i : Nat} : Below r (i :: b) ↔ r <:+ b := Iff.rfl

lemma Below.suffix {r a : Address} (h : Below r a) : r <:+ a := by
  cases a with
  | nil => exact h.elim
  | cons i b => exact h.trans (List.suffix_cons i b)

lemma Below.ne {r a : Address} (h : Below r a) : a ≠ r := by
  rintro rfl
  cases a with
  | nil => exact h
  | cons i b =>
    have := List.IsSuffix.length_le (below_cons.1 h)
    simp only [List.length_cons] at this
    omega

lemma Below.ne_nil {r a : Address} (h : Below r a) : a ≠ [] := by
  rintro rfl
  exact h

/-- The addresses from `r` on are `r` itself and those below it. -/
lemma suffix_cases {r a : Address} (h : r <:+ a) : a = r ∨ Below r a := by
  cases a with
  | nil => exact .inl (List.suffix_nil.1 h).symm
  | cons i b => exact (List.suffix_cons_iff.1 h).imp Eq.symm id

/-- What is not at `b` but below it is below one of the workers there. -/
lemma suffix_step {b c : Address} (h : b <:+ c) : c = b ∨ ∃ i, i :: b <:+ c := by
  obtain ⟨path, rfl⟩ := h
  rcases List.eq_nil_or_concat path with rfl | ⟨init, i, rfl⟩
  · exact .inl rfl
  · exact .inr ⟨i, init, by simp⟩

/-- The moves of the workers and receivers of the run at `r` and of the runs inside it. -/
def Move.Of (r : Address) : Move → Prop
  | .work a => Below r a
  | .expire a => Below r a
  | .collect b => r <:+ b
  | .conclude b => r <:+ b
  | .cancel _ => False

/-- A run for which somebody waits. -/
def Run.attended (run : Run) : Run :=
  match run.collector with
  | .idle => { run with collector := .waiting [] none }
  | _ => run

namespace World

/-- Moves of the run at `r`, in some order, lead from `w` to another world. In between somebody
may begin to wait for the run, and the surroundings may act as `env` allows. -/
inductive Plays (r : Address) (env : World → World → Prop) (w : World) :
    List Move → World → Prop where
  | start : Plays r env w [] w
  | move {ms : List Move} {v u : World} {m : Move} (before : Plays r env w ms v) (own : m.Of r)
      (step : v.step? m = some u) : Plays r env w (ms ++ [m]) u
  | await {ms : List Move} {v : World} (before : Plays r env w ms v) :
      Plays r env w ms (v.await r)
  | others {ms : List Move} {v u : World} (before : Plays r env w ms v) (act : env v u) :
      Plays r env w ms u

/-- Nobody but the run itself does anything. -/
def Alone : World → World → Prop := fun _ _ => False

/-- What others may do while the run at `r` goes on: cancel anything, send to any channel and
receive from it in the order of the line, and run whatever else there is. -/
structure Outside (r : Address) (v u : World) : Prop where
  workers : ∀ a, Below r a → u.workers a = v.workers a
  runs : ∀ b, r <:+ b → u.runs b = v.runs b
  cancelled : v.cancelled ⊆ u.cancelled
  conduits : ∀ x, (v.conduits x).Orderly → (u.conduits x).Orderly ∧
    ∀ a, Below r a → (a ∈ (u.conduits x).line ↔ a ∈ (v.conduits x).line)

/-- The run at `r` has no move left. -/
def Still (r : Address) (v : World) : Prop := ∀ m : Move, m.Of r → v.step? m = none

/-- Nobody of the run at `r` has a move left, except perhaps the worker at `o`. -/
def Resting (v : World) (r o : Address) : Prop :=
  ∀ m : Move, m.Of r → m ≠ .work o → m ≠ .expire o → v.step? m = none

/-- Nothing stands at `r` or below it yet, and nobody from there is in line. -/
structure Vacant (w : World) (r : Address) : Prop where
  runs : ∀ b, r <:+ b → w.runs b = none
  workers : ∀ a, Below r a → w.workers a = none
  lines : ∀ x, ∀ a ∈ (w.conduits x).line, ¬ Below r a

lemma Still.resting {v : World} {r : Address} (h : v.Still r) : v.Resting r [] :=
  fun m hm _ _ => h m hm

lemma Resting.still {v : World} {r : Address} (h : v.Resting r []) : v.Still r := fun m hm =>
  h m hm (by rintro rfl; exact hm) (by rintro rfl; exact hm)

lemma Plays.trans {r : Address} {env : World → World → Prop} {w v u : World}
    {ms ns : List Move} (h : Plays r env w ms v) (k : Plays r env v ns u) :
    Plays r env w (ms ++ ns) u := by
  induction k with
  | start => simpa using h
  | move _ own step ih => rw [← List.append_assoc]; exact .move ih own step
  | await _ ih => exact .await ih
  | others _ act ih => exact .others ih act

lemma isCancelled_eq_true {w : World} {t : Token} :
    w.isCancelled t = true ↔ ∃ u ∈ w.cancelled, u <:+ t := by
  simp [isCancelled]

/-- A token stays cancelled, and with it every token below. -/
lemma isCancelled_mono {v u : World} {s t : Token} (hsub : v.cancelled ⊆ u.cancelled)
    (hst : s <:+ t) (h : v.isCancelled s = true) : u.isCancelled t = true := by
  obtain ⟨x, hx, hxs⟩ := isCancelled_eq_true.1 h
  exact isCancelled_eq_true.2 ⟨x, hsub hx, hxs.trans hst⟩

/-- A move of a run is a step of one of its workers, or a receiver turns its run. -/
lemma step_cases {w w' : World} {r : Address} {m : Move} (hm : m.Of r)
    (hs : w.step? m = some w') :
    (∃ a k expired, (m = .work a ∨ m = .expire a) ∧ Below r a ∧ w.workers a = some k ∧
      w.Stride w' a k expired) ∨
    ∃ b run run', r <:+ b ∧ w.runs b = some run ∧ w.Turned w' b run' ∧
      run'.pipeline = run.pipeline ∧ run'.token = run.token ∧ w.cancelled ⊆ w'.cancelled := by
  cases m with
  | work a =>
    obtain ⟨k, hk, hst⟩ := stride_of_work? hs
    exact .inl ⟨a, k, false, .inl rfl, hm, hk, hst⟩
  | expire a =>
    obtain ⟨k, hk, hst⟩ := stride_of_work? hs
    exact .inl ⟨a, k, true, .inr rfl, hm, hk, hst⟩
  | collect b =>
    cases collected_of_collect? hs with
    | success running _ _ _ ht hx =>
      exact .inr ⟨b, _, _, hm, running, ht, rfl, rfl, hx ▸ List.Subset.refl _⟩
    | failure running _ _ _ _ ht hx =>
      refine .inr ⟨b, _, _, hm, running, ht, rfl, rfl, ?_⟩
      rcases hx with ⟨hx, -⟩ | hx
      · exact hx ▸ List.Subset.refl _
      · exact hx ▸ List.subset_append_left _ _
  | conclude b =>
    obtain ⟨run, completed, failure, hc⟩ := concluded_of_conclude? hs
    exact .inr ⟨b, run, _, hm, hc.running, hc.turned, rfl, rfl, hc.cancelled ▸ List.Subset.refl _⟩
  | cancel t => exact hm.elim

/-! ### Beginning to wait -/

lemma await_others (w : World) (r : Address) :
    (w.await r).workers = w.workers ∧ (w.await r).conduits = w.conduits ∧
      (w.await r).started = w.started ∧ (w.await r).cancelled = w.cancelled ∧
      (w.await r).calls = w.calls := by
  unfold await
  split
  · split <;> exact ⟨rfl, rfl, rfl, rfl, rfl⟩
  · exact ⟨rfl, rfl, rfl, rfl, rfl⟩

lemma runs_await {w : World} {r b : Address} :
    (w.await r).runs b = if b = r then (w.runs b).map Run.attended else w.runs b := by
  unfold await
  by_cases hb : b = r
  · subst hb
    rw [if_pos rfl]
    cases hr : w.runs b with
    | none => simp [hr]
    | some run => cases hc : run.collector <;> simp [hc, hr, Run.attended, setRun]
  · rw [if_neg hb]
    split
    · split
      · exact update_of_ne hb
      · rfl
    · rfl

end World

end Dataflow
