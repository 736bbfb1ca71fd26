import Dataflow.Graph.Supply
import Mathlib.Data.List.Count
import Mathlib.Data.List.Perm.Basic
import Mathlib.Tactic.Lemma

/-!
What the analysis of a pipeline finds: an order in which nodes fire, each when its inputs have a
value for every reader in the whole pipeline, and a rest of nodes each of which has an input that
is short of values even after all of those have fired.
-/

namespace Dataflow

/-- The first member of a list that has a property. -/
lemma exists_first {α : Type} {P : α → Prop} {l : List α} (h : ∃ x ∈ l, P x) :
    ∃ pre x post, l = pre ++ x :: post ∧ P x ∧ ∀ y ∈ pre, ¬ P y := by
  induction l with
  | nil =>
    obtain ⟨x, hx, -⟩ := h
    cases hx
  | cons y rest ih =>
    by_cases hy : P y
    · exact ⟨[], y, rest, rfl, hy, by simp⟩
    · obtain ⟨x, hx, hP⟩ := h
      have hrest : ∃ x ∈ rest, P x := by
        rcases List.mem_cons.1 hx with rfl | hx
        · exact absurd hP hy
        · exact ⟨x, hx, hP⟩
      obtain ⟨pre, x', post, rfl, hP', hpre⟩ := ih hrest
      refine ⟨y :: pre, x', post, rfl, hP', ?_⟩
      rintro z (_ | ⟨_, hz⟩)
      · exact hy
      · exact hpre z hz

/-- The names of the channels that a node reads, and that it writes. -/
def Node.ins (n : Node) : List String := n.inputs.map (·.name)

def Node.outs (n : Node) : List String := n.outputs.map (·.name)

namespace Counts

lemma foldl_bump (f : String → Nat) (keys : List String) (x : String) :
    keys.foldl bump f x = f x + keys.count x := by
  induction keys generalizing f with
  | nil => rfl
  | cons key rest ih =>
    rw [List.foldl_cons, ih, List.count_cons, bump]
    by_cases h : x = key
    · simp [h]
      omega
    · simp [h, Ne.symm h]

lemma foldl_drop (f : String → Nat) (keys : List String) (x : String) :
    keys.foldl drop f x = f x - keys.count x := by
  induction keys generalizing f with
  | nil => rfl
  | cons key rest ih =>
    rw [List.foldl_cons, ih, List.count_cons, drop]
    by_cases h : x = key
    · simp [h]
      omega
    · simp [h, Ne.symm h]

lemma supply_fire (k : Counts) (n : Node) (x : String) :
    (k.fire n).supply x = k.supply x - n.ins.count x + n.outs.count x := by
  simp only [fire, foldl_bump, foldl_drop, Node.ins, Node.outs]

lemma pending_fire (k : Counts) (n : Node) (x : String) :
    (k.fire n).pending x = k.pending x - n.ins.count x := by
  simp only [fire, foldl_drop, Node.ins]

end Counts

namespace Pipeline

@[simp] lemma reads_nil : reads [] = [] := rfl

@[simp] lemma writes_nil : writes [] = [] := rfl

@[simp] lemma reads_append (ns ms : List Node) : reads (ns ++ ms) = reads ns ++ reads ms :=
  List.flatMap_append

@[simp] lemma writes_append (ns ms : List Node) : writes (ns ++ ms) = writes ns ++ writes ms :=
  List.flatMap_append

@[simp] lemma reads_cons (n : Node) (ns : List Node) : reads (n :: ns) = n.ins ++ reads ns := rfl

@[simp] lemma writes_cons (n : Node) (ns : List Node) : writes (n :: ns) = n.outs ++ writes ns :=
  rfl

lemma count_reads_perm {ns ms : List Node} (h : ns.Perm ms) (x : String) :
    (reads ns).count x = (reads ms).count x :=
  (h.flatMap_right _).count_eq x

lemma count_writes_perm {ns ms : List Node} (h : ns.Perm ms) (x : String) :
    (writes ns).count x = (writes ms).count x :=
  (h.flatMap_right _).count_eq x

lemma count_ins_le {n : Node} {ns : List Node} (h : n ∈ ns) (x : String) :
    n.ins.count x ≤ (reads ns).count x := by
  obtain ⟨s, t, rfl⟩ := List.append_of_mem h
  simp only [reads_append, reads_cons, List.count_append]
  omega

variable (p : Pipeline) (queued : Channel → Nat) (seeded : List String)

/-- The nodes that the analysis could not fire, in the order of registration. -/
def unfired : List Node := ((p.counts queued seeded).settle p.nodes).2

/-- The values that are at hand on a channel before anything has fired. -/
def supply (x : String) : Nat := (p.counts queued seeded).supply x

/-- With what is at hand and what these nodes publish, some reader of the channel goes without. -/
def Short (fired : List Node) (x : String) : Prop :=
  p.supply queued seeded x + (writes fired).count x < (reads p.nodes).count x

/-- Each node of the list has enough on its inputs once those before it have fired. -/
def Feasible (order : List Node) : Prop :=
  ∀ pre n post, order = pre ++ n :: post → ∀ c ∈ n.inputs, ¬ p.Short queued seeded pre c.name

/-- The first input of the node that is short. -/
def FirstShort (fired : List Node) (n : Node) (c : Channel) : Prop :=
  ∃ pre post, n.inputs = pre ++ c :: post ∧ p.Short queued seeded fired c.name ∧
    ∀ d ∈ pre, ¬ p.Short queued seeded fired d.name

/-- The counts after the nodes `fired` have fired and the nodes `left` have not. -/
structure Fired (k : Counts) (fired left : List Node) : Prop where
  perm : (fired ++ left).Perm p.nodes
  supply : ∀ x, k.supply x + (reads fired).count x =
    p.supply queued seeded x + (writes fired).count x
  pending : ∀ x, k.pending x = (reads left).count x
  feasible : p.Feasible queued seeded fired

variable {p queued seeded}

lemma fired_start : p.Fired queued seeded (p.counts queued seeded) [] p.nodes where
  perm := .refl _
  supply x := by simp [supply]
  pending _ := rfl
  feasible pre n post h := by simp at h

/-- An input of a node that has not fired is covered exactly if it is not short. -/
lemma Fired.covers {k : Counts} {fired left : List Node} (h : p.Fired queued seeded k fired left)
    {n : Node} (hn : n ∈ left) {x : String} (hx : x ∈ n.ins) :
    k.covers x = true ↔ ¬ p.Short queued seeded fired x := by
  have hpos : 0 < (reads left).count x :=
    Nat.lt_of_lt_of_le (List.count_pos_iff.2 hx) (count_ins_le hn x)
  have hperm := count_reads_perm h.perm x
  have hsupply := h.supply x
  rw [reads_append, List.count_append] at hperm
  rw [Counts.covers, decide_eq_true_iff, h.pending x, Short]
  omega

lemma Fired.fire {k : Counts} {fired skipped rest : List Node} {n : Node}
    (h : p.Fired queued seeded k fired (skipped ++ n :: rest)) (hn : k.uncovered? n = none) :
    p.Fired queued seeded (k.fire n) (fired ++ [n]) (skipped ++ rest) := by
  have hmem : n ∈ skipped ++ n :: rest := List.mem_append_right _ List.mem_cons_self
  have hcovers : ∀ x ∈ n.ins, k.covers x = true := by
    intro x hx
    simpa using List.find?_eq_none.1 hn x hx
  have hperm : (fired ++ [n] ++ (skipped ++ rest)).Perm (fired ++ (skipped ++ n :: rest)) := by
    rw [List.append_assoc, List.singleton_append]
    exact List.perm_middle.symm.append_left fired
  have hpending := fun x => count_ins_le hmem x
  refine ⟨hperm.trans h.perm, fun x => ?_, fun x => ?_, ?_⟩
  · have hsupply := h.supply x
    have hle := hpending x
    have henough : n.ins.count x ≤ k.supply x := by
      by_cases hx : x ∈ n.ins
      · have hc := hcovers x hx
        rw [Counts.covers, decide_eq_true_iff, h.pending x] at hc
        omega
      · rw [List.count_eq_zero_of_not_mem hx]
        exact Nat.zero_le _
    simp only [Counts.supply_fire, reads_append, writes_append, reads_cons, writes_cons, reads_nil,
      writes_nil, List.append_nil, List.count_append]
    omega
  · have hcount : (reads (skipped ++ n :: rest)).count x =
        (reads (skipped ++ rest)).count x + n.ins.count x := by
      simp only [reads_append, reads_cons, List.count_append]
      omega
    rw [Counts.pending_fire, h.pending, hcount]
    omega
  · intro pre m post heq c hc
    rcases List.append_eq_append_iff.1 heq with ⟨s, rfl, hs⟩ | ⟨s, hs, ht⟩
    · cases s with
      | nil =>
        obtain ⟨rfl, -⟩ := List.cons.inj hs
        rw [List.append_nil]
        exact (h.covers hmem (List.mem_map_of_mem hc)).1 (hcovers _ (List.mem_map_of_mem hc))
      | cons y s => simp at hs
    · cases s with
      | nil =>
        rw [List.nil_append] at ht
        obtain ⟨rfl, -⟩ := List.cons.inj ht
        rw [List.append_nil] at hs
        subst hs
        exact (h.covers hmem (List.mem_map_of_mem hc)).1 (hcovers _ (List.mem_map_of_mem hc))
      | cons y s =>
        obtain ⟨rfl, -⟩ := List.cons.inj ht
        exact h.feasible pre m s hs c hc

/-- A pass fires some nodes more and leaves the others in their order. -/
lemma Fired.pass {k : Counts} {nodes : List Node} :
    ∀ {fired skipped : List Node}, p.Fired queued seeded k fired (skipped ++ nodes) →
      ∃ more, p.Fired queued seeded (k.pass nodes).1 (fired ++ more)
        (skipped ++ (k.pass nodes).2) := by
  induction nodes generalizing k with
  | nil => exact fun h => ⟨[], by simpa [Counts.pass] using h⟩
  | cons n rest ih =>
    intro fired skipped h
    cases hu : k.uncovered? n with
    | some c =>
      have h' : p.Fired queued seeded k fired (skipped ++ [n] ++ rest) := by simpa using h
      obtain ⟨more, hmore⟩ := ih h'
      exact ⟨more, by simpa [Counts.pass, hu] using hmore⟩
    | none =>
      obtain ⟨more, hmore⟩ := ih (h.fire hu)
      exact ⟨n :: more, by simpa [Counts.pass, hu] using hmore⟩

end Pipeline

/-- A pass that fires nothing has found an uncovered input at every node. -/
lemma Counts.pass_of_length {k : Counts} {nodes : List Node}
    (h : nodes.length ≤ (k.pass nodes).2.length) :
    k.pass nodes = (k, nodes) ∧ ∀ n ∈ nodes, k.uncovered? n ≠ none := by
  induction nodes with
  | nil => exact ⟨rfl, by simp⟩
  | cons n rest ih =>
    cases hu : k.uncovered? n with
    | some c =>
      simp only [pass, hu, List.length_cons, Nat.add_le_add_iff_right] at h
      obtain ⟨hpass, hrest⟩ := ih h
      refine ⟨by simp [pass, hu, hpass], ?_⟩
      rintro m (_ | ⟨_, hm⟩)
      · simp [hu]
      · exact hrest m hm
    | none =>
      simp only [pass, hu, List.length_cons] at h
      have := length_pass_le (k.fire n) rest
      omega

namespace Pipeline

variable {p : Pipeline} {queued : Channel → Nat} {seeded : List String}

lemma Fired.settle {k : Counts} {nodes : List Node} :
    ∀ {fired : List Node}, p.Fired queued seeded k fired nodes →
      ∃ more, p.Fired queued seeded (k.settle nodes).1 (fired ++ more) (k.settle nodes).2 ∧
        ∀ n ∈ (k.settle nodes).2, (k.settle nodes).1.uncovered? n ≠ none := by
  induction h : nodes.length using Nat.strongRecOn generalizing k nodes with
  | ind length ih =>
    subst h
    intro fired hfired
    rw [Counts.settle]
    by_cases hlt : (k.pass nodes).2.length < nodes.length
    · have hnil : p.Fired queued seeded k fired ([] ++ nodes) := hfired
      obtain ⟨more, hpass⟩ := hnil.pass
      obtain ⟨more', hrec⟩ := ih _ hlt rfl hpass
      simp only [hlt, dif_pos]
      exact ⟨more ++ more', by simpa only [List.append_assoc] using hrec⟩
    · obtain ⟨heq, hall⟩ := Counts.pass_of_length (Nat.le_of_not_lt hlt)
      simp only [hlt, dif_neg, not_false_eq_true]
      rw [heq]
      exact ⟨[], by simpa using hfired, hall⟩

/-- The counts and the nodes that are left when nothing more fires. -/
lemma exists_fired (p : Pipeline) (queued : Channel → Nat) (seeded : List String) :
    ∃ k fired, p.Fired queued seeded k fired (p.unfired queued seeded) ∧
      (∀ n ∈ p.unfired queued seeded, k.uncovered? n ≠ none) ∧
      p.starved? queued seeded = (p.unfired queued seeded).findSome? fun n =>
        (k.uncovered? n).map fun c => (n, c) := by
  have hstart : p.Fired queued seeded (p.counts queued seeded) [] p.nodes := fired_start
  obtain ⟨fired, hfired, hstuck⟩ := hstart.settle
  exact ⟨_, _, hfired, hstuck, rfl⟩

/-- The analysis has fired the nodes `fired` in this order, and the others not. -/
structure Played (p : Pipeline) (queued : Channel → Nat) (seeded : List String)
    (fired : List Node) : Prop where
  perm : (fired ++ p.unfired queued seeded).Perm p.nodes
  feasible : p.Feasible queued seeded fired
  short : ∀ n ∈ p.unfired queued seeded, ∃ c, p.FirstShort queued seeded fired n c
  reported : ∀ name channel, p.checkSatisfiable queued seeded =
      .error (.unsatisfiableInput name channel) →
    ∃ n ∈ p.unfired queued seeded, ∃ c, n.name = name ∧ c.name = channel ∧
      p.FirstShort queued seeded fired n c

lemma Fired.firstShort {k : Counts} {fired left : List Node}
    (h : p.Fired queued seeded k fired left) {n : Node} (hn : n ∈ left) {x : String}
    (hu : k.uncovered? n = some x) : ∃ c, c.name = x ∧ p.FirstShort queued seeded fired n c := by
  rw [Counts.uncovered?, List.find?_map, Option.map_eq_some_iff] at hu
  obtain ⟨c, hfind, rfl⟩ := hu
  obtain ⟨hc, pre, post, hins, hpre⟩ := List.find?_eq_some_iff_append.1 hfind
  have hcov : ∀ d ∈ n.inputs, k.covers d.name = true ↔ ¬ p.Short queued seeded fired d.name :=
    fun d hd => h.covers hn (List.mem_map_of_mem hd)
  refine ⟨c, rfl, pre, post, hins, ?_, fun d hd => ?_⟩
  · have := (hcov c (by simp [hins])).not
    rw [not_not] at this
    exact this.1 (by simpa using hc)
  · exact (hcov d (by simp [hins, hd])).1 (by simpa using hpre d hd)

/-- **What the analysis finds**, in terms of the order in which it fired. -/
theorem exists_played (p : Pipeline) (queued : Channel → Nat) (seeded : List String) :
    ∃ fired, p.Played queued seeded fired := by
  obtain ⟨k, fired, hfired, hstuck, hstarved⟩ := p.exists_fired queued seeded
  refine ⟨fired, hfired.perm, hfired.feasible, fun n hn => ?_, fun name channel herr => ?_⟩
  · obtain ⟨x, hx⟩ := Option.ne_none_iff_exists'.1 (hstuck n hn)
    obtain ⟨c, -, hc⟩ := hfired.firstShort hn hx
    exact ⟨c, hc⟩
  · unfold checkSatisfiable at herr
    cases hs : p.starved? queued seeded with
    | none => simp [hs] at herr
    | some r =>
      obtain ⟨n, x⟩ := r
      simp only [hs, Except.error.injEq, GraphError.unsatisfiableInput.injEq] at herr
      obtain ⟨rfl, rfl⟩ := herr
      rw [hstarved] at hs
      obtain ⟨m, hm, hmap⟩ := List.exists_of_findSome?_eq_some hs
      obtain ⟨y, hy, hpair⟩ := Option.map_eq_some_iff.1 hmap
      obtain ⟨rfl, rfl⟩ := Prod.mk.inj hpair
      obtain ⟨c, hc, hfirst⟩ := hfired.firstShort hm hy
      exact ⟨m, hm, c, rfl, hc, hfirst⟩

/-- A pipeline is accepted exactly if every node fires. -/
theorem checkSatisfiable_eq_ok :
    p.checkSatisfiable queued seeded = .ok () ↔ p.unfired queued seeded = [] := by
  obtain ⟨k, fired, hfired, hstuck, hstarved⟩ := p.exists_fired queued seeded
  have hnone : p.starved? queued seeded = none ↔ p.unfired queued seeded = [] := by
    rw [hstarved, List.findSome?_eq_none_iff]
    constructor
    · intro h
      refine List.eq_nil_iff_forall_not_mem.2 fun n hn => hstuck n hn ?_
      simpa using h n hn
    · intro h n hn
      rw [h] at hn
      cases hn
  unfold checkSatisfiable
  cases hs : p.starved? queued seeded with
  | none => simpa using hnone.1 hs
  | some r => simpa [hs] using hnone

lemma mem_of_unfired {n : Node} (h : n ∈ p.unfired queued seeded) : n ∈ p.nodes := by
  obtain ⟨fired, hplayed⟩ := p.exists_played queued seeded
  exact hplayed.perm.subset (List.mem_append_right _ h)

/-- If there is any order in which all nodes can fire, the analysis fires all of them. -/
theorem unfired_of_feasible {order : List Node} (hnd : p.nodes.Nodup)
    (hperm : order.Perm p.nodes) (hfeasible : p.Feasible queued seeded order) :
    p.unfired queued seeded = [] := by
  obtain ⟨fired, hplayed⟩ := p.exists_played queued seeded
  by_contra hne
  obtain ⟨n₀, hn₀⟩ := List.exists_mem_of_ne_nil _ hne
  have hsome : ∃ n ∈ order, n ∈ p.unfired queued seeded :=
    ⟨n₀, hperm.symm.subset (mem_of_unfired hn₀), hn₀⟩
  obtain ⟨pre, n, post, rfl, hn, hpre⟩ := exists_first hsome
  have hnodup := hperm.nodup_iff.2 hnd
  -- everything before the first unfired node of the order has fired
  have hsub : pre ⊆ fired := by
    intro m hm
    have hmem := hplayed.perm.symm.subset (hperm.subset (List.mem_append_left _ hm))
    rcases List.mem_append.1 hmem with hm' | hm'
    · exact hm'
    · exact absurd hm' (hpre m hm)
  have hwrites : ∀ x, (writes pre).count x ≤ (writes fired).count x := by
    intro x
    obtain ⟨l, hl, hsublist⟩ := List.subperm_of_subset (List.nodup_append.1 hnodup).1 hsub
    obtain ⟨rest, hrest⟩ := hsublist.exists_perm_append
    have := count_writes_perm hrest x
    rw [writes_append, List.count_append, count_writes_perm hl] at this
    omega
  obtain ⟨c, before, after, hins, hshort, -⟩ := hplayed.short n hn
  have hcovered := hfeasible pre n post rfl c (by simp [hins])
  have := hwrites c.name
  unfold Short at hshort hcovered
  omega

lemma supply_mono {queued' : Channel → Nat} (h : ∀ c ∈ p.channels, queued c ≤ queued' c)
    (x : String) : p.supply queued seeded x ≤ p.supply queued' seeded x := by
  simp only [supply, counts]
  cases hx : p.channel? x with
  | none => exact Nat.le_refl _
  | some c => exact Nat.add_le_add_right (h c (List.mem_of_find?_eq_some hx)) _

/-- With more values at hand an accepted pipeline is accepted all the more. -/
theorem checkSatisfiable_mono {queued' : Channel → Nat} (hnd : p.nodes.Nodup)
    (h : ∀ c ∈ p.channels, queued c ≤ queued' c)
    (hok : p.checkSatisfiable queued seeded = .ok ()) :
    p.checkSatisfiable queued' seeded = .ok () := by
  obtain ⟨fired, hplayed⟩ := p.exists_played queued seeded
  have hperm := hplayed.perm
  rw [checkSatisfiable_eq_ok.1 hok, List.append_nil] at hperm
  refine checkSatisfiable_eq_ok.2 (unfired_of_feasible hnd hperm fun pre n post heq c hc => ?_)
  have hcovered := hplayed.feasible pre n post heq c hc
  have hmono : p.supply queued seeded c.name ≤ p.supply queued' seeded c.name :=
    supply_mono h c.name
  unfold Short at hcovered ⊢
  omega

end Pipeline

end Dataflow
