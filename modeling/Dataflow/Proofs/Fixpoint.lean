import Dataflow.Proofs.Built
import Mathlib.Data.Set.Card
import Mathlib.Order.CompletePartialOrder
import Mathlib.Order.FixedPoints

/-!
The analysis as a least fixpoint. Which nodes are sure to run can be said without an order in which
they fire: it is the least set with every node in it whose inputs have a value for each of their
readers, counting what is at hand and what the nodes of the set write. The analysis fires exactly
these nodes, and none of its counters is ever taken below zero.

Main statement: `checkSatisfiable_least_fixpoint`.
-/

namespace Dataflow

/-! ### Counting without truncation -/

namespace Counts

variable {k : Counts} {n : Node}

/-- Takes one off, or gives nothing if there is none to take. -/
def take? (f : String → Nat) (key : String) : Option (String → Nat) :=
  if f key = 0 then none else some (drop f key)

/-- `fire`, but nothing where a count would fall below zero. -/
def fireExact? (k : Counts) (n : Node) : Option Counts := do
  let supply ← n.ins.foldlM take? k.supply
  let pending ← n.ins.foldlM take? k.pending
  return { supply := n.outs.foldl bump supply, pending }

def passExact? (k : Counts) : List Node → Option (Counts × List Node)
  | [] => some (k, [])
  | n :: rest =>
    match k.uncovered? n with
    | some _ => (k.passExact? rest).map fun next => (next.1, n :: next.2)
    | none => (k.fireExact? n).bind fun k' => k'.passExact? rest

def settleExact? (k : Counts) (nodes : List Node) : Option (Counts × List Node) :=
  match k.passExact? nodes with
  | none => none
  | some next =>
    if _h : next.2.length < nodes.length then settleExact? next.1 next.2 else some next
termination_by nodes.length

lemma foldlM_take? {f : String → Nat} {keys : List String} (h : ∀ x, keys.count x ≤ f x) :
    keys.foldlM take? f = some (keys.foldl drop f) := by
  induction keys generalizing f with
  | nil => rfl
  | cons key rest ih =>
    have hkey := h key
    rw [List.count_cons_self] at hkey
    have htake : take? f key = some (drop f key) := if_neg (by omega)
    have hrest : ∀ x, rest.count x ≤ drop f key x := by
      intro x
      have hx := h x
      rw [List.count_cons] at hx
      unfold drop
      by_cases heq : x = key
      · subst heq
        simp only [beq_self_eq_true, if_true] at hx ⊢
        omega
      · simp only [heq, if_false]
        omega
    rw [List.foldlM_cons, htake, List.foldl_cons]
    exact ih hrest

lemma fireExact?_eq (hsupply : ∀ x, n.ins.count x ≤ k.supply x)
    (hpending : ∀ x, n.ins.count x ≤ k.pending x) : k.fireExact? n = some (k.fire n) := by
  simp only [fireExact?, foldlM_take? hsupply, foldlM_take? hpending]
  rfl

end Counts

namespace Pipeline

variable {p : Pipeline} {queued : Channel → Nat} {seeded : List String} {k : Counts} {n : Node}
  {c : Channel}

/-- A node that is covered finds on each input as much as it takes, and is itself pending there. -/
lemma Fired.enough {fired left : List Node} (h : p.Fired queued seeded k fired left)
    (hn : n ∈ left) (hcovered : k.uncovered? n = none) (x : String) :
    n.ins.count x ≤ k.supply x ∧ n.ins.count x ≤ k.pending x := by
  have hpending : n.ins.count x ≤ k.pending x := h.pending x ▸ count_ins_le hn x
  by_cases hx : x ∈ n.ins
  · have hc : k.covers x = true := by simpa using List.find?_eq_none.1 hcovered x hx
    rw [Counts.covers, decide_eq_true_iff] at hc
    exact ⟨by omega, hpending⟩
  · rw [List.count_eq_zero_of_not_mem hx]
    exact ⟨Nat.zero_le _, Nat.zero_le _⟩

lemma Fired.passExact? {nodes : List Node} : ∀ {k : Counts} {fired skipped : List Node},
    p.Fired queued seeded k fired (skipped ++ nodes) →
      k.passExact? nodes = some (k.pass nodes) := by
  induction nodes with
  | nil => exact fun _ => rfl
  | cons n rest ih =>
    intro k fired skipped h
    cases hu : k.uncovered? n with
    | some x =>
      have h' : p.Fired queued seeded k fired (skipped ++ [n] ++ rest) := by simpa using h
      simp only [Counts.passExact?, Counts.pass, hu, ih h', Option.map_some]
    | none =>
      have henough := h.enough (List.mem_append_right _ List.mem_cons_self) hu
      have hfire := Counts.fireExact?_eq (fun x => (henough x).1) fun x => (henough x).2
      simp only [Counts.passExact?, Counts.pass, hu, hfire, Option.bind_some, ih (h.fire hu)]

lemma Fired.settleExact? {nodes : List Node} : ∀ {k : Counts} {fired : List Node},
    p.Fired queued seeded k fired nodes → k.settleExact? nodes = some (k.settle nodes) := by
  induction h : nodes.length using Nat.strongRecOn generalizing nodes with
  | ind length ih =>
    subst h
    intro k fired hfired
    have hnil : p.Fired queued seeded k fired ([] ++ nodes) := hfired
    obtain ⟨more, hpass⟩ := hnil.pass
    rw [Counts.settleExact?, Counts.settle, hnil.passExact?]
    by_cases hlt : (k.pass nodes).2.length < nodes.length
    · simp only [hlt, dif_pos]
      exact ih _ hlt rfl hpass
    · simp only [hlt, dif_neg, not_false_eq_true]

/-! ### The order of what is left -/

end Pipeline

lemma Counts.pass_sublist (k : Counts) (nodes : List Node) :
    (k.pass nodes).2.Sublist nodes := by
  induction nodes generalizing k with
  | nil => exact .slnil
  | cons n rest ih =>
    simp only [pass]
    split
    · exact (ih k).cons_cons n
    · exact (ih _).cons n

lemma Counts.settle_sublist (k : Counts) (nodes : List Node) :
    (k.settle nodes).2.Sublist nodes := by
  induction h : nodes.length using Nat.strongRecOn generalizing k nodes with
  | ind length ih =>
    subst h
    rw [settle]
    by_cases hlt : (k.pass nodes).2.length < nodes.length
    · simp only [hlt, dif_pos]
      exact (ih _ hlt _ _ rfl).trans (k.pass_sublist nodes)
    · simp only [hlt, dif_neg, not_false_eq_true]
      exact k.pass_sublist nodes

/-- The first member of a list without repetitions that also is in a sublist is the head there. -/
lemma head_of_sublist {α : Type} {sub pre post : List α} {x : α} (hnd : (pre ++ x :: post).Nodup)
    (hsub : sub.Sublist (pre ++ x :: post)) (hx : x ∈ sub) (hpre : ∀ y ∈ pre, y ∉ sub) :
    ∃ rest, sub = x :: rest := by
  obtain ⟨l, l', rfl, hl, hl'⟩ := List.sublist_append_iff.1 hsub
  have hnil : l = [] := List.eq_nil_iff_forall_not_mem.2 fun y hy =>
    hpre y (hl.subset hy) (List.mem_append_left _ hy)
  subst hnil
  rw [List.nil_append] at hx ⊢
  rcases List.sublist_cons_iff.1 hl' with hl' | ⟨rest, rfl, -⟩
  · have := (List.nodup_cons.1 (List.nodup_append.1 hnd).2.1).1
    exact absurd (hl'.subset hx) this
  · exact ⟨rest, rfl⟩

namespace Pipeline

/-! ### The least fixpoint -/

section

variable (p : Pipeline) (queued : Channel → Nat) (seeded : List String)

/-- How many nodes read the channel. -/
noncomputable def readers (c : Channel) : Nat := {n | n ∈ p.nodes ∧ c ∈ n.inputs}.ncard

/-- How many nodes of the set write the channel. -/
noncomputable def writers (among : Set Node) (c : Channel) : Nat :=
  {n | n ∈ p.nodes ∧ n ∈ among ∧ c ∈ n.outputs}.ncard

/-- What is at hand and what the nodes of the set write is enough for every reader. -/
def Covered (among : Set Node) (c : Channel) : Prop :=
  p.readers c ≤ queued c + (if c.name ∈ seeded then 1 else 0) + p.writers among c

end

variable {p : Pipeline} {queued queued' : Channel → Nat} {seeded seeded' : List String}
  {among among' : Set Node} {n : Node} {c : Channel}

lemma writers_mono (h : among ⊆ among') : p.writers among c ≤ p.writers among' c :=
  Set.ncard_le_ncard (fun _ ⟨hn, hm, hc⟩ => ⟨hn, h hm, hc⟩)
    (p.nodes.finite_toSet.subset fun _ ⟨hn, _⟩ => hn)

lemma Covered.mono (h : p.Covered queued seeded among c) (hqueued : queued c ≤ queued' c)
    (hseeded : seeded ⊆ seeded') (hamong : among ⊆ among') :
    p.Covered queued' seeded' among' c := by
  have hwriters : p.writers among c ≤ p.writers among' c := writers_mono hamong
  have hseed : (if c.name ∈ seeded then 1 else 0) ≤ if c.name ∈ seeded' then 1 else 0 := by
    by_cases hc : c.name ∈ seeded
    · simp [hc, hseeded hc]
    · simp [hc]
  unfold Covered at h ⊢
  omega

/-- Gives the nodes that have all they need if the nodes of a set run. -/
def enabling (p : Pipeline) (queued : Channel → Nat) (seeded : List String) :
    Set Node →o Set Node where
  toFun among := {n | n ∈ p.nodes ∧ ∀ c ∈ n.inputs, p.Covered queued seeded among c}
  monotone' _ _ hle _ hn := ⟨hn.1, fun c hc =>
    (hn.2 c hc).mono (Nat.le_refl _) (List.Subset.refl _) hle⟩

/-- The nodes that are sure to run: the least set that holds every node whose inputs it covers. -/
def sure (p : Pipeline) (queued : Channel → Nat) (seeded : List String) : Set Node :=
  (p.enabling queued seeded).lfp

/-- A count over a list of nodes, where each node either counts once or not at all. -/
lemma count_flatMap_eq_ncard {f : Node → List String} {P : Node → Prop} {x : String}
    {ns : List Node} (hnd : ns.Nodup) (hone : ∀ n ∈ ns, P n → (f n).count x = 1)
    (hzero : ∀ n ∈ ns, ¬ P n → (f n).count x = 0) :
    (ns.flatMap f).count x = {n | n ∈ ns ∧ P n}.ncard := by
  induction ns with
  | nil => simp
  | cons m rest ih =>
    obtain ⟨hm, hrest⟩ := List.nodup_cons.1 hnd
    have hih := ih hrest (fun n hn => hone n (List.mem_cons_of_mem _ hn))
      fun n hn => hzero n (List.mem_cons_of_mem _ hn)
    rw [List.flatMap_cons, List.count_append, hih]
    by_cases hP : P m
    · have hset : {n | n ∈ m :: rest ∧ P n} = insert m {n | n ∈ rest ∧ P n} := by
        ext n
        simp only [List.mem_cons, Set.mem_ofPred_eq, Set.mem_insert_iff]
        constructor
        · rintro ⟨rfl | hn, hPn⟩
          · exact .inl rfl
          · exact .inr ⟨hn, hPn⟩
        · rintro (rfl | ⟨hn, hPn⟩)
          · exact ⟨.inl rfl, hP⟩
          · exact ⟨.inr hn, hPn⟩
      have hfinite : {n | n ∈ rest ∧ P n}.Finite :=
        rest.finite_toSet.subset fun _ ⟨hn, _⟩ => hn
      rw [hset, Set.ncard_insert_of_notMem (fun h => hm h.1) hfinite,
        hone m List.mem_cons_self hP, Nat.add_comm]
    · have hset : {n | n ∈ m :: rest ∧ P n} = {n | n ∈ rest ∧ P n} := by
        ext n
        simp only [List.mem_cons, Set.mem_ofPred_eq]
        constructor
        · rintro ⟨rfl | hn, hPn⟩
          · exact absurd hPn hP
          · exact ⟨hn, hPn⟩
        · exact fun ⟨hn, hPn⟩ => ⟨.inr hn, hPn⟩
      rw [hset, hzero m List.mem_cons_self hP, Nat.zero_add]

lemma count_name {cs : List Channel} (hnd : (cs.map (·.name)).Nodup)
    (hinj : ∀ d ∈ cs, d.name = c.name → d = c) :
    (c ∈ cs → (cs.map (·.name)).count c.name = 1) ∧
      (c ∉ cs → (cs.map (·.name)).count c.name = 0) := by
  refine ⟨fun hc => List.count_eq_one_of_mem hnd (List.mem_map_of_mem hc), fun hc => ?_⟩
  refine List.count_eq_zero_of_not_mem fun hmem => hc ?_
  obtain ⟨d, hd, hname⟩ := List.mem_map.1 hmem
  exact hinj d hd hname ▸ hd

lemma Sound.readers_eq (hs : p.Sound) (hc : c ∈ p.channels) :
    p.readers c = (reads p.nodes).count c.name := by
  have hcount : ∀ n ∈ p.nodes, _ := fun n hn => count_name (c := c)
    (Node.nodup_of_wiringFault? (hs.wired n hn)).1
    fun d hd hname => hs.eq_of_name (hs.mem_input hn hd) hc hname
  exact (count_flatMap_eq_ncard hs.nodup_nodes (fun n hn => (hcount n hn).1)
    fun n hn => (hcount n hn).2).symm

/-- The values that a list of nodes writes on a channel, without repetitions in the list. -/
lemma Sound.writers_eq (hs : p.Sound) (hc : c ∈ p.channels) {ns : List Node} (hnd : ns.Nodup)
    (hsub : ns ⊆ p.nodes) : p.writers {n | n ∈ ns} c = (writes ns).count c.name := by
  have hcount : ∀ n ∈ ns, _ := fun n hn => count_name (c := c)
    (Node.nodup_of_wiringFault? (hs.wired n (hsub hn))).2
    fun d hd hname => hs.eq_of_name (hs.mem_output (hsub hn) hd) hc hname
  have hset : {n | n ∈ p.nodes ∧ n ∈ {n | n ∈ ns} ∧ c ∈ n.outputs} =
      {n | n ∈ ns ∧ c ∈ n.outputs} := by
    ext n
    exact ⟨fun h => h.2, fun h => ⟨hsub h.1, h⟩⟩
  rw [writers, hset]
  exact (count_flatMap_eq_ncard hnd (fun n hn => (hcount n hn).1) fun n hn => (hcount n hn).2).symm

/-- Being short after some nodes have fired is not being covered by them. -/
lemma Sound.short_iff (hs : p.Sound) (hc : c ∈ p.channels) {ns : List Node} (hnd : ns.Nodup)
    (hsub : ns ⊆ p.nodes) :
    p.Short queued seeded ns c.name ↔ ¬ p.Covered queued seeded {n | n ∈ ns} c := by
  rw [Short, Covered, hs.supply hc, hs.readers_eq hc, hs.writers_eq hc hnd hsub, Nat.not_le]

lemma Played.nodup {fired : List Node} (h : p.Played queued seeded fired) (hs : p.Sound) :
    (fired ++ p.unfired queued seeded).Nodup := h.perm.nodup_iff.2 hs.nodup_nodes

lemma Played.subset {fired : List Node} (h : p.Played queued seeded fired) : fired ⊆ p.nodes :=
  fun _ hn => h.perm.subset (List.mem_append_left _ hn)

/-- What the analysis fires is the least fixpoint. -/
lemma Played.sure_eq {fired : List Node} (h : p.Played queued seeded fired) (hs : p.Sound) :
    p.sure queued seeded = {n | n ∈ fired} := by
  have hnd := h.nodup hs
  have hsub := h.subset
  apply Set.Subset.antisymm
  · -- no node that is left has all it needs, so the fired ones are closed
    refine (p.enabling queued seeded).lfp_le fun n ⟨hn, hcovered⟩ => ?_
    rcases List.mem_append.1 (h.perm.symm.subset hn) with hn' | hn'
    · exact hn'
    · obtain ⟨c, pre, post, hins, hshort, -⟩ := h.short n hn'
      have hc : c ∈ n.inputs := by simp [hins]
      exact absurd (hcovered c hc)
        ((hs.short_iff (hs.mem_input hn hc) (List.nodup_append.1 hnd).1 hsub).1 hshort)
  · -- and every closed set takes in the fired ones, in the order in which they fired
    refine (p.enabling queued seeded).le_lfp fun among hclosed => ?_
    have hprefix : ∀ pre, pre <+: fired → ∀ n ∈ pre, n ∈ among := by
      intro pre
      induction pre using List.reverseRecOn with
      | nil => simp
      | append_singleton pre m ih =>
        rintro ⟨post, heq⟩
        have heq' : fired = pre ++ m :: post := by rw [← heq]; simp
        have hpre := ih ⟨m :: post, heq'.symm⟩
        have hm : m ∈ fired := by simp [heq']
        have hprend : pre.Nodup := by
          have := (List.nodup_append.1 hnd).1
          rw [heq'] at this
          exact (List.nodup_append.1 this).1
        have hmem : m ∈ among := hclosed ⟨hsub hm, fun c hc => by
          have hc' := hs.mem_input (hsub hm) hc
          have hshort := h.feasible pre m post heq' c hc
          rw [hs.short_iff hc' hprend fun n hn => hsub (by simp [heq', hn]), not_not] at hshort
          exact hshort.mono (Nat.le_refl _) (List.Subset.refl _) hpre⟩
        intro n hn
        rcases List.mem_append.1 hn with hn | hn
        · exact hpre n hn
        · exact List.mem_singleton.1 hn ▸ hmem
    exact hprefix fired (List.prefix_refl _)

/-- More at hand makes more nodes sure to run. -/
lemma Sound.sure_mono (hs : p.Sound) (hqueued : ∀ c ∈ p.channels, queued c ≤ queued' c)
    (hseeded : seeded ⊆ seeded') : p.sure queued seeded ⊆ p.sure queued' seeded' := by
  refine (p.enabling queued seeded).lfp_le fun n ⟨hn, hcovered⟩ => ?_
  have hfix := (p.enabling queued' seeded').map_lfp
  exact hfix.subset ⟨hn, fun c hc =>
    (hcovered c hc).mono (hqueued c (hs.mem_input hn hc)) hseeded subset_rfl⟩

/-! ### What the analysis says -/

lemma Sound.checkSatisfiable_iff (hs : p.Sound) :
    p.checkSatisfiable queued seeded = .ok () ↔ ∀ n ∈ p.nodes, n ∈ p.sure queued seeded := by
  obtain ⟨fired, hplayed⟩ := p.exists_played queued seeded
  have hnd := hplayed.nodup hs
  rw [checkSatisfiable_eq_ok, hplayed.sure_eq hs]
  constructor
  · intro hnil n hn
    have hmem := hplayed.perm.symm.subset hn
    rwa [hnil, List.append_nil] at hmem
  · refine fun hall => List.eq_nil_iff_forall_not_mem.2 fun n hn => ?_
    exact (List.nodup_append.1 hnd).2.2 n (hall n (mem_of_unfired hn)) n hn rfl

/-- The node that is named is the first one that is left. -/
lemma checkSatisfiable_of_unfired {rest : List Node} (h : p.unfired queued seeded = n :: rest) :
    ∃ x, p.checkSatisfiable queued seeded = .error (.unsatisfiableInput n.name x) := by
  obtain ⟨k, fired, -, hstuck, hstarved⟩ := p.exists_fired queued seeded
  obtain ⟨x, hx⟩ := Option.ne_none_iff_exists'.1 (hstuck n (h ▸ List.mem_cons_self))
  rw [h, List.findSome?_cons, hx] at hstarved
  exact ⟨x, by simp only [checkSatisfiable, hstarved, Option.map_some]⟩

open scoped Classical in
/-- What is reported is the first node that is not sure to run, with the first of its inputs that
the sure ones leave short. -/
lemma Sound.find_of_error (hs : p.Sound) {e : GraphError}
    (h : p.checkSatisfiable queued seeded = .error e) : ∃ n c,
      p.nodes.find? (fun n => n ∉ p.sure queued seeded) = some n ∧
      n.inputs.find? (fun c => ¬ p.Covered queued seeded (p.sure queued seeded) c) = some c ∧
      e = .unsatisfiableInput n.name c.name := by
  obtain ⟨fired, hplayed⟩ := p.exists_played queued seeded
  have hnd := hplayed.nodup hs
  have hsub := hplayed.subset
  have hleft : ∃ n ∈ p.nodes, n ∈ p.unfired queued seeded := by
    cases hu : p.unfired queued seeded with
    | nil => rw [checkSatisfiable_eq_ok.2 hu] at h; cases h
    | cons n rest => exact ⟨n, mem_of_unfired (hu ▸ List.mem_cons_self), List.mem_cons_self⟩
  obtain ⟨pre, n, post, hnodes, hn, hpre⟩ := exists_first hleft
  obtain ⟨rest, hcons⟩ := head_of_sublist (hnodes ▸ hs.nodup_nodes)
    (hnodes ▸ Counts.settle_sublist _ _) hn hpre
  obtain ⟨x, hx⟩ := checkSatisfiable_of_unfired hcons
  obtain ⟨m, hm, c, hname, rfl, before, after, hins, hshort, hbefore⟩ := hplayed.reported _ _ hx
  -- names tell nodes apart, so this is the node that came first
  obtain rfl : m = n := List.inj_on_of_nodup_map hs.labels (mem_of_unfired hm) (mem_of_unfired hn)
    hname
  have hmem : ∀ d ∈ m.inputs, d ∈ p.channels := fun d hd =>
    hs.mem_input (mem_of_unfired hm) hd
  have hshort_iff : ∀ d ∈ m.inputs, p.Short queued seeded fired d.name ↔
      ¬ p.Covered queued seeded (p.sure queued seeded) d := fun d hd => by
    rw [hplayed.sure_eq hs, hs.short_iff (hmem d hd) (List.nodup_append.1 hnd).1 hsub]
  refine ⟨m, c, List.find?_eq_some_iff_append.2 ⟨?_, pre, post, hnodes, fun k hk => ?_⟩,
    List.find?_eq_some_iff_append.2 ⟨?_, before, after, hins, fun d hd => ?_⟩,
    Except.error.inj (h.symm.trans hx)⟩
  · have hnot : m ∉ fired := fun hmf => (List.nodup_append.1 hnd).2.2 m hmf m hm rfl
    rw [hplayed.sure_eq hs]
    simpa using hnot
  · have hmem := hplayed.perm.symm.subset (hnodes ▸ List.mem_append_left _ hk)
    have hfired := (List.mem_append.1 hmem).resolve_right (hpre k hk)
    rw [hplayed.sure_eq hs]
    simpa using hfired
  · exact decide_eq_true ((hshort_iff c (by simp [hins])).1 hshort)
  · have hd' := (hshort_iff d (by simp [hins, hd])).not.1 (hbefore d hd)
    simpa using hd'

/-- The order of registration does not matter for which nodes are sure to run. -/
lemma sure_congr {ns : List Node} (h : ns.Perm p.nodes) :
    ({ p with nodes := ns } : Pipeline).sure queued seeded = p.sure queued seeded := by
  have hmem : ∀ n, n ∈ ns ↔ n ∈ p.nodes := fun n => h.mem_iff
  simp only [sure, enabling, Covered, readers, writers, hmem]

lemma Sound.perm (hs : p.Sound) {ns : List Node} (h : ns.Perm p.nodes) :
    ({ p with nodes := ns } : Pipeline).Sound where
  names := hs.names
  ids := hs.ids
  labels := (h.map _).nodup_iff.2 hs.labels
  wired n hn := hs.wired n (h.subset hn)
  native n hn := hs.native n (h.subset hn)

open scoped Classical in
/-- **The analysis computes a least fixpoint.** On whatever building leaves behind, with any number
of values in the queues and any names seeded, no counter is ever taken below zero; a pipeline is
accepted exactly if all of its nodes are sure to run, and otherwise the first one registered that is
not is named, with the first of its inputs that the sure ones leave short. So acceptance does not
depend on the order of registration, and values that are added never turn it into a rejection. -/
theorem checkSatisfiable_least_fixpoint (hs : p.Sound) (queued : Channel → Nat)
    (seeded : List String) :
    (p.counts queued seeded).settleExact? p.nodes =
        some ((p.counts queued seeded).settle p.nodes) ∧
      (p.checkSatisfiable queued seeded = .ok () ↔ ∀ n ∈ p.nodes, n ∈ p.sure queued seeded) ∧
      (∀ e, p.checkSatisfiable queued seeded = .error e ↔ ∃ n c,
        p.nodes.find? (fun n => n ∉ p.sure queued seeded) = some n ∧
        n.inputs.find? (fun c => ¬ p.Covered queued seeded (p.sure queued seeded) c) = some c ∧
        e = .unsatisfiableInput n.name c.name) ∧
      (∀ ns, ns.Perm p.nodes →
        (({ p with nodes := ns } : Pipeline).checkSatisfiable queued seeded = .ok () ↔
          p.checkSatisfiable queued seeded = .ok ())) ∧
      ∀ queued' seeded', (∀ c ∈ p.channels, queued c ≤ queued' c) → seeded ⊆ seeded' →
        p.checkSatisfiable queued seeded = .ok () →
        p.checkSatisfiable queued' seeded' = .ok () := by
  refine ⟨Fired.settleExact? fired_start, hs.checkSatisfiable_iff, fun e => ?_, fun ns hperm => ?_,
    fun queued' seeded' hqueued hseeded hok => ?_⟩
  · refine ⟨hs.find_of_error, ?_⟩
    rintro ⟨n, c, hn, hc, rfl⟩
    cases hcheck : p.checkSatisfiable queued seeded with
    | ok u =>
      have hsure := hs.checkSatisfiable_iff.1 hcheck n (List.mem_of_find?_eq_some hn)
      have hnot := List.find?_some hn
      simp [hsure] at hnot
    | error e =>
      obtain ⟨n', c', hn', hc', rfl⟩ := hs.find_of_error hcheck
      obtain rfl := Option.some.inj (hn.symm.trans hn')
      obtain rfl := Option.some.inj (hc.symm.trans hc')
      rfl
  · rw [(hs.perm hperm).checkSatisfiable_iff, hs.checkSatisfiable_iff, sure_congr hperm]
    exact forall_congr' fun n => by rw [hperm.mem_iff]
  · exact hs.checkSatisfiable_iff.2 fun n hn =>
      hs.sure_mono hqueued hseeded (hs.checkSatisfiable_iff.1 hok n hn)

/-- Two nodes read `c`, and what one of them makes of its value comes back there. -/
def feedback : Pipeline where
  id := 0
  name := "shared_feedback"
  options := {}
  channels := [⟨1, "g", .integer⟩, ⟨2, "c", .integer⟩, ⟨3, "e", .integer⟩]
  nodes := [⟨"Gen", [], [⟨1, "g", .integer⟩], .source (.pure .producer fun _ => .returned .empty)⟩,
    ⟨"X", [⟨1, "g", .integer⟩, ⟨2, "c", .integer⟩], [⟨3, "e", .integer⟩],
      .transform (.pure .function fun _ => .returned .empty)⟩,
    ⟨"Z", [⟨3, "e", .integer⟩], [⟨2, "c", .integer⟩],
      .transform (.pure .function fun _ => .returned .empty)⟩,
    ⟨"Y", [⟨2, "c", .integer⟩], [], .sink (.pure .function fun _ => .returned .empty)⟩]

lemma sound_feedback : feedback.Sound where
  names := by decide
  ids := by decide
  labels := by decide
  wired := by
    simp only [feedback, List.forall_mem_cons]
    exact ⟨rfl, rfl, rfl, rfl, fun _ h => by cases h⟩
  native := by
    simp only [feedback, List.forall_mem_cons]
    exact ⟨rfl, rfl, rfl, rfl, fun _ h => by cases h⟩

open scoped Classical in
/-- One seed does not do, for the sink may take it before `X` does. -/
theorem feedback_rejected :
    feedback.Sound ∧ ∃ n c,
      feedback.nodes.find? (fun n => n ∉ feedback.sure (fun _ => 0) ["c"]) = some n ∧
      n.inputs.find? (fun c => ¬ feedback.Covered (fun _ => 0) ["c"]
        (feedback.sure (fun _ => 0) ["c"]) c) = some c ∧
      GraphError.unsatisfiableInput "X" "c" = .unsatisfiableInput n.name c.name :=
  ⟨sound_feedback, ((checkSatisfiable_least_fixpoint sound_feedback (fun _ => 0) ["c"]).2.2.1
    (.unsatisfiableInput "X" "c")).1 (by decide +kernel)⟩

end Pipeline

end Dataflow
