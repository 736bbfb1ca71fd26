import Dataflow.Proofs.Ledger
import Dataflow.Proofs.Verdict

/-!
Who is left waiting when a node fails. A node that fails publishes nothing, so whoever reads what
it should have published may wait without end, although the analysis has accepted the pipeline.

Main statement: at a standstill of an accepted run whose logic, when it returns, returns
everything, either somebody waits on an empty channel for a node that has failed, and the wait for
the run has not returned, or nobody does, and the wait has returned the verdict on all outcomes
(`starved_or_returned`).
-/

namespace Dataflow

/-! ### Who has dealt with a channel -/

/-- Whoever did the deeds that concern something, in the order of the deeds. -/
def actors (f : Deed → Option Value) (ds : List Deed) : List Address :=
  (ds.filter fun d => (f d).isSome).map Deed.actor

section

variable {f : Deed → Option Value} {ds : List Deed} {a : Address} {c : Channel} {x : Value}

lemma length_actors (f : Deed → Option Value) (ds : List Deed) :
    (actors f ds).length = (ds.filterMap f).length := by
  rw [actors, List.length_map, List.length_filterMap_eq_countP, List.countP_eq_length_filter]

lemma mem_actors_taken : a ∈ actors (Deed.takenFrom? c) ds ↔ ∃ x, .took a c x ∈ ds := by
  constructor
  · intro h
    obtain ⟨d, hd, rfl⟩ := List.mem_map.1 h
    obtain ⟨hmem, hsome⟩ := List.mem_filter.1 hd
    cases d with
    | took b e x =>
      by_cases he : e = c
      · exact ⟨x, he ▸ hmem⟩
      · simp [Deed.takenFrom?, he] at hsome
    | _ => simp [Deed.takenFrom?] at hsome
  · rintro ⟨x, hx⟩
    exact List.mem_map.2 ⟨_, List.mem_filter.2 ⟨hx, by simp [Deed.takenFrom?]⟩, rfl⟩

lemma mem_actors_sent (h : .sent a c x ∈ ds) : a ∈ actors (Deed.sentTo? c) ds :=
  List.mem_map.2 ⟨_, List.mem_filter.2 ⟨h, by simp [Deed.sentTo?]⟩, rfl⟩

/-- How often somebody has taken from a channel is in its diary. -/
lemma count_actors_taken (c : Channel) (ds : List Deed) (a : Address) :
    (actors (Deed.takenFrom? c) ds).count a = (valuesOn (diary ds a).taken c).length := by
  have hdiary : (diary ds a).taken = ds.filterMap (Deed.taken? a) := rfl
  rw [hdiary, valuesOn_filterMap, List.length_filterMap_eq_countP, actors, List.count_eq_countP,
    List.countP_map, List.countP_filter]
  refine List.countP_congr fun d _ => ?_
  cases d with
  | took b e x =>
    by_cases hb : b = a <;> by_cases he : e = c <;>
      simp [Deed.actor, Deed.takenFrom?, Deed.taken?, hb, he]
  | _ => simp [Deed.takenFrom?, Deed.taken?]

end

namespace Pipeline

variable {q : Pipeline} {ns : List Node} {c : Channel}

lemma length_readers_le (ns : List Node) (c : Channel) :
    (ns.filter fun n => c ∈ n.inputs).length ≤ (reads ns).count c.name := by
  induction ns with
  | nil => simp
  | cons n rest ih =>
    rw [reads_cons, List.count_append]
    by_cases hc : c ∈ n.inputs
    · have hpos : 0 < n.ins.count c.name := List.count_pos_iff.2 (List.mem_map_of_mem hc)
      simp only [List.filter_cons, hc, decide_true, if_true, List.length_cons]
      omega
    · simp only [List.filter_cons, hc, decide_false, Bool.false_eq_true, if_false]
      omega

lemma Sound.count_writes_le (hs : q.Sound) (hc : c ∈ q.channels) (h : ∀ n ∈ ns, n ∈ q.nodes) :
    (writes ns).count c.name ≤ (ns.filter fun n => c ∈ n.outputs).length := by
  induction ns with
  | nil => simp
  | cons n rest ih =>
    have hn := h n List.mem_cons_self
    have hrest := ih fun m hm => h m (List.mem_cons_of_mem _ hm)
    have hone : n.outs.count c.name ≤ 1 :=
      List.nodup_iff_count_le_one.1 (Node.nodup_of_wiringFault? (hs.wired n hn)).2 _
    rw [writes_cons, List.count_append]
    by_cases hout : c ∈ n.outputs
    · simp only [List.filter_cons, hout, decide_true, if_true, List.length_cons]
      omega
    · have hzero : n.outs.count c.name = 0 := by
        refine List.count_eq_zero.2 fun hmem => ?_
        obtain ⟨d, hd, hname⟩ := List.mem_map.1 hmem
        have hdc := hs.eq_of_name (hs.mem_output hn hd) hc hname
        exact hout (hdc ▸ hd)
      simp only [List.filter_cons, hout, decide_false, Bool.false_eq_true, if_false]
      omega

/-- The node whose worker is at this address, if the address is on the level of the pipeline. -/
def nodeAt (q : Pipeline) : Address → Option Node
  | [] => none
  | i :: _ => q.nodes[i]?

lemma Sound.nodeAt_injective {b : Address} (hs : q.Sound) {as : List Address}
    (has : ∀ a ∈ as, ∃ j n, a = j :: b ∧ q.nodes[j]? = some n) {a a' : Address} (ha : a ∈ as)
    (ha' : a' ∈ as) (h : q.nodeAt a = q.nodeAt a') : a = a' := by
  obtain ⟨j, n, rfl, hj⟩ := has a ha
  obtain ⟨j', n', rfl, hj'⟩ := has a' ha'
  have hnodes : q.nodes[j]? = q.nodes[j']? := h
  rw [hs.index_unique hj (hnodes ▸ hj)]

/-- A channel has been sent as much as the nodes publish there that have sent something. -/
lemma Sound.count_writes_le_sent {b : Address} {ds : List Deed} (hs : q.Sound)
    (hc : c ∈ q.channels) (hnd : ns.Nodup) (hnodes : ∀ n ∈ ns, n ∈ q.nodes)
    (hsent : ∀ n ∈ ns, c ∈ n.outputs → ∃ j x, q.nodes[j]? = some n ∧ .sent (j :: b) c x ∈ ds) :
    (writes ns).count c.name ≤ (sentTo ds c).length := by
  refine (hs.count_writes_le hc hnodes).trans ?_
  have hsub : (ns.filter fun n => c ∈ n.outputs).map some ⊆
      (actors (Deed.sentTo? c) ds).map q.nodeAt := by
    intro n? hn
    obtain ⟨n, hmem, rfl⟩ := List.mem_map.1 hn
    obtain ⟨hn, hout⟩ := List.mem_filter.1 hmem
    obtain ⟨j, x, hj, hx⟩ := hsent n hn (of_decide_eq_true hout)
    exact List.mem_map.2 ⟨_, mem_actors_sent hx, hj⟩
  have hdistinct : ((ns.filter fun n => c ∈ n.outputs).map some).Nodup :=
    (hnd.filter _).map (Option.some_injective _)
  have hle := (List.subperm_of_subset hdistinct hsub).length_le
  rwa [List.length_map, List.length_map, length_actors] at hle

/-- Logic anywhere in the pipeline that returns something returns a value for each output of its
node. It may fail or panic instead. -/
def Forthcoming (p : Pipeline) : Prop :=
  ∀ path q n logic, p.level? path = some q → n ∈ q.nodes → n.logic? = some logic →
    ∀ calls inputs outputs, (logic.act calls inputs).reply = .returned outputs →
      ∀ c ∈ n.outputs, c.name ∈ outputs.keys

lemma forthcoming_of_flat {p : Pipeline} (hflat : p.Flat)
    (h : ∀ n ∈ p.nodes, ∀ logic, n.logic? = some logic → ∀ calls inputs outputs,
      (logic.act calls inputs).reply = .returned outputs →
        ∀ c ∈ n.outputs, c.name ∈ outputs.keys) : p.Forthcoming := by
  intro path q n logic hq hn
  obtain ⟨-, rfl⟩ := hflat.level? hq
  exact h n hn logic

end Pipeline

lemma Payload.length_get? (got : Payload) (x : String) :
    (got.get? x).toList.length = if x ∈ got.keys then 1 else 0 := by
  cases hv : got.get? x with
  | none => rw [if_neg (get?_eq_none.1 hv)]; rfl
  | some v =>
    have hmem : x ∈ got.keys := by
      by_contra hno
      rw [get?_eq_none.2 hno] at hv
      cases hv
    rw [if_pos hmem]
    rfl

/-- Whoever succeeds in such a pipeline publishes on each of its outputs. -/
lemma Closed.mem_sent {p q : Pipeline} {path : Address} {n : Node} {d : Diary} {c : Channel}
    (hp : p.Forthcoming) (hq : p.level? path = some q) (hn : n ∈ q.nodes)
    (h : Closed n d (.ok ())) (hc : c ∈ n.outputs) : ∃ x, (c, x) ∈ d.sent := by
  obtain ⟨result, hworked, hsent⟩ := h
  have hkey : c.name ∈ result.keys := by
    cases hworked with
    | logic body gathered called reply => exact hp path q n _ hq hn body _ _ _ reply c hc
    | inner body gathered called entered channels names entries =>
      have hkeys : result.keys = n.outs := by
        rw [Payload.keys, entries, ← names]
        simp [named]
      rw [hkeys]
      exact List.mem_map_of_mem hc
  obtain ⟨x, hx⟩ := Option.ne_none_iff_exists'.1 fun hnone => Payload.get?_eq_none.1 hnone hkey
  exact ⟨x, hsent ▸ List.mem_filterMap.2 ⟨c, hc, by rw [hx]; rfl⟩⟩

namespace World

variable {w w₁ v u : World} {r a b : Address} {p q inner : Pipeline} {k m : Worker} {run : Run}
  {seeds : Payload} {token : Token} {ds : List Deed} {path : Address} {c : Channel} {i : Nat}
  {ms : List Move}

/-- Nobody takes twice from a channel. -/
lemma Ledger.nodup_takers (h : w.Ledger v r p seeds ds) (hlaid : p.Laid) (ht : v.Tree r p)
    (hq : p.level? path = some q) (hc : c ∈ q.channels) :
    (actors (Deed.takenFrom? c) ds).Nodup := by
  refine List.nodup_iff_count_le_one.2 fun a => ?_
  by_cases ha : a ∈ actors (Deed.takenFrom? c) ds
  · obtain ⟨x, hx⟩ := mem_actors_taken.1 ha
    obtain ⟨j, k, rfl, hk, hj, -⟩ := h.taker hlaid ht hq hc hx
    have hwired := (hlaid.sound _ _ hq).wired _ (List.mem_of_getElem? hj)
    have hins : k.node.inputs.Nodup := List.Nodup.of_map _ (Node.nodup_of_wiringFault? hwired).1
    have hproper := (h.page _ k (below_cons.2 (List.suffix_append path r)) hk).proper
    rw [count_actors_taken, length_valuesOn]
    exact List.nodup_iff_count_le_one.1 (hins.sublist hproper.taken.sublist) c
  · rw [List.count_eq_zero.2 ha]
    exact Nat.zero_le 1

/-- As long as one of its readers waits, fewer values have been taken from a channel than it has
readers. -/
lemma Ledger.taken_lt (h : w.Ledger v r p seeds ds) (hlaid : p.Laid) (ht : v.Tree r p)
    (hq : p.level? path = some q) (hn : q.nodes[i]? = some k.node)
    (hk : v.workers (i :: (path ++ r)) = some k) {got : Payload} {rest : List Channel}
    (hs : k.stage = .gathering got (c :: rest)) (hc : c ∈ q.channels) :
    (takenFrom ds c).length < (Pipeline.reads q.nodes).count c.name := by
  have hsound := hlaid.sound _ _ hq
  have hpage := h.page _ k (below_cons.2 (List.suffix_append path r)) hk
  rw [hs] at hpage
  obtain ⟨taken, hd, hins, -⟩ := hpage
  have hin : c ∈ k.node.inputs := hins ▸ by simp
  have hnew : i :: (path ++ r) ∉ actors (Deed.takenFrom? c) ds := by
    intro hmem
    have hcount := List.count_pos_iff.2 hmem
    have hwired := hsound.wired _ (List.mem_of_getElem? hn)
    have hnd := List.Nodup.of_map _ (Node.nodup_of_wiringFault? hwired).1
    rw [← hins, List.nodup_append] at hnd
    have hnot : c ∉ taken.map Prod.fst := fun hmem => hnd.2.2 _ hmem c List.mem_cons_self rfl
    rw [count_actors_taken, hd, valuesOn_of_notMem hnot] at hcount
    exact absurd hcount (Nat.lt_irrefl 0)
  -- the one that waits and those who have taken are different readers
  have hreaders : ∀ a ∈ (i :: (path ++ r)) :: actors (Deed.takenFrom? c) ds,
      ∃ j n, a = j :: (path ++ r) ∧ q.nodes[j]? = some n ∧ c ∈ n.inputs := by
    intro a ha
    rcases List.mem_cons.1 ha with rfl | ha
    · exact ⟨i, _, rfl, hn, hin⟩
    · obtain ⟨x, hx⟩ := mem_actors_taken.1 ha
      obtain ⟨j, kb, rfl, -, hj, hinb⟩ := h.taker hlaid ht hq hc hx
      exact ⟨j, _, rfl, hj, hinb⟩
  have hsub : ((i :: (path ++ r)) :: actors (Deed.takenFrom? c) ds).map q.nodeAt ⊆
      (q.nodes.filter fun n => c ∈ n.inputs).map some := by
    intro n? hmem
    obtain ⟨a, ha, rfl⟩ := List.mem_map.1 hmem
    obtain ⟨j, n, rfl, hj, hina⟩ := hreaders a ha
    exact List.mem_map.2 ⟨n, List.mem_filter.2 ⟨List.mem_of_getElem? hj, by simpa using hina⟩,
      hj.symm⟩
  have hdistinct : (((i :: (path ++ r)) :: actors (Deed.takenFrom? c) ds).map q.nodeAt).Nodup :=
    List.Nodup.map_on (fun a ha a' ha' heq => hsound.nodeAt_injective (fun a ha => by
      obtain ⟨j, n, hj, hn, -⟩ := hreaders a ha
      exact ⟨j, n, hj, hn⟩) ha ha' heq)
      (List.nodup_cons.2 ⟨hnew, h.nodup_takers hlaid ht hq hc⟩)
  have hle := (List.subperm_of_subset hdistinct hsub).length_le
  rw [List.length_map, List.length_map, List.length_cons, length_actors] at hle
  exact lt_of_lt_of_le hle (Pipeline.length_readers_le _ _)

/-- If somebody waits on an empty channel, those who have published there are too few. -/
lemma Ledger.short (h : w.Ledger v r p seeds ds) (hlaid : p.Laid) (hc : v.Course r p)
    (hrun : v.runs (path ++ r) = some run) (hk : v.workers (i :: (path ++ r)) = some k)
    {got : Payload} {rest : List Channel} (hs : k.stage = .gathering got (c :: rest))
    (hempty : (v.conduit c).queue = []) {ns : List Node} (hnd : ns.Nodup)
    (hnodes : ∀ n ∈ ns, n ∈ run.pipeline.nodes)
    (hsent : ∀ n ∈ ns, c ∈ n.outputs → ∃ j x, run.pipeline.nodes[j]? = some n ∧
      .sent (j :: (path ++ r)) c x ∈ ds) :
    run.pipeline.Short w.queued (seedsOf r seeds ds path).keys ns c.name := by
  have hq := hc.tree.level hrun
  have hp := place_of_run hc hrun hk
  have hsuits := hc.tree.suits _ k hp.below hk
  rw [hs] at hsuits
  have hch := hlaid.input hq hp.mem (hsuits.2.subset List.mem_cons_self)
  have hflow := congrArg List.length (h.flow path _ c hq hch)
  rw [h.gainedFrom_of_gathering hlaid hc hq hch hk hs, hempty] at hflow
  simp only [List.length_append, List.append_nil, Payload.length_get?] at hflow
  have hsenders := (hlaid.sound _ _ hq).count_writes_le_sent hch hnd hnodes hsent
  have hreaders := h.taken_lt hlaid hc.tree hq hp.posted.node hk hs hch
  have hqueued : w.queued c = (w.conduit c).queue.length := rfl
  rw [Pipeline.Short, (hlaid.sound _ _ hq).supply hch, hqueued]
  omega

/-! ### Whose channels they are -/

/-- Nobody but the workers of the run is in line on its channels. -/
def Reserved (v : World) (r : Address) (p : Pipeline) : Prop :=
  ∀ path q c, p.level? path = some q → c ∈ q.channels → ∀ a ∈ (v.conduit c).line, Below r a

lemma Reserved.step (h : v.Reserved r p) (hc : v.Course r p) {m : Move} (hm : m.Of r)
    (hs : v.step? m = some u) : u.Reserved r p := by
  intro path q c hq hch a ha
  rcases step_cases hm hs with ⟨b, k, expired, -, hb, -, hst⟩ | ⟨b, _, _, -, -, ht, -⟩
  · by_cases hab : a = b
    · exact hab ▸ hb
    · exact h path q c hq hch a ((hc.lines.line_of_ne hst hab c.id).1 ha)
  · rw [conduit, ht.conduits] at ha
    exact h path q c hq hch a ha

theorem reserved_of_plays {runtime : Bool} (hready : w.Ready p) (hv : w.Vacant r)
    (ho : ∀ x, (w.conduits x).Orderly) (hstart : w.start r p seeds token runtime = .ok w₁)
    (h : w₁.Plays r (HandsOff p r) ms v) : v.Reserved r p := by
  induction h with
  | start =>
    intro path q c hq hch a ha
    rw [conduit, (start_eq_ok hstart).2.2.conduits] at ha
    have hline := ((Pipeline.aside_sow p (0 :: a) c.id seeds.entries w.conduits (ho _)).2 a
      (cons_ne_self 0 a).symm).1 ha
    have hcalm : (w.conduits c.id).line = [] := (hready.calm path q c hq hch).line
    rw [hcalm] at hline
    cases hline
  | move before own step ih =>
    exact ih.step (course_of_plays hv ho hstart (fun _ _ hact => hact.outside) before) own step
  | @await _ u _ ih =>
    intro path q c hq hch a ha
    rw [conduit, (await_others u r).2.1] at ha
    exact ih path q c hq hch a ha
  | others _ act ih =>
    intro path q c hq hch a ha
    exact ih path q c hq hch a (act.channels path q c hq hch ▸ ha)

/-! ### Who starves -/

/-- The worker `k` at `b` waits without end on the empty channel `c`, on which the node of the
worker `m`, which has failed, was to publish. -/
structure Starves (v : World) (b : Address) (k m : Worker) (c : Channel) : Prop where
  reader : ∃ i, v.workers (i :: b) = some k
  waits : ∃ got rest, k.stage = .gathering got (c :: rest)
  empty : (v.conduit c).queue = []
  endless : k.limit = none ∧ v.isCancelled k.token = false
  writer : ∃ j, v.workers (j :: b) = some m
  output : c ∈ m.node.outputs
  failed : ∃ e, m.stage = .reported (.error e)

/-- Somebody of the run at `b` starves. -/
def Starved (v : World) (b : Address) : Prop := ∃ k m c, v.Starves b k m c

/-- If the first in the order of firing who has not reported waits for a value, it waits for a
node that has failed. -/
lemma Ledger.starved_of_blocked (h : w.Ledger v r p seeds ds) (hlaid : p.Laid)
    (hc : v.Course r p) (hforth : p.Forthcoming) (hrun : v.runs (path ++ r) = some run)
    (hk : v.workers (i :: (path ++ r)) = some k) (hb : v.Blocked (i :: (path ++ r)) k c)
    (hempty : (v.conduit c).queue = []) {pre post fired : List Node}
    (hplayed : run.pipeline.Played w.queued (seedsOf r seeds ds path).keys fired)
    (hfired : fired = pre ++ k.node :: post)
    (hpre : ∀ n ∈ pre, ∀ j m, run.pipeline.nodes[j]? = some n →
      v.workers (j :: (path ++ r)) = some m → ∃ result, m.stage = .reported result) :
    v.Starved (path ++ r) := by
  have hq := hc.tree.level hrun
  have hsound := hlaid.sound _ _ hq
  have hp := place_of_run hc hrun hk
  obtain ⟨got, rest, hs⟩ := hb.stage
  have hsuits := hc.tree.suits _ k hp.below hk
  rw [hs] at hsuits
  by_contra hno
  have hnodup : fired.Nodup :=
    (List.nodup_append.1 (hplayed.perm.nodup_iff.2 hsound.nodup_nodes)).1
  have hnodes : ∀ n ∈ pre, n ∈ run.pipeline.nodes := fun n hn =>
    hplayed.perm.subset (List.mem_append_left _ (hfired ▸ List.mem_append_left _ hn))
  refine hplayed.feasible pre k.node post hfired c (hsuits.2.subset List.mem_cons_self)
    (h.short hlaid hc hrun hk hs hempty (hnodup.sublist (hfired ▸ List.sublist_append_left _ _))
      hnodes fun n hn hout => ?_)
  obtain ⟨j, hj⟩ := List.mem_iff_getElem?.1 (hnodes n hn)
  obtain ⟨m, hm⟩ := hc.tree.manned _ j run n (List.suffix_append path r) hrun hj
  have hpm := place_of_run hc hrun hm
  obtain rfl : m.node = n := Option.some.inj (hpm.posted.node.symm.trans hj)
  obtain ⟨result, hsm⟩ := hpre m.node hn j m hj hm
  have hpage := h.page _ m hpm.below hm
  rw [hsm] at hpage
  cases result with
  | error e =>
    exact absurd ⟨k, m, c, ⟨i, hk⟩, ⟨got, rest, hs⟩, hempty, ⟨hb.limit, hb.alive⟩, ⟨j, hm⟩, hout,
      e, hsm⟩ hno
  | ok result =>
    obtain ⟨x, hx⟩ := hpage.1.mem_sent hforth hq hpm.mem hout
    exact ⟨j, x, hj, mem_diary_sent.1 hx⟩

/-- A run that somebody waits for, and that is not over at a standstill, has somebody who starves,
or a run inside it has. -/
lemma Ledger.exists_starved (h : w.Ledger v r p seeds ds) (hready : w.Ready p)
    (hc : v.Course r p) (hforth : p.Forthcoming) (hreserved : v.Reserved r p) (hstill : v.Still r)
    (q : Pipeline) : ∀ path run, v.runs (path ++ r) = some run → run.pipeline = q →
      run.Attended → ¬ run.Over →
      q.checkSatisfiable w.queued (seedsOf r seeds ds path).keys = .ok () →
      ∃ path', v.Starved (path' ++ r) := by
  induction q using Pipeline.nest_induction with
  | step q ih =>
  rintro path run hrun rfl hatt hopen haccepted
  have hlaid := hready.laid
  have hb : r <:+ path ++ r := List.suffix_append path r
  obtain ⟨fired, hplayed⟩ :=
    run.pipeline.exists_played w.queued (seedsOf r seeds ds path).keys
  have hperm := hplayed.perm
  rw [Pipeline.checkSatisfiable_eq_ok.1 haccepted, List.append_nil] at hperm
  -- somebody has not reported; take the first in the order of firing
  obtain ⟨-, i₀, k₀, hk₀, hunrep₀⟩ :=
    (receiver_of_resting hc.tree hstill.resting hb hrun hatt).resolve_left hopen
  have hsome : ∃ n ∈ fired, ∃ j m, run.pipeline.nodes[j]? = some n ∧
      v.workers (j :: (path ++ r)) = some m ∧ ∀ result, m.stage ≠ .reported result := by
    have hp₀ := place_of_run hc hrun hk₀
    exact ⟨k₀.node, hperm.symm.subset hp₀.mem, i₀, k₀, hp₀.posted.node, hk₀, hunrep₀⟩
  obtain ⟨pre, n, post, hfired, ⟨i, k, hi, hk, hunrep⟩, hpre⟩ := exists_first hsome
  have hp := place_of_run hc hrun hk
  obtain rfl : k.node = n := Option.some.inj (hp.posted.node.symm.trans hi)
  rcases worker_of_resting hc.tree hstill.resting hp.below hp.below.ne_nil hk with
    ⟨result, hs⟩ | ⟨inner, below, hs, hbelow, hn, hnot⟩ | ⟨c, hblocked⟩
  · exact absurd hs (hunrep result)
  · have hpage := h.page _ k hp.below hk
    rw [hs] at hpage
    obtain ⟨taken, inputs, hd, hgathered⟩ := hpage
    have hseeds : seedsOf r seeds ds (i :: path) = inputs := by
      rw [seedsOf, hd]
      rfl
    refine ih k.node hp.mem _ hn.inner (i :: path) below hbelow rfl hn.attended hnot ?_
    rw [hseeds, hgathered.keys]
    exact (hready.fits hp.level hp.mem hn.inner).2.accepted
  · obtain ⟨got, rest, hs⟩ := hblocked.stage
    have hsuits := hc.tree.suits _ k hp.below hk
    rw [hs] at hsuits
    have hch := hp.input hready (hsuits.2.subset List.mem_cons_self)
    have hempty := queue_of_blocked hc hstill.resting (fun g hg => by
      have hbelow := hreserved path _ c hp.level hch g (List.mem_append_right _ hg)
      exact ⟨hbelow, hbelow.ne_nil⟩) hblocked
    refine ⟨path, h.starved_of_blocked hlaid hc hforth hrun hk hblocked hempty hplayed hfired ?_⟩
    intro n hn j m hj hm
    by_contra hnone
    exact hpre n hn ⟨j, m, hj, hm, fun result hs => hnone ⟨result, hs⟩⟩

/-- **Starved or returned.** At a standstill of a run that somebody waits for, that was accepted
and whose logic returns everything if it returns anything, either somebody waits without end for a
node that has failed, in the run or in a run inside it, and the wait for the run has not returned;
or nobody does, and the wait has returned the verdict on all outcomes: if any node has failed, the
failure that was told first. The strategy makes no difference. -/
theorem starved_or_returned {runtime : Bool} (hready : w.Ready p) (hv : w.Vacant r)
    (ho : ∀ x, (w.conduits x).Orderly) (hstart : w.start r p seeds token runtime = .ok w₁)
    (hvalidate : p.options.validateInputs = true) (hforth : p.Forthcoming)
    (h : w₁.Chronicle r (HandsOff p r) ms ds v) (hstill : v.Still r) (hrun : v.runs r = some run)
    (hatt : run.Attended) :
    (∃ path, v.Starved (path ++ r)) ∧ ¬ run.Over ∨
      (∀ path, ¬ v.Starved (path ++ r)) ∧
        run.collector = .returned (verdict p (outcomes p r ds)) ∧
        ∀ i k e, v.workers (i :: r) = some k → k.Ended (.error e) →
          ∃ first, firstFailure (outcomes p r ds) = some first ∧
            run.collector = .returned (.error first) := by
  obtain ⟨hc, hledger⟩ := ledger_of_chronicle hready.laid hv ho hstart h
  have htally := tally_of_chronicle hv ho hstart (h.mono fun _ _ hact => hact.outside)
  have hreserved := reserved_of_plays hready hv ho hstart h.plays
  have hrun' : v.runs ([] ++ r) = some run := hrun
  obtain rfl : p = run.pipeline := Option.some.inj (hc.tree.level hrun')
  have haccepted := (validate_eq_ok.1 (start_eq_ok hstart).2.1).2 hvalidate
  by_cases hover : run.Over
  · refine .inr ⟨fun path hstarved => ?_, ?_⟩
    · -- in a run that is over everybody has reported
      obtain ⟨k, m, c, hs⟩ := hstarved
      obtain ⟨i, hk⟩ := hs.reader
      obtain ⟨got, rest, hstage⟩ := hs.waits
      have hdone := finished_of_still hc hstill run.pipeline r run List.suffix_rfl hrun rfl
        (.inl hover)
      obtain ⟨result, hrep⟩ := hdone.workers _ k (below_cons.2 (List.suffix_append path r)) hk
      rw [hstage] at hrep
      cases hrep
    · obtain ⟨result, hcol⟩ := hover
      have hheard := htally.heard r run List.suffix_rfl hrun
      rw [Run.Heard, hcol] at hheard
      refine ⟨hheard ▸ hcol, fun i k e hk hended => ?_⟩
      have hb : Below r (i :: r) := below_cons.2 List.suffix_rfl
      have hrep : k.stage = .reported (.error e) := by
        rcases hended with hs | hs
        · have hclosed := (hc.hearing r run List.suffix_rfl hrun).closed ⟨result, hcol⟩
          obtain ⟨_, hs'⟩ := hclosed.2 i k hk
          rw [hs] at hs'
          cases hs'
        · exact hs
      have hpage := hledger.page _ k hb hk
      rw [hrep] at hpage
      have htold : .told (i :: r) (.error e) ∈ ds :=
        mem_diary_told.1 (hpage.2 ▸ List.mem_singleton_self _)
      have hout := mem_outcomes (place_of_run hc hrun' hk).posted.node htold
      obtain ⟨first, hfirst⟩ := Option.ne_none_iff_exists'.1 (firstFailure_ne_none hout rfl)
      refine ⟨first, hfirst, ?_⟩
      rw [hcol, hheard, verdict, hfirst]
      rfl
  · exact .inl ⟨hledger.exists_starved hready hc hforth hreserved hstill run.pipeline [] run
      hrun' rfl hatt hover haccepted, hover⟩

/-! ### Two small pipelines -/

/-- The world after these moves, if each of them can be made in its turn. -/
def steps (v : World) : List Move → Option World
  | [] => some v
  | m :: rest =>
    match v.step? m with
    | none => none
    | some u => u.steps rest

/-- On no level of the run of `p` at `r` has a worker a step left, or the receiver. -/
def exhausted (v : World) (r : Address) (p : Pipeline) : Bool :=
  p.tiers.all fun t =>
    ((List.range t.2.nodes.length).all fun i =>
      (v.work? (i :: (t.1 ++ r)) false).isNone && (v.work? (i :: (t.1 ++ r)) true).isNone) &&
    (v.collect? (t.1 ++ r)).isNone && (v.conclude? (t.1 ++ r)).isNone

lemma Chronicle.steps {env : World → World → Prop} {ns : List Move}
    (h : w.Chronicle r env ms ds v) (hof : ∀ m ∈ ns, m.Of r) (hs : v.steps ns = some u) :
    ∃ es, w.Chronicle r env (ms ++ ns) es u := by
  induction ns generalizing ms ds v with
  | nil =>
    obtain rfl := Option.some.inj hs
    exact ⟨ds, by rwa [List.append_nil]⟩
  | cons m rest ih =>
    rw [World.steps] at hs
    split at hs
    · cases hs
    · next u' hu =>
      obtain ⟨es, hes⟩ := ih (h.move (hof m List.mem_cons_self) hu)
        (fun m' hm' => hof m' (List.mem_cons_of_mem _ hm')) hs
      exact ⟨es, by rwa [List.append_assoc] at hes⟩

lemma plays_of_steps {env : World → World → Prop} (hof : ∀ m ∈ ms, m.Of r)
    (hs : v.steps ms = some u) : v.Plays r env ms u := by
  obtain ⟨ds, h⟩ := (Chronicle.start : v.Chronicle r env [] [] v).steps hof hs
  exact h.plays

/-- A run stands still when it is exhausted. -/
lemma still_of_exhausted (hc : v.Course r p) (h : v.exhausted r p = true) : v.Still r := by
  have level : ∀ {path q}, p.level? path = some q →
      (∀ i, i < q.nodes.length → v.work? (i :: (path ++ r)) false = none ∧
        v.work? (i :: (path ++ r)) true = none) ∧
      v.collect? (path ++ r) = none ∧ v.conclude? (path ++ r) = none := by
    intro path q hq
    have hlevel := List.all_eq_true.1 h _ (Pipeline.mem_tiers.2 hq)
    simp only [Bool.and_eq_true, List.all_eq_true, List.mem_range,
      Option.isNone_iff_eq_none] at hlevel
    exact ⟨hlevel.1.1, hlevel.1.2, hlevel.2⟩
  have work : ∀ {a expired}, Below r a → v.work? a expired = none := by
    intro a expired ha
    cases hk : v.workers a with
    | none => simp [work?, hk]
    | some k =>
      obtain ⟨i, path, run, rfl, -, hpost, hlevel⟩ := hc.tree.place ha hk
      have hi := (level hlevel).1 i (List.getElem?_eq_some_iff.1 hpost.node).1
      cases expired
      · exact hi.1
      · exact hi.2
  have receive : ∀ {b}, r <:+ b →
      v.runs b = none ∨ v.collect? b = none ∧ v.conclude? b = none := by
    rintro _ ⟨path, rfl⟩
    cases hrun : v.runs (path ++ r) with
    | none => exact .inl rfl
    | some run => exact .inr (level (hc.tree.level hrun)).2
  intro m hm
  cases m with
  | work a => exact work hm
  | expire a => exact work hm
  | collect b =>
    rcases receive hm with hnone | hrest
    · simp [step?, collect?, hnone]
    · exact hrest.1
  | conclude b =>
    rcases receive hm with hnone | hrest
    · simp [step?, conclude?, hnone]
    · exact hrest.2
  | cancel t => exact hm.elim

lemma vacant_initial (r : Address) : initial.Vacant r :=
  ⟨fun _ _ => rfl, fun _ _ => rfl, fun _ _ h => by cases h⟩

lemma orderly_initial (x : Nat) : (initial.conduits x).Orderly := Conduit.Calm.orderly ⟨rfl, rfl⟩

/-- In an empty world a run whose wait begins at once is played by the moves that lead to where it
is exhausted. -/
lemma exists_standstill {ns : List Move}
    (hvalid : initial.validate p .empty = .ok ()) (hof : ∀ m ∈ ns, m.Of r)
    (hsteps : (((initial.markStarted p).launch r p token).await r).steps ns = some v)
    (hrest : v.exhausted r p = true) :
    ∃ w₁ ds, initial.start r p .empty token true = .ok w₁ ∧ w₁.Chronicle r Alone ns ds v ∧
      v.Still r := by
  have hstart : initial.start r p .empty token true =
      .ok ((initial.markStarted p).launch r p token) := by
    unfold start
    rw [hvalid]
    rfl
  have hawaited : ((initial.markStarted p).launch r p token).Chronicle r Alone [] []
      (((initial.markStarted p).launch r p token).await r) := .await .start
  obtain ⟨ds, h⟩ := hawaited.steps hof hsteps
  refine ⟨_, ds, hstart, h, still_of_exhausted ?_ hrest⟩
  exact course_of_plays (vacant_initial r) orderly_initial hstart (fun _ _ h => h.elim) h.plays

/-- A source that fails, and a source that does not. -/
def lame : Pipeline where
  id := 0
  name := "lame"
  options := { failureStrategy := .continueOnError }
  channels := [⟨1, "c", .text⟩, ⟨2, "d", .text⟩]
  nodes := [⟨"a", [], [⟨1, "c", .text⟩], .source (.pure .producer fun _ => .failed (.of "boom"))⟩,
    ⟨"b", [], [⟨2, "d", .text⟩], .source (.chatter .producer ["d"])⟩]

/-- In the lame pipeline the other source does its work, and then the failure is reported. -/
theorem lame_returns : ∃ w₁ ds v run first, initial.start [2] lame .empty [2] true = .ok w₁ ∧
    w₁.Chronicle [2] (HandsOff lame [2]) [.work [0, 2], .work [1, 2], .work [0, 2], .work [1, 2],
      .work [1, 2], .work [1, 2], .work [1, 2], .collect [2], .collect [2], .conclude [2]] ds v ∧
    v.Still [2] ∧ v.runs [2] = some run ∧ firstFailure (outcomes lame [2] ds) = some first ∧
      run.collector = .returned (.error first) := by
  have hflat : lame.Flat := by simp [Pipeline.Flat, lame, Node.inner?]
  have hsound : lame.Sound := ⟨by decide, by decide, by decide, by
    simp only [lame, List.forall_mem_cons]
    exact ⟨rfl, rfl, fun _ h => by cases h⟩, by
    simp only [lame, List.forall_mem_cons]
    exact ⟨rfl, rfl, fun _ h => by cases h⟩⟩
  have hready : initial.Ready lame :=
    ready_of_flat hsound hflat (fun _ _ => ⟨rfl, rfl⟩) fun _ _ _ h => by cases h
  have hforth : lame.Forthcoming := by
    refine Pipeline.forthcoming_of_flat hflat ?_
    simp only [lame, List.forall_mem_cons]
    refine ⟨fun logic hlogic calls inputs outputs hreply => ?_,
      fun logic hlogic calls inputs outputs hreply => ?_, fun n hn => by cases hn⟩
    · obtain rfl := Option.some.inj hlogic
      cases hreply
    · obtain rfl := Option.some.inj hlogic
      obtain rfl := Reply.returned.inj hreply
      exact ⟨by decide, fun c hc => by cases hc⟩
  obtain ⟨v, k, e, run, hsteps, hrest, hk, hs, hrun, hover⟩ : ∃ v k e run,
      (((initial.markStarted lame).launch [2] lame [2]).await [2]).steps [.work [0, 2],
        .work [1, 2], .work [0, 2], .work [1, 2], .work [1, 2], .work [1, 2], .work [1, 2],
        .collect [2], .collect [2], .conclude [2]] = some v ∧ v.exhausted [2] lame = true ∧
      v.workers [0, 2] = some k ∧ k.stage = .reported (.error e) ∧ v.runs [2] = some run ∧
      run.Over := ⟨_, _, _, _, rfl, rfl, rfl, rfl, rfl, _, rfl⟩
  obtain ⟨w₁, ds, hstart, htold, hstill⟩ := exists_standstill
    (validate_eq_ok.2 ⟨rfl, fun _ => by cbv⟩) (by simp [Move.Of]) hsteps hrest
  have htold' : w₁.Chronicle [2] (HandsOff lame [2]) _ ds v := htold.mono fun _ _ h => h.elim
  rcases starved_or_returned hready (vacant_initial [2]) orderly_initial hstart rfl hforth htold'
    hstill hrun (.inr hover) with ⟨-, hopen⟩ | ⟨-, -, hfails⟩
  · exact absurd hover hopen
  · obtain ⟨first, hfirst, hcol⟩ := hfails 0 k e hk (.inr hs)
    exact ⟨w₁, ds, v, run, first, hstart, htold', hstill, hrun, hfirst, hcol⟩

/-- A source that fails, and a sink that waits for it. -/
def severed : Pipeline where
  id := 0
  name := "severed"
  options := { failureStrategy := .continueOnError }
  channels := [⟨1, "c", .text⟩]
  nodes := [⟨"a", [], [⟨1, "c", .text⟩], .source (.pure .producer fun _ => .failed (.of "boom"))⟩,
    ⟨"b", [⟨1, "c", .text⟩], [], .sink (.pure .function fun _ => .returned .empty)⟩]

/-- The severed pipeline is accepted, and its source fails; and yet the wait for it, which goes on
to the end, does not return. -/
theorem severed_hangs : severed.options.validateInputs = true ∧
    severed.options.failureStrategy = .continueOnError ∧ severed.Forthcoming ∧
    ∃ w₁ v k e run, initial.start [2] severed .empty [2] true = .ok w₁ ∧
      w₁.Plays [2] Alone [.work [0, 2], .work [0, 2], .work [1, 2], .collect [2]] v ∧
      v.Still [2] ∧ v.workers [0, 2] = some k ∧ k.stage = .reported (.error e) ∧
      v.runs [2] = some run ∧ run.Attended ∧ ¬ run.Over := by
  have hflat : severed.Flat := by simp [Pipeline.Flat, severed, Node.inner?]
  have hforth : severed.Forthcoming := by
    refine Pipeline.forthcoming_of_flat hflat ?_
    simp only [severed, List.forall_mem_cons]
    refine ⟨fun logic hlogic calls inputs outputs hreply => ?_,
      fun logic hlogic calls inputs outputs hreply c hc => (by cases hc), fun n hn => by cases hn⟩
    obtain rfl := Option.some.inj hlogic
    cases hreply
  obtain ⟨v, k, e, run, hsteps, hrest, hk, hs, hrun, completed, failure, hcol⟩ : ∃ v k e run,
      (((initial.markStarted severed).launch [2] severed [2]).await [2]).steps [.work [0, 2],
        .work [0, 2], .work [1, 2], .collect [2]] = some v ∧ v.exhausted [2] severed = true ∧
      v.workers [0, 2] = some k ∧ k.stage = .reported (.error e) ∧ v.runs [2] = some run ∧
      ∃ completed failure, run.collector = .waiting completed failure :=
    ⟨_, _, _, _, rfl, rfl, rfl, rfl, rfl, _, _, rfl⟩
  obtain ⟨w₁, ds, hstart, htold, hstill⟩ := exists_standstill
    (validate_eq_ok.2 ⟨rfl, fun _ => by cbv⟩) (by simp [Move.Of]) hsteps hrest
  refine ⟨rfl, rfl, hforth, w₁, v, k, e, run, hstart, htold.plays, hstill, hk, hs, hrun,
    .inl ⟨_, _, hcol⟩, ?_⟩
  rintro ⟨result, hres⟩
  rw [hcol] at hres
  cases hres

end World

end Dataflow
