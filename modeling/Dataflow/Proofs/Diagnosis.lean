import Dataflow.Proofs.Completion

/-!
What a rejection says about the run. Where no channel has two readers, nothing ever appears on a
channel that is short before the node that waits for it has run; so the nodes that the analysis
could not fire are those that never complete, and each of them waits on the input reported for it.
-/

namespace Dataflow

namespace Worker

variable {k : Worker} {x : String}

/-- Whoever has still to take something has published nothing. -/
lemma owes_of_needs (h : x ∈ k.needs) : k.owes = k.node.outs := by
  unfold needs at h
  cases hs : k.stage with
  | gathering got rest => rw [owes, hs]
  | _ => simp [hs] at h

end Worker

namespace Pipeline

variable {p : Pipeline}

/-- No channel is read by two nodes. -/
def Unshared (p : Pipeline) : Prop :=
  ∀ n ∈ p.nodes, ∀ m ∈ p.nodes, ∀ c ∈ n.inputs, c ∈ m.inputs → n = m

lemma Unshared.nodup_reads (h : p.Unshared) (hs : p.Sound) : (reads p.nodes).Nodup := by
  refine List.nodup_flatMap.2 ⟨fun n hn => (Node.nodup_of_wiringFault? (hs.wired n hn)).1, ?_⟩
  refine hs.nodup_nodes.pairwise_of_forall_ne fun n hn m hm hne x hx hx' => hne ?_
  obtain ⟨c, hc, rfl⟩ := List.mem_map.1 hx
  obtain ⟨d, hd, hname⟩ := List.mem_map.1 hx'
  have hcd : p.channel? d.name = some c := hname ▸ hs.input hn hc
  obtain rfl := Option.some.inj ((hs.input hm hd).symm.trans hcd)
  exact h n hn m hm d hc hd

/-- If a node needs its first short input and waits on a short one, it waits on the first. -/
lemma FirstShort.eq_of_short {queued : Channel → Nat} {seeded : List String} {fired : List Node}
    {n : Node} {c d : Channel} {taken rest : List Channel}
    (h : p.FirstShort queued seeded fired n c) (hnd : n.ins.Nodup)
    (hins : n.inputs = taken ++ d :: rest) (hshort : p.Short queued seeded fired d.name)
    (hneed : c.name ∈ (d :: rest).map (·.name)) : d = c := by
  obtain ⟨pre, post, hins', -, hpre⟩ := h
  rw [Node.ins, hins, List.map_append] at hnd
  rcases List.append_eq_append_iff.1 (hins.symm.trans hins') with
    ⟨s, rfl, hs⟩ | ⟨s, rfl, hs⟩
  · cases s with
    | nil => exact (List.cons.inj hs).1
    | cons e s =>
      obtain ⟨rfl, -⟩ := List.cons.inj hs
      exact absurd hshort (hpre d (by simp))
  · cases s with
    | nil => exact (List.cons.inj hs).1.symm
    | cons e s =>
      obtain ⟨rfl, -⟩ := List.cons.inj hs
      exact absurd rfl ((List.nodup_append.1 hnd).2.2 c.name (by simp) c.name hneed)

end Pipeline

namespace World

variable {w w₁ v v' : World} {r : Address} {p : Pipeline} {seeds : Payload} {token : Token}
  {fired : List Node} {front rear : List Worker} {c : Channel} {ms : List Move}

/-- Every worker at `r` whose node was left unfired needs the first input that is short for it. -/
def Starving (v : World) (r : Address) (left : List Node)
    (firstShort : Node → Channel → Prop) : Prop :=
  ∀ i k c, v.workers (i :: r) = some k → k.node ∈ left → firstShort k.node c → c.name ∈ k.needs

/-- As long as those in the rear have published nothing, there is nothing on a channel that is
short and has only one reader. -/
lemma Ranks.queue_of_short {b : Address} {q : Pipeline} {seeded : List String}
    (h : w.Ranks v b q seeded fired front rear) (hc : c ∈ q.channels)
    (hone : (Pipeline.reads q.nodes).count c.name ≤ 1)
    (hrear : ∀ k ∈ rear, k.owes = k.node.outs)
    (hshort : q.Short w.queued seeded fired c.name) : (v.conduit c).queue = [] := by
  have hbooks := h.balanced c hc
  have howes : rear.flatMap Worker.owes = Pipeline.writes (rear.map Worker.node) := by
    rw [Pipeline.writes, List.flatMap_map]
    exact List.flatMap_congr hrear
  have hneeds := Worker.count_needs_le h.upright c.name
  have hreads := Pipeline.count_reads_perm h.played.perm c.name
  rw [← h.fires, ← h.left, ← List.map_append] at hreads
  have hwrites := h.writes_eq c.name
  rw [List.flatMap_append, howes, List.count_append] at hbooks
  unfold Pipeline.Short at hshort
  apply List.eq_nil_of_length_eq_zero
  omega

/-- The level that the run as a whole is on. -/
lemma Smooth.root_ranks (h : w.Smooth v r p seeds token) (hc : v.Course r p)
    (hplayed : p.Played w.queued seeds.keys fired) :
    ∃ front rear, w.Ranks v r p seeds.keys fired front rear := by
  obtain ⟨run, hrun, rfl⟩ := hc.tree.root
  have hrun' : v.runs ([] ++ r) = some run := hrun
  exact h.ranks hc hrun' (.inl rfl) hplayed

lemma Course.node_of_worker (hc : v.Course r p) {i : Nat} {k : Worker}
    (hk : v.workers (i :: r) = some k) : p.nodes[i]? = some k.node := by
  obtain ⟨run, rfl, hplace⟩ := place_of_root hc hk
  exact hplace.posted.node

/-- Each node of the run has its worker at all times. -/
lemma Course.worker_of_node (hc : v.Course r p) {i : Nat} {n : Node}
    (hn : p.nodes[i]? = some n) : ∃ k, v.workers (i :: r) = some k ∧ k.node = n := by
  obtain ⟨run, hrun, rfl⟩ := hc.tree.root
  obtain ⟨k, hk⟩ := hc.tree.manned r i run n List.suffix_rfl hrun hn
  exact ⟨k, hk, Option.some.inj ((hc.node_of_worker hk).symm.trans hn)⟩

lemma Starving.queue (hstarve : v.Starving r (p.unfired w.queued seeds.keys)
      (p.FirstShort w.queued seeds.keys fired))
    (h : w.Smooth v r p seeds token) (hc : v.Course r p) (ho : w.Outset w₁ r p seeds token)
    (hplayed : p.Played w.queued seeds.keys fired) (hun : p.Unshared)
    (hmem : c ∈ p.channels) (hshort : p.Short w.queued seeds.keys fired c.name) :
    (v.conduit c).queue = [] := by
  obtain ⟨front, rear, hranks⟩ := h.root_ranks hc hplayed
  have hnd := hun.nodup_reads (ho.ready.sound [] p rfl)
  refine hranks.queue_of_short hmem (List.nodup_iff_count_le_one.1 hnd _) (fun k hk => ?_) hshort
  obtain ⟨i, hi⟩ := hranks.mem.1 (List.mem_append_right _ hk)
  have hleft := hranks.unfired hk
  obtain ⟨d, hd⟩ := hplayed.short k.node hleft
  exact Worker.owes_of_needs (hstarve i k d hi hleft hd)

/-- No move lets an unfired node take the input that is short for it. -/
lemma Starving.step (hstarve : v.Starving r (p.unfired w.queued seeds.keys)
      (p.FirstShort w.queued seeds.keys fired))
    (h : w.Smooth v r p seeds token) (h' : w.Smooth v' r p seeds token) (hc : v.Course r p)
    (hc' : v'.Course r p) (ho : w.Outset w₁ r p seeds token)
    (hplayed : p.Played w.queued seeds.keys fired) (hun : p.Unshared) {m : Move} (hm : m.Of r)
    (hs : v.step? m = some v') :
    v'.Starving r (p.unfired w.queued seeds.keys) (p.FirstShort w.queued seeds.keys fired) := by
  intro i k' c hk' hleft hfirst
  obtain ⟨k, hk, -⟩ := hc.worker_of_node (hc'.node_of_worker hk')
  obtain ⟨k₁, hk₁, hadv⟩ := h'.worker_step hc hm hs (below_cons.2 List.suffix_rfl) hk
  obtain rfl := Option.some.inj (hk₁.symm.trans hk')
  rw [hadv.node] at hleft hfirst
  have hneed := hstarve i k c hk hleft hfirst
  rcases hadv.needs with hsame | ⟨d, hd, hneeds, hqueue⟩
  · exact hsame ▸ hneed
  · rw [hneeds] at hneed
    rcases List.mem_cons.1 hneed with hname | hrest
    · -- it would have taken the short input itself, but nothing is there
      obtain ⟨pre, post, hins, hshort, -⟩ := hfirst
      have hmem : d ∈ p.channels := by
        obtain ⟨front, rear, hranks⟩ := h.root_ranks hc hplayed
        exact hranks.input (ho.ready.sound [] p rfl) (hranks.mem.2 ⟨i, hk⟩) hd
      exact absurd (hstarve.queue h hc ho hplayed hun hmem (hname ▸ hshort)) hqueue
    · exact hrest

lemma Outset.starving (ho : w.Outset w₁ r p seeds token) (left : List Node) :
    w₁.Starving r left (p.FirstShort w.queued seeds.keys fired) := by
  rintro i k c hk - ⟨pre, post, hins, -, -⟩
  obtain ⟨-, -, hl⟩ := start_eq_ok ho.start
  rw [hl.worker_new ho.vacant] at hk
  obtain ⟨n, hn, rfl⟩ := Option.map_eq_some_iff.1 hk
  rw [Worker.needs_new]
  exact List.mem_map_of_mem (hins ▸ by simp)

lemma starving_of_plays (ho : w.Outset w₁ r p seeds token)
    (hans : ∀ ns u, w₁.Plays r Alone ns u → u.Answers r)
    (hplayed : p.Played w.queued seeds.keys fired) (hun : p.Unshared)
    (hplay : w₁.Plays r Alone ms v) :
    v.Starving r (p.unfired w.queued seeds.keys) (p.FirstShort w.queued seeds.keys fired) := by
  induction hplay with
  | start => exact ho.starving _
  | move before own step ih =>
    obtain ⟨hc, h⟩ := smooth_of_plays ho hans before
    obtain ⟨hc', h'⟩ := smooth_of_plays ho hans (before.move own step)
    exact ih.step h h' hc hc' ho hplayed hun own step
  | @await ms u _ ih =>
    intro i k c hk
    rw [(await_others u r).1] at hk
    exact ih i k c hk
  | others _ act _ => exact act.elim

/-- The worker of `n` has received every input before `c` and waits on `c`, where nothing is. -/
def StuckOn (v : World) (r : Address) (n : Node) (c : Channel) : Prop :=
  ∃ i k got taken rest, v.workers (i :: r) = some k ∧ k.node = n ∧
    n.inputs = taken ++ c :: rest ∧ k.stage = .gathering got (c :: rest) ∧ got.Holds taken ∧
    (v.conduit c).queue = [] ∧ i :: r ∈ (v.conduit c).waiting

lemma root_settled {o : Address} {i : Nat} {k : Worker} (h : w.Smooth v r p seeds token)
    (hc : v.Course r p) (ho : w.Outset w₁ r p seeds token) (hrest : v.Resting r o)
    (haloof : v.Aloof p o) (hk : v.workers (i :: r) = some k)
    (hout : ∀ a, i :: r <:+ a → a ≠ o) : v.Settled (i :: r) k := by
  obtain ⟨run, -, hplace⟩ := place_of_root hc hk
  exact settled_of_resting h hc ho hrest haloof hplace hk hout

lemma settled_of_still {i : Nat} {k : Worker} (h : w.Smooth v r p seeds token)
    (hc : v.Course r p) (ho : w.Outset w₁ r p seeds token) (hstill : v.Still r)
    (hk : v.workers (i :: r) = some k) : v.Settled (i :: r) k :=
  root_settled h hc ho hstill.resting h.aloof_nil hk fun a ha => by
    rintro rfl
    simp at ha

lemma Ranks.front_of_still (hranks : w.Ranks v r p seeds.keys fired front rear)
    (h : w.Smooth v r p seeds token) (hc : v.Course r p) (ho : w.Outset w₁ r p seeds token)
    (hstill : v.Still r) : ∀ k ∈ front, k.stage = .reported (.ok ()) :=
  hranks.front_succeeds (ho.ready.sound [] p rfl) fun _ hk => by
    obtain ⟨i, hi⟩ := hranks.mem.1 (List.mem_append_left _ hk)
    exact ⟨_, settled_of_still h hc ho hstill hi⟩

/-- An unfired node that still needs its first short input in a standstill waits on that input. -/
lemma stuckOn_of_needs {i : Nat} {k : Worker} (h : w.Smooth v r p seeds token)
    (hc : v.Course r p) (ho : w.Outset w₁ r p seeds token) (hstill : v.Still r)
    (hplayed : p.Played w.queued seeds.keys fired) (hk : v.workers (i :: r) = some k)
    (hfirst : p.FirstShort w.queued seeds.keys fired k.node c) (hneed : c.name ∈ k.needs) :
    v.StuckOn r k.node c := by
  have hsound := ho.ready.sound [] p rfl
  obtain ⟨front, rear, hranks⟩ := h.root_ranks hc hplayed
  have hfront := hranks.front_of_still h hc ho hstill
  rcases settled_of_still h hc ho hstill hk with hrep | ⟨got, d, rest, hstage, hqueue, hwaits⟩
  · rw [Worker.needs_reported hrep] at hneed
    cases hneed
  · have hmem : k ∈ front ++ rear := hranks.mem.2 ⟨i, hk⟩
    have hrear : k ∈ rear := by
      refine (List.mem_append.1 hmem).resolve_left fun hf => ?_
      rw [hfront k hf] at hstage
      cases hstage
    obtain ⟨taken, hins, hholds⟩ := h.gathered (below_cons.2 List.suffix_rfl) hk hstage
    have hshort := hranks.rear_short hsound hfront hrear hstage hqueue
    have hnd := (Node.nodup_of_wiringFault? (hsound.wired _ (hranks.node_mem hmem))).1
    rw [Worker.needs, hstage] at hneed
    obtain rfl := hfirst.eq_of_short hnd hins hshort hneed
    exact ⟨i, k, got, taken, rest, hk, rfl, hins, hstage, hholds, hqueue, hwaits⟩

/-- **Rejections are exact where nothing is shared.** If no channel has two readers and the analysis
rejects the pipeline, then in every standstill of a run of it, reached after boundedly many moves
whatever their order, the nodes that have completed are those that the analysis fired, and the
reported node has received every input before the reported one and waits on that. -/
theorem rejected_run_blocks {name channel : String} (ho : w.Outset w₁ r p seeds token)
    (hun : p.Unshared) (hrejected : p.checkSatisfiable w.queued seeds.keys =
      .error (.unsatisfiableInput name channel))
    (hans : ∀ ns u, w₁.Plays r Alone ns u → u.Answers r) (hplay : w₁.Plays r Alone ms v) :
    ms.length ≤ 2 * p.effort ∧ (v.Still r →
      (∀ i n, p.nodes[i]? = some n → ∃ k, v.workers (i :: r) = some k ∧
        (k.stage = .reported (.ok ()) ↔ n ∉ p.unfired w.queued seeds.keys)) ∧
      ∃ n ∈ p.nodes, ∃ c ∈ n.inputs, n.name = name ∧ c.name = channel ∧ v.StuckOn r n c) := by
  refine ⟨ho.length_le hplay, fun hstill => ?_⟩
  obtain ⟨hc, h⟩ := smooth_of_plays ho hans hplay
  obtain ⟨fired, hplayed⟩ := p.exists_played w.queued seeds.keys
  have hstarve := starving_of_plays ho hans hplayed hun hplay
  obtain ⟨front, rear, hranks⟩ := h.root_ranks hc hplayed
  refine ⟨fun i n hn => ?_, ?_⟩
  · obtain ⟨k, hk, rfl⟩ := hc.worker_of_node hn
    refine ⟨k, hk, fun hrep hleft => ?_, fun hfired => ?_⟩
    · obtain ⟨c, hfirst⟩ := hplayed.short _ hleft
      have hneed := hstarve i k c hk hleft hfirst
      rw [Worker.needs_reported hrep] at hneed
      cases hneed
    · rcases List.mem_append.1 (hranks.mem.2 ⟨i, hk⟩) with hmem | hmem
      · exact hranks.front_of_still h hc ho hstill k hmem
      · exact absurd (hranks.unfired hmem) hfired
  · obtain ⟨n, hleft, c, hname, hchan, hfirst⟩ := hplayed.reported name channel hrejected
    have hn : n ∈ p.nodes := Pipeline.mem_of_unfired hleft
    obtain ⟨i, hi⟩ := List.mem_iff_getElem?.1 hn
    obtain ⟨k, hk, rfl⟩ := hc.worker_of_node hi
    refine ⟨k.node, hn, c, ?_, hname, hchan, ?_⟩
    · obtain ⟨pre, post, hins, -⟩ := hfirst
      simp [hins]
    · exact stuckOn_of_needs h hc ho hstill hplayed hk hfirst (hstarve i k c hk hleft hfirst)

/-- A relay feeds a sink, which then waits for a second value that nobody sends. -/
def stranded : Pipeline where
  id := 0
  name := "stranded"
  options := { validateInputs := false }
  channels := [⟨2, "c", .text⟩, ⟨3, "d", .text⟩, ⟨4, "x", .text⟩]
  nodes := [⟨"s", [], [⟨2, "c", .text⟩], .source (.chatter .producer ["c"])⟩,
    ⟨"a", [⟨2, "c", .text⟩], [⟨3, "d", .text⟩], .transform (.chatter .function ["d"])⟩,
    ⟨"b", [⟨3, "d", .text⟩, ⟨4, "x", .text⟩], [], .sink (.chatter .function [])⟩]

lemma plain_stranded : stranded.Plain where
  names := by decide
  ids := by decide
  labels := by decide
  nodes := by
    simp only [stranded, List.forall_mem_cons]
    exact ⟨⟨rfl, rfl, rfl, Node.chatty rfl (by simp)⟩, ⟨rfl, rfl, rfl, Node.chatty rfl (by simp)⟩,
      ⟨rfl, rfl, rfl, Node.chatty rfl (by simp)⟩, fun _ h => by cases h⟩

/-- The sink is reported, and it is the only one that does not complete. -/
theorem stranded_blocks : ∃ w₁ ms v, initial.start [5] stranded .empty [5] true = .ok w₁ ∧
    w₁.Plays [5] Alone ms v ∧ v.Still [5] ∧ ms.length ≤ 2 * stranded.effort ∧
      (∀ i n, stranded.nodes[i]? = some n → ∃ k, v.workers (i :: [5]) = some k ∧
        (k.stage = .reported (.ok ()) ↔ n ∉ stranded.unfired initial.queued [])) ∧
      ∃ n ∈ stranded.nodes, ∃ c ∈ n.inputs, n.name = "b" ∧ c.name = "x" ∧
        v.StuckOn [5] n c := by
  obtain ⟨w₁, hw⟩ : ∃ w₁, initial.start [5] stranded .empty [5] true = .ok w₁ := ⟨_, rfl⟩
  have ho := plain_stranded.outset rfl hw
  obtain ⟨ms, v, hplay, hstill⟩ := ho.exists_still
  have hun : stranded.Unshared := by simp [Pipeline.Unshared, stranded]
  have hrejected : stranded.checkSatisfiable initial.queued (Payload.keys .empty) =
      .error (.unsatisfiableInput "b" "x") := by
    cbv
  obtain ⟨hshort, hblocks⟩ := rejected_run_blocks ho hun hrejected
    (fun _ _ hplay => ho.answers plain_stranded.obliging hplay) hplay
  exact ⟨w₁, ms, v, hw, hplay, hstill, hshort, hblocks hstill⟩

end World

end Dataflow
