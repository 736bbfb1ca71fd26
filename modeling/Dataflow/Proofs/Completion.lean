import Dataflow.Proofs.Settling
import Dataflow.Proofs.Workshop
import Mathlib.Data.List.Permutation

/-!
Accepted pipelines complete. The analysis fires whole nodes, while workers take one input at a
time and race for shared channels; what links the two is the books of a level. The first worker
in the order of firing that has not ended would wait on a channel that holds nothing, and yet the
nodes before it have published enough for every reader there is.
-/

namespace Dataflow

namespace Worker

variable {k : Worker} {crew : List Worker}

lemma owes_reported {result : Except ExecutionError Unit} (h : k.stage = .reported result) :
    k.owes = [] := by rw [owes, h]

lemma needs_reported {result : Except ExecutionError Unit} (h : k.stage = .reported result) :
    k.needs = [] := by rw [needs, h]

/-- A worker owes no more than its node declares. -/
lemma Upright.owes_le (h : k.Upright) (x : String) : k.owes.count x ≤ k.node.outs.count x :=
  h.owes_suffix.sublist.count_le x

lemma Upright.needs_le (h : k.Upright) (x : String) : k.needs.count x ≤ k.node.ins.count x :=
  h.needs_suffix.sublist.count_le x

lemma count_owes_le (h : ∀ k ∈ crew, k.Upright) (x : String) :
    (crew.flatMap owes).count x ≤ (Pipeline.writes (crew.map node)).count x := by
  induction crew with
  | nil => simp
  | cons k rest ih =>
    have hrest := ih fun k' hk' => h k' (List.mem_cons_of_mem _ hk')
    have hk := (h k List.mem_cons_self).owes_le x
    rw [List.flatMap_cons, List.map_cons, Pipeline.writes_cons, List.count_append,
      List.count_append]
    omega

lemma count_needs_le (h : ∀ k ∈ crew, k.Upright) (x : String) :
    (crew.flatMap needs).count x ≤ (Pipeline.reads (crew.map node)).count x := by
  induction crew with
  | nil => simp
  | cons k rest ih =>
    have hrest := ih fun k' hk' => h k' (List.mem_cons_of_mem _ hk')
    have hk := (h k List.mem_cons_self).needs_le x
    rw [List.flatMap_cons, List.map_cons, Pipeline.reads_cons, List.count_append,
      List.count_append]
    omega

lemma flatMap_eq_nil_of_reported {f : Worker → List String}
    (hf : ∀ {k : Worker} {result}, k.stage = .reported result → f k = [])
    (h : ∀ k ∈ crew, k.stage = .reported (.ok ())) : crew.flatMap f = [] :=
  List.flatMap_eq_nil_iff.2 fun k hk => hf (h k hk)

end Worker

namespace World

variable {w w₁ v : World} {r b o : Address} {p q : Pipeline} {seeds : Payload} {token : Token}
  {path : Address} {crew : List Worker} {run : Run} {i : Nat} {k : Worker} {seeded : List String}
  {fired : List Node} {front rear : List Worker}

/-! ### Workers in the order of firing -/

/-- The workers of a level: in front those whose nodes fire, in this order, then the others. -/
structure Ranks (w v : World) (b : Address) (q : Pipeline) (seeded : List String)
    (fired : List Node) (front rear : List Worker) : Prop where
  played : q.Played w.queued seeded fired
  fires : front.map Worker.node = fired
  left : rear.map Worker.node = q.unfired w.queued seeded
  crew : ∃ crew, v.Crew b crew ∧ (front ++ rear).Perm crew
  upright : ∀ k ∈ front ++ rear, k.Upright
  balanced : w.Balanced v q seeded (front ++ rear)

lemma Crew.ranks (hcrew : v.Crew b crew) (hnodes : crew.map Worker.node = q.nodes)
    (hup : ∀ k ∈ crew, k.Upright) (hbal : w.Balanced v q seeded crew)
    (hplayed : q.Played w.queued seeded fired) :
    ∃ front rear, w.Ranks v b q seeded fired front rear := by
  have hmap : (fired ++ q.unfired w.queued seeded).Perm (crew.map Worker.node) :=
    hnodes ▸ hplayed.perm
  have hcomp := congrFun (congrFun (List.eq_map_comp_perm Worker.node)
    (fired ++ q.unfired w.queued seeded)) crew
  obtain ⟨l, hl, hperm⟩ := hcomp.mpr hmap
  obtain ⟨front, rear, rfl, hfront, hrear⟩ := List.append_eq_map_iff.1 hl
  exact ⟨front, rear, hplayed, hfront, hrear, ⟨crew, hcrew, hperm⟩,
    fun k hk => hup k (hperm.subset hk), hbal.perm hperm⟩

/-- The workers of an open level, in the order of firing. -/
lemma Smooth.ranks (h : w.Smooth v r p seeds token) (hc : v.Course r p)
    (hrun : v.runs (path ++ r) = some run) (hopen : v.Open r path)
    (hplayed : run.pipeline.Played w.queued (p.seededAt seeds path) fired) :
    ∃ front rear, w.Ranks v (path ++ r) run.pipeline (p.seededAt seeds path) fired front rear := by
  have hb : r <:+ path ++ r := List.suffix_append path r
  obtain ⟨crew, hcrew, hbal⟩ := h.balanced path _ (hc.tree.level hrun) hopen
  refine hcrew.ranks (hcrew.map_node hc.tree hb hrun) (fun k hk => ?_) hbal hplayed
  obtain ⟨i, hi⟩ := hcrew.mem.1 hk
  exact h.upright _ k (below_cons.2 hb) hi

namespace Ranks

variable (h : w.Ranks v b q seeded fired front rear)

include h

lemma mem : k ∈ front ++ rear ↔ ∃ i, v.workers (i :: b) = some k := by
  obtain ⟨crew, hcrew, hperm⟩ := h.crew
  exact hperm.mem_iff.trans hcrew.mem

lemma node_mem (hk : k ∈ front ++ rear) : k.node ∈ q.nodes := by
  apply h.played.perm.subset
  rw [← h.fires, ← h.left, ← List.map_append]
  exact List.mem_map_of_mem hk

lemma unfired (hk : k ∈ rear) : k.node ∈ q.unfired w.queued seeded := by
  rw [← h.left]
  exact List.mem_map_of_mem hk

lemma writes_eq (x : String) : (Pipeline.writes q.nodes).count x =
    (Pipeline.writes fired).count x + (Pipeline.writes (rear.map Worker.node)).count x := by
  rw [← Pipeline.count_writes_perm h.played.perm x, h.left, Pipeline.writes_append,
    List.count_append]

lemma input (hs : q.Sound) {c : Channel} (hk : k ∈ front ++ rear) (hc : c ∈ k.node.inputs) :
    c ∈ q.channels :=
  hs.mem_input (h.node_mem hk) hc

lemma gathering_input {got : Payload} {c : Channel} {rest : List Channel}
    (hk : k ∈ front ++ rear) (hs : k.stage = .gathering got (c :: rest)) : c ∈ k.node.inputs := by
  have hup := h.upright k hk
  rw [Worker.Upright, hs] at hup
  obtain ⟨taken, hins, -⟩ := hup
  simp [hins]

/-- Where some first workers have all succeeded and another waits on an empty channel, that
channel is short even with what their nodes publish. -/
lemma short_of_waiting (hs : q.Sound) {pre post : List Worker} {m : Worker} {c : Channel}
    {got : Payload} {rest : List Channel} (hperm : (pre ++ m :: post).Perm (front ++ rear))
    (hpre : ∀ k ∈ pre, k.stage = .reported (.ok ()))
    (hm : m.stage = .gathering got (c :: rest)) (hempty : (v.conduit c).queue = []) :
    q.Short w.queued seeded (pre.map Worker.node) c.name := by
  have hmem : m ∈ front ++ rear := hperm.subset (by simp)
  have hbooks := h.balanced.perm hperm c (h.input hs hmem (h.gathering_input hmem hm))
  have hlater : ((m :: post).flatMap Worker.owes).count c.name ≤
      (Pipeline.writes ((m :: post).map Worker.node)).count c.name :=
    Worker.count_owes_le (fun k hk => h.upright k (hperm.subset (List.mem_append_right _ hk))) _
  have hwrites : (Pipeline.writes q.nodes).count c.name =
      (Pipeline.writes (pre.map Worker.node)).count c.name +
        (Pipeline.writes ((m :: post).map Worker.node)).count c.name :=
    calc (Pipeline.writes q.nodes).count c.name
      _ = (Pipeline.writes ((front ++ rear).map Worker.node)).count c.name := by
          rw [h.writes_eq, ← h.fires, List.map_append, Pipeline.writes_append, List.count_append]
      _ = (Pipeline.writes ((pre ++ m :: post).map Worker.node)).count c.name :=
          (Pipeline.count_writes_perm (hperm.map Worker.node) c.name).symm
      _ = _ := by rw [List.map_append, Pipeline.writes_append, List.count_append]
  have hneeds : 0 < ((pre ++ m :: post).flatMap Worker.needs).count c.name := by
    refine List.count_pos_iff.2 (List.mem_flatMap.2 ⟨m, by simp, ?_⟩)
    rw [Worker.needs, hm]
    exact List.mem_cons_self
  rw [hempty, List.length_nil, List.flatMap_append,
    Worker.flatMap_eq_nil_of_reported Worker.owes_reported hpre, List.nil_append] at hbooks
  unfold Pipeline.Short
  omega

/-- The workers in front succeed, if they can only be held up by an empty channel: the first of
them that had not succeeded would wait on a channel that was covered for it. -/
lemma front_succeeds (hs : q.Sound) (hsettled : ∀ k ∈ front, ∃ a, v.Settled a k) :
    ∀ k ∈ front, k.stage = .reported (.ok ()) := by
  by_contra hsome
  push Not at hsome
  obtain ⟨pre, m, post, rfl, hm, hpre⟩ := exists_first hsome
  have hmem : m ∈ pre ++ m :: post := by simp
  obtain ⟨a, hrep | ⟨got, c, rest, hstage, hempty, -⟩⟩ := hsettled m hmem
  · exact hm hrep
  · have hperm : (pre ++ m :: (post ++ rear)).Perm (pre ++ m :: post ++ rear) := by simp
    have hshort := h.short_of_waiting hs hperm (fun k hk => not_not.1 (hpre k hk)) hstage hempty
    refine h.played.feasible (pre.map Worker.node) m.node (post.map Worker.node) ?_ c
      (h.gathering_input (List.mem_append_left _ hmem) hstage) hshort
    rw [← h.fires]
    simp

/-- Once those in front have succeeded, whoever of the others waits, waits on a short channel. -/
lemma rear_short (hs : q.Sound) (hfront : ∀ k ∈ front, k.stage = .reported (.ok ()))
    {m : Worker} {c : Channel} {got : Payload} {rest : List Channel} (hm : m ∈ rear)
    (hstage : m.stage = .gathering got (c :: rest)) (hempty : (v.conduit c).queue = []) :
    q.Short w.queued seeded fired c.name := by
  obtain ⟨pre, post, rfl⟩ := List.append_of_mem hm
  have hperm : (front ++ m :: (pre ++ post)).Perm (front ++ (pre ++ m :: post)) :=
    List.perm_middle.symm.append_left front
  rw [← h.fires]
  exact h.short_of_waiting hs hperm hfront hstage hempty

end Ranks

/-! ### Levels that complete -/

/-- A worker without a step is settled, if the run inside it comes to its end. -/
lemma settled_of_inner (h : w.Smooth v r p seeds token) (hc : v.Course r p)
    (ho : w.Outset w₁ r p seeds token) (hrest : v.Resting r o) (haloof : v.Aloof p o)
    (hp : v.Place r p i path k run) (hk : v.workers (i :: (path ++ r)) = some k)
    (hne : i :: (path ++ r) ≠ o)
    (hin : ∀ inner below, k.stage = .inside inner → v.runs (i :: (path ++ r)) = some below →
      Nested k.node k.token below →
      ∀ j k', v.workers (j :: i :: (path ++ r)) = some k' → k'.stage = .reported (.ok ())) :
    v.Settled (i :: (path ++ r)) k := by
  rcases h.worker_of_resting hc ho hrest haloof hp.below hne hk with
    hset | ⟨inner, below, hs, hbelow, hn, hnot⟩
  · exact hset
  · rcases receiver_of_resting hc.tree hrest hp.below.suffix hbelow hn.attended with
      hover | ⟨-, j, k', hk', hunrep⟩
    · exact absurd hover hnot
    · exact absurd (hin inner below hs hbelow hn j k' hk') (hunrep _)

lemma place_of_run (hc : v.Course r p) (hrun : v.runs (path ++ r) = some run)
    (hk : v.workers (i :: (path ++ r)) = some k) : v.Place r p i path k run := by
  obtain ⟨run', hrun', hpost⟩ := hc.tree.posted _ i k (List.suffix_append path r) hk
  obtain rfl := Option.some.inj (hrun.symm.trans hrun')
  exact ⟨hrun, hpost, hc.tree.level hrun⟩

lemma place_of_root (hc : v.Course r p) (hk : v.workers (i :: r) = some k) :
    ∃ run, run.pipeline = p ∧ v.Place r p i [] k run := by
  obtain ⟨run, hrun, hp⟩ := hc.tree.root
  have hrun' : v.runs ([] ++ r) = some run := hrun
  exact ⟨run, hp, place_of_run hc hrun' hk⟩

/-- An open level all of whose nodes fire has only workers that have succeeded, once nobody has a
step left but perhaps a worker elsewhere. -/
lemma level_completes (h : w.Smooth v r p seeds token) (hc : v.Course r p)
    (ho : w.Outset w₁ r p seeds token) (hrest : v.Resting r o) (haloof : v.Aloof p o)
    (q : Pipeline) : ∀ path run, v.runs (path ++ r) = some run → run.pipeline = q →
      v.Open r path → q.unfired w.queued (p.seededAt seeds path) = [] →
      (∀ a, Below (path ++ r) a → a ≠ o) →
      ∀ i k, v.workers (i :: (path ++ r)) = some k → k.stage = .reported (.ok ()) := by
  induction q using Pipeline.nest_induction with
  | step q ih =>
  rintro path run hrun rfl hopen haccepted hout
  obtain ⟨fired, hplayed⟩ := run.pipeline.exists_played w.queued (p.seededAt seeds path)
  obtain ⟨front, rear, hranks⟩ := h.ranks hc hrun hopen hplayed
  obtain rfl : rear = [] := List.map_eq_nil_iff.1 (hranks.left.trans haccepted)
  have hsettled : ∀ k ∈ front, ∃ a, v.Settled a k := by
    intro k hk
    obtain ⟨i, hi⟩ := hranks.mem.1 (List.mem_append_left _ hk)
    have hp := place_of_run hc hrun hi
    refine ⟨_, settled_of_inner h hc ho hrest haloof hp hi (hout _ List.suffix_rfl) ?_⟩
    intro inner below hs hbelow hn
    have hfits := (ho.ready.fits hp.level hp.mem hn.inner).2
    refine ih k.node hp.mem _ hn.inner (i :: path) below hbelow rfl (.inr ⟨k, inner, hi, hs⟩) ?_
      fun a ha => hout a ?_
    · rw [hp.seededAt]
      exact Pipeline.checkSatisfiable_eq_ok.1 hfits.accepted
    · cases a with
      | nil => exact ha.elim
      | cons j a => exact (List.suffix_cons i _).trans (below_cons.1 ha)
  have hall := hranks.front_succeeds (ho.ready.sound _ _ (hc.tree.level hrun)) hsettled
  intro i k hk
  exact hall k (by simpa using hranks.mem.2 ⟨i, hk⟩)

/-- A worker without a step is settled, since the run inside it completes. -/
lemma settled_of_resting (h : w.Smooth v r p seeds token) (hc : v.Course r p)
    (ho : w.Outset w₁ r p seeds token) (hrest : v.Resting r o) (haloof : v.Aloof p o)
    (hp : v.Place r p i path k run) (hk : v.workers (i :: (path ++ r)) = some k)
    (hout : ∀ a, i :: (path ++ r) <:+ a → a ≠ o) : v.Settled (i :: (path ++ r)) k := by
  refine settled_of_inner h hc ho hrest haloof hp hk (hout _ List.suffix_rfl) ?_
  intro inner below hs hbelow hn
  have hfits := (ho.ready.fits hp.level hp.mem hn.inner).2
  refine level_completes h hc ho hrest haloof _ (i :: path) below hbelow rfl
    (.inr ⟨k, inner, hk, hs⟩) ?_ fun a ha => hout a ha.suffix
  rw [hp.seededAt]
  exact Pipeline.checkSatisfiable_eq_ok.1 hfits.accepted

/-- The level `q` was run at `b`, and each of its workers succeeded; if anybody waits for it, the
wait has returned with a report. -/
structure Succeeded (v : World) (b : Address) (q : Pipeline) : Prop where
  run : ∃ run, v.runs b = some run ∧ run.pipeline = q ∧
    (run.Attended → ∃ report, run.collector = .returned (.ok report))
  workers : ∀ i n, q.nodes[i]? = some n → ∃ k, v.workers (i :: b) = some k ∧ k.node = n ∧
    k.stage = .reported (.ok ())

/-- A run whose workers have all succeeded has succeeded once it is at a standstill. -/
lemma succeeded_of_reported (h : w.Smooth v r p seeds token) (hc : v.Course r p)
    (hstill : v.Still r) (hrun : v.runs (path ++ r) = some run)
    (hall : ∀ i k, v.workers (i :: (path ++ r)) = some k → k.stage = .reported (.ok ())) :
    v.Succeeded (path ++ r) run.pipeline := by
  have hb : r <:+ path ++ r := List.suffix_append path r
  refine ⟨⟨run, hrun, rfl, fun hatt => ?_⟩, fun i n hn => ?_⟩
  · rcases receiver_of_resting hc.tree hstill.resting hb hrun hatt with
      ⟨result, hres⟩ | ⟨-, i, k, hk, hne⟩
    · cases result with
      | error e => exact absurd (.inr ⟨e, hres⟩) (h.clean _ run hb hrun).unfailed
      | ok report => exact ⟨report, hres⟩
    · exact absurd (hall i k hk) (hne _)
  · obtain ⟨k, hk⟩ := hc.tree.manned _ i run n hb hrun hn
    obtain ⟨run', hrun', hpost⟩ := hc.tree.posted _ i k hb hk
    obtain rfl := Option.some.inj (hrun.symm.trans hrun')
    exact ⟨k, hk, Option.some.inj (hpost.node.symm.trans hn), hall i k hk⟩

/-- If the whole run has succeeded, so has every level inside. -/
lemma levels_succeeded (h : w.Smooth v r p seeds token) (hc : v.Course r p) (hstill : v.Still r)
    (hroot : v.Succeeded r p) (hq : p.level? path = some q) : v.Succeeded (path ++ r) q := by
  induction path generalizing q with
  | nil =>
    obtain rfl := Option.some.inj hq
    exact hroot
  | cons i path ih =>
    obtain ⟨q', n, hq', hn, hi⟩ := Pipeline.level?_cons_inv hq
    obtain ⟨k, hk, rfl, hs⟩ := (ih hq').workers i n hn
    have ha : Below r (i :: (path ++ r)) := List.suffix_append path r
    obtain ⟨below, hbelow⟩ := Option.ne_none_iff_exists'.1
      (h.entered _ k q ha hk hi (by rw [hs]; trivial))
    have habove := hc.tree.above _ k ha hk
    rw [Worker.Above, hs] at habove
    obtain ⟨hn', hover⟩ := habove below hbelow
    obtain rfl : q = below.pipeline := Option.some.inj (hi.symm.trans hn'.inner)
    refine succeeded_of_reported h hc hstill hbelow fun j k' hk' => ?_
    obtain ⟨result, hs'⟩ := ((hc.hearing _ below ha.suffix hbelow).closed hover).2 j k' hk'
    have hup := h.upright _ k' (below_cons.2 ha.suffix) hk'
    rw [Worker.Upright, hs'] at hup
    exact hup ▸ hs'

/-- **Accepted pipelines do not deadlock.** A pipeline that was accepted with its seeds, with
composites to any depth, comes to a standstill after boundedly many moves whatever their order;
and in every standstill every worker on every level has succeeded, and so has every wait. -/
theorem accepted_run_completes {ms : List Move} (ho : w.Outset w₁ r p seeds token)
    (hvalidate : p.options.validateInputs = true)
    (hans : ∀ ns u, w₁.Plays r Alone ns u → u.Answers r) (hplay : w₁.Plays r Alone ms v) :
    ms.length ≤ 2 * p.effort ∧
      (v.Still r → ∀ path q, p.level? path = some q → v.Succeeded (path ++ r) q) := by
  refine ⟨ho.length_le hplay, fun hstill path q hq => ?_⟩
  obtain ⟨hc, h⟩ := smooth_of_plays ho hans hplay
  obtain ⟨run, hrun, hp⟩ := hc.tree.root
  obtain ⟨-, hvalid, -⟩ := start_eq_ok ho.start
  have haccepted := Pipeline.checkSatisfiable_eq_ok.1 ((validate_eq_ok.1 hvalid).2 hvalidate)
  have hall := level_completes h hc ho hstill.resting h.aloof_nil p [] run hrun hp (.inl rfl)
    haccepted fun a ha => ha.ne_nil
  have hroot : v.Succeeded ([] ++ r) run.pipeline :=
    succeeded_of_reported h hc hstill hrun hall
  exact levels_succeeded h hc hstill (hp ▸ hroot) hq

/-- A relay from `a` to `b`. -/
def relay : Pipeline where
  id := 1
  name := "relay"
  options := {}
  channels := [⟨4, "a", .text⟩, ⟨5, "b", .text⟩]
  nodes := [⟨"t", [⟨4, "a", .text⟩], [⟨5, "b", .text⟩], .transform (.chatter .function ["b"])⟩]

/-- A source, the relay as a composite, and a sink. -/
def line : Pipeline where
  id := 0
  name := "line"
  options := {}
  channels := [⟨2, "a", .text⟩, ⟨3, "b", .text⟩]
  nodes := [⟨"s", [], [⟨2, "a", .text⟩], .source (.chatter .producer ["a"])⟩,
    ⟨"t", [⟨2, "a", .text⟩], [⟨3, "b", .text⟩], .composite relay⟩,
    ⟨"z", [⟨3, "b", .text⟩], [], .sink (.chatter .function [])⟩]

lemma level?_line (h : line.level? path = some q) : q = line ∨ q = relay := by
  have hmem := List.mem_map_of_mem (f := Prod.snd) (Pipeline.mem_tiers.2 h)
  have htiers : line.tiers.map Prod.snd = [line, relay] := rfl
  rw [htiers] at hmem
  simpa using hmem

lemma obliging_line : line.Obliging := by
  refine Pipeline.obliging_of_chatty fun path q hq => ?_
  rcases level?_line hq with rfl | rfl
  · simp only [line, List.forall_mem_cons]
    exact ⟨fun _ h => ⟨⟨_, (Option.some.inj h).symm⟩, by simp⟩, fun _ h => (by cases h),
      fun _ h => ⟨⟨_, (Option.some.inj h).symm⟩, by simp⟩, fun _ h => (by cases h)⟩
  · simp only [relay, List.forall_mem_cons]
    exact ⟨fun _ h => ⟨⟨_, (Option.some.inj h).symm⟩, by simp⟩, fun _ h => (by cases h)⟩

/-- The line can be built step by step. -/
lemma workshop_line : Workshop { initial with fresh := 6 } [line] := by
  have both := ((Workshop.empty.pipeline "line" {}).pipeline "relay" {}).sort (.swap _ _ _)
  have outer := (both.declare (rfl : World.declare _ _ "a" .text = .ok _)).declare
    (rfl : World.declare _ _ "b" .text = .ok _)
  have inner := ((outer.sort (.swap _ _ _)).declare (rfl : World.declare _ _ "a" .text = .ok _)
    ).declare (rfl : World.declare _ _ "b" .text = .ok _)
  have filled := inner.node (rfl : Node.ofLogic .transform "t" [⟨4, "a", .text⟩]
    [⟨5, "b", .text⟩] (.chatter .function ["b"]) = .ok _) rfl
  have fed : Workshop { initial with fresh := 6 }
      [relay, { line with nodes := line.nodes.take 1 }] :=
    ((filled.sort (.swap _ _ _)).node (rfl : Node.ofLogic .source "s" []
      [⟨2, "a", .text⟩] (.chatter .producer ["a"]) = .ok _) rfl).sort (.swap _ _ _)
  have wrapped : ({ initial with fresh := 6 } : World).composite "t" [⟨2, "a", .text⟩]
      [⟨3, "b", .text⟩] relay =
        .ok ⟨"t", [⟨2, "a", .text⟩], [⟨3, "b", .text⟩], .composite relay⟩ := by
    cbv
  exact (fed.composite wrapped rfl).node (rfl : Node.ofLogic .sink "z" [⟨3, "b", .text⟩] []
    (.chatter .function []) = .ok _) rfl

/-- The line is accepted, and it can be played to a standstill, in which everybody has succeeded. -/
theorem line_completes : ∃ w₁ ms v, ({ initial with fresh := 6 } : World).start [6] line .empty [6]
      true = .ok w₁ ∧ w₁.Plays [6] Alone ms v ∧ v.Still [6] ∧ ms.length ≤ 2 * line.effort ∧
        ∀ path q, line.level? path = some q → v.Succeeded (path ++ [6]) q := by
  have hvalid : ({ initial with fresh := 6 } : World).validate line .empty = .ok () :=
    validate_eq_ok.2 ⟨rfl, fun _ => by cbv⟩
  obtain ⟨w₁, hw⟩ := exists_start [6] [6] rfl hvalid
  have ho := outset_of_workshop workshop_line List.mem_cons_self hw fun path q hq => by
    rcases level?_line hq with rfl | rfl <;> rfl
  obtain ⟨ms, v, hplay, hstill⟩ := ho.exists_still
  obtain ⟨hshort, hcompletes⟩ := accepted_run_completes ho rfl
    (fun _ _ hplay => ho.answers obliging_line hplay) hplay
  exact ⟨w₁, ms, v, hw, hplay, hstill, hshort, hcompletes hstill⟩

end World

end Dataflow
