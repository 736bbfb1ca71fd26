import Dataflow.Proofs.Inline

/-!
The books of a level when everybody on it has done its work. They can be filled in in one way only:
along an order in which each node is served, what a node took is settled by what was on its
channels before and by what the nodes before it sent. So the same level, with the same seeds and on
the same channels, closes alike wherever it stands and in whatever run (`Wound.agree`).
-/

namespace Dataflow

/-- What two workers have taken, sent and said to others is the same. -/
structure Diary.Matches (d e : Diary) : Prop where
  taken : d.taken = e.taken
  sent : d.sent = e.sent
  called : d.called = e.called
  entered : d.entered = e.entered

lemma Pipeline.Determined.inner {p inner : Pipeline} {n : Node} {j : Nat} (h : p.Determined)
    (hn : p.nodes[j]? = some n) (hi : n.inner? = some inner) : inner.Determined := by
  have hlevel : ∀ path, p.level? (path ++ [j]) = inner.level? path := by
    intro path
    rw [Pipeline.level?_append_singleton, hn, Option.bind_some, hi, Option.bind_some]
  exact ⟨fun path q hq => h.direct _ q ((hlevel path).trans hq),
    fun path q n logic hq => h.steady _ q n logic ((hlevel path).trans hq)⟩

lemma Worked.of_inner {n : Node} {d : Diary} {result : Payload} {inner : Pipeline}
    (h : Worked n d result) (hi : n.inner? = some inner) :
    ∃ inputs, Gathered n d.taken inputs ∧ d.entered = [inputs] ∧
      (∀ e ∈ d.gained, e.1 ∈ inner.channels) ∧ d.gained.map (fun e => e.1.name) = n.outs ∧
      result.entries = named d.gained := by
  cases h with
  | logic body => simp [Node.inner?_of_logic? body] at hi
  | @inner inner' inputs body gathered called entered channels names entries =>
    obtain rfl := Option.some.inj (hi.symm.trans body)
    exact ⟨inputs, gathered, entered, channels, names, entries⟩

/-- A node that has taken the same twice, and has got the same from inside, has worked the same. -/
lemma Worked.same {n : Node} {d e : Diary} {x y : Payload} (hd : Worked n d x)
    (he : Worked n e y) (hsteady : ∀ logic, n.logic? = some logic → logic.Steady)
    (htaken : d.taken = e.taken)
    (hgained : ∀ inner, n.inner? = some inner → d.entered = e.entered → d.gained = e.gained) :
    x = y ∧ d.called = e.called ∧ d.entered = e.entered := by
  cases hd with
  | @logic logic inputs count body gathered called reply entered =>
    cases he with
    | @logic logic' inputs' count' body' gathered' called' reply' entered' =>
      obtain rfl := Option.some.inj (body.symm.trans body')
      obtain rfl := gathered.inputs_eq (htaken ▸ gathered')
      have hreply := (hsteady logic body count count' inputs').symm.trans reply
      rw [reply'] at hreply
      obtain rfl : y = x := by simpa using hreply
      exact ⟨rfl, called.trans called'.symm, entered.trans entered'.symm⟩
    | inner body' => simp [Node.inner?_of_logic? body] at body'
  | @inner inner inputs body gathered called entered channels names entries =>
    cases he with
    | logic body' => simp [Node.inner?_of_logic? body'] at body
    | @inner inner' inputs' body' gathered' called' entered' channels' names' entries' =>
      obtain rfl := gathered.inputs_eq (htaken ▸ gathered')
      have hsame := entered.trans entered'.symm
      have hgains := hgained inner body hsame
      exact ⟨Payload.ext (entries.trans (hgains ▸ entries'.symm)), called.trans called'.symm, hsame⟩

namespace World

variable {w v u : World} {p p' q : Pipeline} {seeds : Payload} {ds es : List Deed}
  {pages pages' : Nat → Diary} {c : Channel} {j : Nat} {n : Node}

lemma served_of_accepted (hs : q.Sound) (hok : q.checkSatisfiable w.queued seeds.keys = .ok ()) :
    ∃ order, order.Perm q.nodes ∧ Pipeline.Served
      (fun c => (w.conduit c).queue ++ (seeds.get? c.name).toList ≠ []) order := by
  obtain ⟨order, hperm, hserved⟩ := hs.exists_served hok
  refine ⟨order, hperm, hserved.mono fun n _ c _ hhas hnil => ?_⟩
  obtain ⟨hqueue, hseed⟩ := List.append_eq_nil_iff.1 hnil
  rcases hhas with hqueued | hkey
  · rw [queued, hqueue] at hqueued
    exact absurd hqueued (lt_irrefl 0)
  · refine Payload.get?_eq_none.1 ?_ hkey
    simpa using hseed

/-- The books of a level whose nodes have all done their work; `pages j` is what the `j`-th did. -/
structure Closing (w v : World) (q : Pipeline) (seeds : Payload) (ds : List Deed)
    (pages : Nat → Diary) : Prop where
  worked : ∀ j n, q.nodes[j]? = some n →
    ∃ result, Worked n (pages j) result ∧ (pages j).sent = n.restrict result
  flow : ∀ c ∈ q.channels, (w.conduit c).queue ++ (seeds.get? c.name).toList ++ sentTo ds c =
    takenFrom ds c ++ gainedFrom ds c ++ (v.conduit c).queue
  sent : ∀ j n c, q.nodes[j]? = some n → c ∈ n.outputs →
    sentTo ds c = valuesOn (pages j).sent c
  unsent : ∀ c ∈ q.channels, (∀ n ∈ q.nodes, c ∉ n.outputs) → sentTo ds c = []
  taken : ∀ j n c, q.nodes[j]? = some n → c ∈ n.inputs →
    takenFrom ds c = valuesOn (pages j).taken c
  untaken : ∀ c ∈ q.channels, (∀ n ∈ q.nodes, c ∉ n.inputs) → takenFrom ds c = []

namespace Closing

lemma labels (h : w.Closing v q seeds ds pages) (hn : q.nodes[j]? = some n) :
    (pages j).taken.map Prod.fst = n.inputs := by
  obtain ⟨result, hworked, -⟩ := h.worked j n hn
  obtain ⟨inputs, hgathered⟩ := hworked.gathered'
  exact hgathered.channels

/-- A node took one value from each of its inputs, the first that there was. -/
lemma taken_prefix (h : w.Closing v q seeds ds pages) (hs : q.Sound)
    (hn : q.nodes[j]? = some n) (hc : c ∈ n.inputs) :
    (valuesOn (pages j).taken c).length = 1 ∧ valuesOn (pages j).taken c <+:
      (w.conduit c).queue ++ (seeds.get? c.name).toList ++ sentTo ds c := by
  have hmem := List.mem_of_getElem? hn
  refine ⟨?_, ?_⟩
  · rw [length_valuesOn, h.labels hn, List.count_eq_one_of_mem (hs.nodup_inputs hmem) hc]
  · rw [h.flow c (hs.mem_input hmem hc), h.taken j n c hn hc,
      List.append_assoc]
    exact List.prefix_append _ _

lemma sentTo_eq (h : w.Closing v q seeds ds pages) (h' : w.Closing u q seeds es pages')
    (hsent : ∀ j n, q.nodes[j]? = some n → (pages j).sent = (pages' j).sent)
    (hc : c ∈ q.channels) : sentTo ds c = sentTo es c := by
  by_cases hw : ∃ n ∈ q.nodes, c ∈ n.outputs
  · obtain ⟨n, hn, hout⟩ := hw
    obtain ⟨j, hj⟩ := List.mem_iff_getElem?.1 hn
    rw [h.sent j n c hj hout, h'.sent j n c hj hout, hsent j n hj]
  · have hno : ∀ n ∈ q.nodes, c ∉ n.outputs := fun n hn hout => hw ⟨n, hn, hout⟩
    rw [h.unsent c hc hno, h'.unsent c hc hno]

lemma takenFrom_eq (h : w.Closing v q seeds ds pages) (h' : w.Closing u q seeds es pages')
    (htaken : ∀ j n, q.nodes[j]? = some n → (pages j).taken = (pages' j).taken)
    (hc : c ∈ q.channels) : takenFrom ds c = takenFrom es c := by
  by_cases hw : ∃ n ∈ q.nodes, c ∈ n.inputs
  · obtain ⟨n, hn, hin⟩ := hw
    obtain ⟨j, hj⟩ := List.mem_iff_getElem?.1 hn
    rw [h.taken j n c hj hin, h'.taken j n c hj hin, htaken j n hj]
  · have hno : ∀ n ∈ q.nodes, c ∉ n.inputs := fun n hn hin => hw ⟨n, hn, hin⟩
    rw [h.untaken c hc hno, h'.untaken c hc hno]

/-- **The books close in one way.** If each node sends the same whenever it takes the same, and the
nodes can be served one after another, then each has taken the same in both. -/
theorem agree (h : w.Closing v q seeds ds pages) (h' : w.Closing u q seeds es pages')
    (hs : q.Sound) {order : List Node} (hperm : order.Perm q.nodes)
    (hserved : Pipeline.Served
      (fun c => (w.conduit c).queue ++ (seeds.get? c.name).toList ≠ []) order)
    (hdet : ∀ j n, q.nodes[j]? = some n → (pages j).taken = (pages' j).taken →
      (pages j).sent = (pages' j).sent) :
    ∀ j n, q.nodes[j]? = some n → (pages j).taken = (pages' j).taken := by
  have along : ∀ pre post, order = pre ++ post → ∀ n ∈ pre, ∀ j, q.nodes[j]? = some n →
      (pages j).taken = (pages' j).taken := by
    intro pre
    induction pre using List.reverseRecOn with
    | nil => simp
    | append_singleton pre n ih =>
      intro post horder m hm j hj
      have hbefore := ih ([n] ++ post) (by simpa using horder)
      rcases List.mem_append.1 hm with hm | hm
      · exact hbefore m hm j hj
      obtain rfl := List.mem_singleton.1 hm
      refine eq_of_valuesOn_prefix
        (fun c => (w.conduit c).queue ++ (seeds.get? c.name).toList ++ sentTo ds c)
        ((h.labels hj).trans (h'.labels hj).symm) (fun c hc => ?_) (fun c hc => ?_)
      · rw [h.labels hj] at hc
        exact (h.taken_prefix hs hj hc).2
      · rw [h.labels hj] at hc
        obtain ⟨hone, hprefix⟩ := h'.taken_prefix hs hj hc
        rcases hserved pre m post (by simpa using horder) c hc with hbase | ⟨k, hk, hout⟩
        -- the value was there before anybody sent any
        · have hlen := List.length_pos_iff.2 hbase
          exact (List.prefix_of_prefix_length_le hprefix (List.prefix_append _ _)
            (by omega)).trans (List.prefix_append _ _)
        -- the node that writes the channel comes before
        · have hkq : k ∈ q.nodes := hperm.subset (by simp [horder, hk])
          obtain ⟨l, hl⟩ := List.mem_iff_getElem?.1 hkq
          have hsame := hdet l k hl (hbefore k hk l hl)
          rwa [h.sent l k c hl hout, hsame, ← h'.sent l k c hl hout]
  intro j n hn
  exact along order [] (by simp) n (hperm.mem_iff.2 (List.mem_of_getElem? hn)) j hn

/-- **Level by level the books agree.** If whoever started the level inside with the same has got
the same from there, everybody has done the same. -/
theorem alike (h : w.Closing v q seeds ds pages) (h' : w.Closing u q seeds es pages')
    (hs : q.Sound) (hok : q.checkSatisfiable w.queued seeds.keys = .ok ())
    (hsteady : ∀ n logic, n ∈ q.nodes → n.logic? = some logic → logic.Steady)
    (hinside : ∀ j n inner, q.nodes[j]? = some n → n.inner? = some inner →
      (pages j).entered = (pages' j).entered → (pages j).gained = (pages' j).gained) :
    ∀ j n, q.nodes[j]? = some n → (pages j).Matches (pages' j) := by
  have step : ∀ j n, q.nodes[j]? = some n → (pages j).taken = (pages' j).taken →
      (pages j).Matches (pages' j) := by
    intro j n hn htaken
    obtain ⟨x, hx, hsent⟩ := h.worked j n hn
    obtain ⟨y, hy, hsent'⟩ := h'.worked j n hn
    obtain ⟨rfl, hcalled, hentered⟩ := hx.same hy
      (fun logic => hsteady n logic (List.mem_of_getElem? hn)) htaken (hinside j n · hn)
    exact ⟨htaken, hsent.trans hsent'.symm, hcalled, hentered⟩
  obtain ⟨order, hperm, hserved⟩ := served_of_accepted hs hok
  have htaken := h.agree h' hs hperm hserved fun j n hn ht => (step j n hn ht).sent
  exact fun j n hn => step j n hn (htaken j n hn)

end Closing

/-- A run in which everybody on every level has reported success. -/
structure Wound (w v : World) (r : Address) (p : Pipeline) (seeds : Payload) (token : Token)
    (ds : List Deed) : Prop where
  history : w.History v r p seeds token ds
  ready : w.Ready p
  done : ∀ path q i n, p.level? path = some q → q.nodes[i]? = some n →
    ∃ k, v.workers (i :: (path ++ r)) = some k ∧ k.node = n ∧ k.stage = .reported (.ok ())

variable {r path path' : Address} {seeds' : Payload} {token token' : Token} {i i' : Nat}
  {t inner : Pipeline} {n' : Node}

lemma seedsOf_congr (seeds seeds' : Payload) (h : (diary ds (i :: (path ++ r))).entered =
    (diary es (i' :: (path' ++ r))).entered) :
    seedsOf r seeds ds (i :: path) = seedsOf r seeds' es (i' :: path') := by
  rw [seedsOf, seedsOf, h]

namespace Wound

lemma worked (h : w.Wound v r p seeds token ds) (hq : p.level? path = some q)
    (hn : q.nodes[i]? = some n) : ∃ result, Worked n (diary ds (i :: (path ++ r))) result ∧
      (diary ds (i :: (path ++ r))).sent = n.restrict result := by
  obtain ⟨k, hk, rfl, hs⟩ := h.done path q i n hq hn
  have hpage := h.history.page (below_cons.2 (List.suffix_append path r)) hk
  rw [hs] at hpage
  exact hpage.1

/-- The books of a level of the run. -/
lemma closing (h : w.Wound v r p seeds token ds) (hq : p.level? path = some q)
    (hd : q.Direct) : w.Closing v q (seedsOf r seeds ds path) ds
      fun i => diary ds (i :: (path ++ r)) where
  worked _ _ hn := h.worked hq hn
  flow _ hc := h.history.stream_eq hq hc
  sent _ _ _ hn hc := h.history.sentTo_eq h.ready.laid hd hq hn hc
  unsent _ hc hno := h.history.sentTo_of_unwritten h.ready.laid hq hc hno
  taken _ _ _ hn hc := h.history.takenFrom_eq h.ready.laid hd hq hn hc
  untaken _ hc hno := h.history.takenFrom_of_unread h.ready.laid hq hc hno

/-- What a composite has started the level inside with is what it has taken. -/
lemma seedsOf_eq (h : w.Wound v r p seeds token ds) (hq : p.level? path = some q)
    (hn : q.nodes[i]? = some n) (hi : n.inner? = some inner) :
    Gathered n (diary ds (i :: (path ++ r))).taken (seedsOf r seeds ds (i :: path)) := by
  obtain ⟨result, hworked, -⟩ := h.worked hq hn
  obtain ⟨inputs, hgathered, hentered, -⟩ := hworked.of_inner hi
  rw [seedsOf, hentered]
  exact hgathered

lemma unseeded (h : w.Wound v r p seeds token ds) (hq : p.level? path = some q)
    (hn : q.nodes[i]? = some n) (hi : n.inner? = some inner) {x : String} (hx : x ∉ n.ins) :
    (seedsOf r seeds ds (i :: path)).get? x = none := by
  rwa [Payload.get?_eq_none, (h.seedsOf_eq hq hn hi).keys]

/-- Composites around levels with the same books have got the same from inside. -/
lemma gained_eq (h : w.Wound v r p seeds token ds) (h' : w.Wound u r p' seeds' token' es)
    {q' : Pipeline} (hq : p.level? path = some q) (hn : q.nodes[i]? = some n)
    (hq' : p'.level? path' = some q') (hn' : q'.nodes[i']? = some n')
    (hi : n.inner? = some t) (hi' : n'.inner? = some t) (houts : n'.outs = n.outs)
    (hd : t.Direct) (hseeds : seedsOf r seeds ds (i :: path) = seedsOf r seeds' es (i' :: path'))
    (hsent : ∀ j m, t.nodes[j]? = some m →
      (diary ds (j :: i :: (path ++ r))).sent = (diary es (j :: i' :: (path' ++ r))).sent) :
    (diary ds (i :: (path ++ r))).gained = (diary es (i' :: (path' ++ r))).gained := by
  have hlevel := Pipeline.level?_cons hq hn hi
  have hlevel' := Pipeline.level?_cons hq' hn' hi'
  have hsound := h.ready.sound _ _ hlevel
  have books := h.closing hlevel hd
  have books' := h'.closing hlevel' hd
  rw [← hseeds] at books'
  obtain ⟨x, hworked, -⟩ := h.worked hq hn
  obtain ⟨y, hworked', -⟩ := h'.worked hq' hn'
  obtain ⟨-, -, -, channels, names, -⟩ := hworked.of_inner hi
  obtain ⟨-, -, -, channels', names', -⟩ := hworked'.of_inner hi'
  -- what the composite collects, nobody inside reads
  have hunread : ∀ c ∈ t.channels, c.name ∈ n.outs → ∀ m ∈ t.nodes, c ∉ m.inputs := by
    intro c hc hout m hm hin
    exact ((Pipeline.border_of_ready h.ready hq (List.mem_of_getElem? hn) hi).outputs _ hout).2
      (Pipeline.name_mem_reads hm hin)
  have hmem : ∀ c ∈ (diary ds (i :: (path ++ r))).gained.map Prod.fst,
      c ∈ t.channels ∧ c.name ∈ n.outs := by
    intro c hc
    obtain ⟨e, he, rfl⟩ := List.mem_map.1 hc
    exact ⟨channels e he, names ▸ List.mem_map.2 ⟨e, he, rfl⟩⟩
  refine eq_of_valuesOn_prefix (fun c => (w.conduit c).queue ++
    ((seedsOf r seeds ds (i :: path)).get? c.name).toList ++ sentTo ds c) ?_ ?_ ?_
  · refine hsound.eq_of_names (by simpa using channels) (by simpa using channels') ?_
    rw [List.map_map, List.map_map]
    exact names.trans (houts.symm.trans names'.symm)
  · intro c hc
    obtain ⟨hch, hout⟩ := hmem c hc
    rw [books.flow c hch, books.untaken c hch (hunread c hch hout), List.nil_append,
      h.history.gainedFrom_eq h.ready.laid hlevel hch]
    exact List.prefix_append _ _
  · intro c hc
    obtain ⟨hch, hout⟩ := hmem c hc
    rw [books.sentTo_eq books' hsent hch, books'.flow c hch,
      books'.untaken c hch (hunread c hch hout), List.nil_append,
      h'.history.gainedFrom_eq h'.ready.laid hlevel' hch]
    exact List.prefix_append _ _

/-- A level below is accepted with what its composite has taken. -/
lemma accepted (h : w.Wound v r p seeds token ds) (hq : p.level? path = some q)
    (hn : q.nodes[i]? = some n) (hi : n.inner? = some inner) :
    inner.checkSatisfiable w.queued (seedsOf r seeds ds (i :: path)).keys = .ok () := by
  rw [(h.seedsOf_eq hq hn hi).keys]
  exact (h.ready.fits hq (List.mem_of_getElem? hn) hi).2.accepted

end Wound

/-- What `t` did at `b` in the one run it did at `b'` in the other: each of its nodes has sent the
same, and on every level the logic was called with the same. -/
structure Alike (ds es : List Deed) (t : Pipeline) (b b' : Address) : Prop where
  sent : ∀ j n, t.nodes[j]? = some n → (diary ds (j :: b)).sent = (diary es (j :: b')).sent
  called : ∀ s q j n logic, t.level? s = some q → q.nodes[j]? = some n → n.logic? = some logic →
    (diary ds (j :: (s ++ b))).called = (diary es (j :: (s ++ b'))).called

/-- **The same level closes alike**, wherever it stands in two runs, if it is started with the same
seeds. -/
theorem Wound.agree (h : w.Wound v r p seeds token ds) (h' : w.Wound u r p' seeds' token' es)
    (t : Pipeline) : ∀ path path', t.Determined → p.level? path = some t →
      p'.level? path' = some t → seedsOf r seeds ds path = seedsOf r seeds' es path' →
      t.checkSatisfiable w.queued (seedsOf r seeds ds path).keys = .ok () →
      Alike ds es t (path ++ r) (path' ++ r) := by
  induction t using Pipeline.nest_induction with
  | step t ih =>
    intro path path' hdet hq hq' hseeds hok
    have hdirect := hdet.direct [] t rfl
    have books := h.closing hq hdirect
    have books' := h'.closing hq' hdirect
    rw [← hseeds] at books'
    -- a level below closes alike, if its composite has started it with the same in both
    have inside : ∀ j n inner, t.nodes[j]? = some n → n.inner? = some inner →
        (diary ds (j :: (path ++ r))).entered = (diary es (j :: (path' ++ r))).entered →
        (diary ds (j :: (path ++ r))).gained = (diary es (j :: (path' ++ r))).gained ∧
          Alike ds es inner (j :: (path ++ r)) (j :: (path' ++ r)) := by
      intro j n inner hn hi hentered
      have hsame := seedsOf_congr seeds seeds' hentered
      have hdet' := hdet.inner hn hi
      have halike := ih n (List.mem_of_getElem? hn) inner hi (j :: path) (j :: path') hdet'
        (Pipeline.level?_cons hq hn hi) (Pipeline.level?_cons hq' hn hi) hsame
        (h.accepted hq hn hi)
      exact ⟨h.gained_eq h' hq hn hq' hn hi hi rfl (hdet'.direct [] inner rfl) hsame halike.sent,
        halike⟩
    have pages := books.alike books' (h.ready.sound _ _ hq) hok
      (fun n logic hn => hdet.steady [] t n logic rfl hn)
      fun j n inner hn hi hentered => (inside j n inner hn hi hentered).1
    refine ⟨fun j n hn => (pages j n hn).sent, ?_⟩
    intro s
    cases s using List.reverseRecOn with
    | nil =>
      intro q j n logic hs hn hlogic
      obtain rfl := Option.some.inj hs
      exact (pages j n hn).called
    | append_singleton s i =>
      intro q j n logic hs hn hlogic
      rw [Pipeline.level?_append_singleton] at hs
      obtain ⟨inner, hi, hs⟩ := Option.bind_eq_some_iff.1 hs
      obtain ⟨m, hm, hi⟩ := Option.bind_eq_some_iff.1 hi
      have halike := (inside i m inner hm hi (pages i m hm).entered).2
      simpa using halike.called s q j n logic hs hn hlogic

end World

end Dataflow
