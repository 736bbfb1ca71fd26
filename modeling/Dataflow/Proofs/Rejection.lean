import Dataflow.Proofs.Diagnosis

/-!
Why a pipeline is rejected. A schedule may let everybody else go first, and then it only depends
on the reported channel: if that is empty, the reported node waits there in the end, whatever is
played; and if not, it never does. A value is left over for two reasons only, and two pipelines show
that both occur: each of them is rejected, and yet the reported node never waits in vain.
-/

namespace Dataflow

namespace World

variable {w w₁ v v' u u' : World} {r o : Address} {p : Pipeline} {seeds : Payload} {token : Token}
  {fired : List Node} {front rear : List Worker} {c : Channel} {ms : List Move} {n : Node}
  {i : Nat} {k k' : Worker}

/-! ### Schedules -/

/-- The worker at an address has done nothing yet. -/
structure Untouched (w₁ u : World) (o : Address) : Prop where
  worker : u.workers o = w₁.workers o
  line : ∀ x, o ∉ (u.conduits x).line

/-- What others do leaves it alone. -/
lemma Untouched.step (h : w₁.Untouched u o) (hc : u.Course r p) (hk : w₁.workers o = some k)
    {m : Move} (hm : m.Of r) (hwork : m ≠ .work o) (hexpire : m ≠ .expire o)
    (hs : u.step? m = some u') : w₁.Untouched u' o := by
  rcases step_cases hm hs with ⟨a, k', expired, hmove, ha, hk', hst⟩ | ⟨b, _, _, -, -, ht, -⟩
  · have hoa : o ≠ a := by
      rintro rfl
      rcases hmove with rfl | rfl
      · exact hwork rfl
      · exact hexpire rfl
    refine ⟨?_, fun x => (hc.lines.line_of_ne hst hoa x).not.2 (h.line x)⟩
    rcases hc.tree.worker_of_ne ha hk' hst hoa with hw | ⟨hn, -⟩
    · exact hw.trans h.worker
    · rw [h.worker, hk] at hn
      cases hn
  · exact ⟨ht.workers ▸ h.worker, fun x => ht.conduits ▸ h.line x⟩

/-- Everybody but the worker of `n` has gone as far as they can, and that has not begun. -/
def HeldBack (w₁ u : World) (r : Address) (p : Pipeline) (n : Node) : Prop :=
  ∃ i, p.nodes[i]? = some n ∧ w₁.Untouched u (i :: r) ∧ u.Resting r (i :: r)

/-- Another node that was left unfired reads `c` as well, but waits on an input before that. -/
def HeldUp (v : World) (r : Address) (left : List Node) (n : Node) (c : Channel) : Prop :=
  ∃ m ∈ left, m ≠ n ∧ ∃ pre d post, m.inputs = pre ++ d :: post ∧ c ∈ post ∧ v.StuckOn r m d

/-- A node that was left unfired, and that publishes on `c`, has run to its end. -/
def Supplied (v : World) (r : Address) (left : List Node) (c : Channel) : Prop :=
  ∃ j m, v.workers (j :: r) = some m ∧ m.node ∈ left ∧ c ∈ m.node.outputs ∧
    m.stage = .reported (.ok ())

/-- Every node can be held back until all others have gone as far as they can. -/
lemma Outset.exists_heldBack (ho : w.Outset w₁ r p seeds token)
    (hans : ∀ ns u, w₁.Plays r Alone ns u → u.Answers r) (hn : n ∈ p.nodes) :
    ∃ ms u, w₁.Plays r Alone ms u ∧ w₁.HeldBack u r p n := by
  obtain ⟨i, hi⟩ := List.mem_iff_getElem?.1 hn
  obtain ⟨hc, -⟩ := smooth_of_plays ho hans .start
  obtain ⟨k, hk, -⟩ := hc.worker_of_node hi
  obtain ⟨-, -, hl⟩ := start_eq_ok ho.start
  have hnew : w₁.Untouched w₁ (i :: r) :=
    ⟨rfl, hl.not_mem_line ho.vacant ho.orderly (below_cons.2 List.suffix_rfl)⟩
  obtain ⟨ms, u, hplay, hu, hrest⟩ : ∃ ms u, w₁.Plays r Alone ms u ∧
      w₁.Untouched u (i :: r) ∧ u.Resting r (i :: r) := by
    refine exists_resting (fun _ _ => ho.length_le)
      (fun ns v v' m hv hJ hm hwork hexpire hs => ?_) .start hnew
    exact hJ.step (smooth_of_plays ho hans hv).1 hk hm hwork hexpire hs
  exact ⟨ms, u, hplay, i, hi, hu, hrest⟩

/-- Whoever has another node than the one held back is settled. -/
lemma Untouched.settled {j : Nat} {m : Worker} (hu : w₁.Untouched u (i :: r))
    (h : w.Smooth u r p seeds token) (hc : u.Course r p) (ho : w.Outset w₁ r p seeds token)
    (hrest : u.Resting r (i :: r)) (hj : u.workers (j :: r) = some m) (hne : j ≠ i) :
    u.Settled (j :: r) m := by
  refine root_settled h hc ho hrest (fun _ _ d _ _ => hu.line d.id) hj ?_
  rintro a hs rfl
  obtain ⟨rfl, -⟩ := List.cons.inj (hs.eq_of_length (by simp))
  exact hne rfl

/-- A worker that has not begun needs all the inputs of its node. -/
lemma Untouched.needs (hu : w₁.Untouched u (i :: r)) (ho : w.Outset w₁ r p seeds token)
    (hk : u.workers (i :: r) = some k) : k.needs = k.node.ins := by
  obtain ⟨-, -, hl⟩ := start_eq_ok ho.start
  have hfirst := hl.worker_new ho.vacant i
  rw [← hu.worker, hk] at hfirst
  obtain ⟨n, -, rfl⟩ := Option.map_eq_some_iff.1 hfirst.symm
  exact Worker.needs_new _ _ _

/-! ### When all the others are through -/

/-- The worker has nothing left to take and to publish, or of what it needs next there is
nothing. -/
def Idle (v : World) (p : Pipeline) (k : Worker) : Prop :=
  k.needs = [] ∧ k.owes = [] ∨
    ∃ d ∈ p.channels, k.needs.head? = some d.name ∧ (v.conduit d).queue = []

/-- No move makes anything of an idle worker. -/
lemma Idle.advance (h : v.Idle p k) (hs : p.Sound) (hins : ∀ d ∈ k.node.inputs, d ∈ p.channels)
    (hadv : v.Advance k k') : k'.needs = k.needs ∧ k'.owes = k.owes := by
  rcases h with ⟨hneeds, howes⟩ | ⟨d, hd, hhead, hempty⟩
  · refine ⟨hadv.needs.resolve_right ?_, ?_⟩
    · rintro ⟨e, -, he, -⟩
      rw [hneeds] at he
      cases he
    · rw [howes]
      exact List.suffix_nil.1 (howes ▸ hadv.owes)
  · have hsame : k'.needs = k.needs := by
      refine hadv.needs.resolve_right ?_
      rintro ⟨e, he, hneeds, hqueue⟩
      rw [hneeds, List.head?_cons] at hhead
      exact hqueue (hs.eq_of_name (hins e he) hd (Option.some.inj hhead) ▸ hempty)
    have hneed := List.mem_of_head? hhead
    refine ⟨hsame, ?_⟩
    rw [Worker.owes_of_needs hneed, Worker.owes_of_needs (hsame.symm ▸ hneed), hadv.node]

lemma Idle.congr (h : v.Idle p k) (hneeds : k'.needs = k.needs) (howes : k'.owes = k.owes)
    (hempty : ∀ d ∈ p.channels, (v.conduit d).queue = [] → (v'.conduit d).queue = []) :
    v'.Idle p k' := by
  unfold Idle at h ⊢
  rw [hneeds, howes]
  exact h.imp_right fun ⟨d, hd, hhead, hqueue⟩ => ⟨d, hd, hhead, hempty d hd hqueue⟩

/-- All workers but one are idle, and that one, the worker of `n`, has still to take a value from
`c`. -/
structure Awaits (v : World) (r : Address) (p : Pipeline) (i : Nat) (n : Node) (c : Channel) :
    Prop where
  others : ∀ j m, v.workers (j :: r) = some m → j ≠ i → v.Idle p m
  needs : ∃ k, v.workers (i :: r) = some k ∧ k.node = n ∧ c.name ∈ k.needs

lemma Settled.idle {j : Nat} (h : v.Settled (j :: r) k) (hc : v.Course r p)
    (ho : w.Outset w₁ r p seeds token) (hk : v.workers (j :: r) = some k) : v.Idle p k := by
  rcases h with hrep | ⟨got, d, rest, hstage, hempty, -⟩
  · exact .inl ⟨Worker.needs_reported hrep, Worker.owes_reported hrep⟩
  · obtain ⟨run, rfl, hplace⟩ := place_of_root hc hk
    have hsuits := hc.tree.suits _ k (below_cons.2 List.suffix_rfl) hk
    rw [hstage] at hsuits
    refine .inr ⟨d, hplace.input ho.ready (hsuits.2.subset List.mem_cons_self), ?_, hempty⟩
    rw [Worker.needs, hstage]
    rfl

/-- So it is once a node has been held back. -/
lemma Untouched.awaits (hu : w₁.Untouched u (i :: r)) (h : w.Smooth u r p seeds token)
    (hc : u.Course r p) (ho : w.Outset w₁ r p seeds token) (hrest : u.Resting r (i :: r))
    (hn : p.nodes[i]? = some n) (hin : c ∈ n.inputs) : u.Awaits r p i n c where
  others _ _ hj hne := (hu.settled h hc ho hrest hj hne).idle hc ho hj
  needs := by
    obtain ⟨k, hk, rfl⟩ := hc.worker_of_node hn
    exact ⟨k, hk, rfl, hu.needs ho hk ▸ List.mem_map_of_mem hin⟩

/-- What the workers of a level have in common with those of another world, all but one of them. -/
lemma Crew.flatMap_eq {b : Address} {crew crew' : List Worker} (h : v.Crew b crew)
    (h' : v'.Crew b crew') (hlen : crew'.length = crew.length)
    (hk' : v'.workers (i :: b) = some k') {f : Worker → List String}
    (hf : ∀ j m m', j ≠ i → v.workers (j :: b) = some m → v'.workers (j :: b) = some m' →
      f m' = f m) : crew'.flatMap f = (crew.set i k').flatMap f := by
  have hmap : crew'.map f = (crew.set i k').map f := by
    refine List.ext_getElem (by simp [hlen]) fun j hj hj' => ?_
    rw [List.length_map] at hj
    have hm' := (h' j).symm.trans (List.getElem?_eq_getElem hj)
    rw [List.getElem_map, List.getElem_map]
    by_cases hji : j = i
    · subst hji
      obtain rfl := Option.some.inj (hk'.symm.trans hm')
      rw [List.getElem_set_self]
    · have hm := (h j).symm.trans (List.getElem?_eq_getElem (hlen ▸ hj))
      rw [List.getElem_set_ne (Ne.symm hji)]
      exact hf j _ _ hji hm hm'
  rw [List.flatMap_def, List.flatMap_def, hmap]

section

variable (ha : v.Awaits r p i n c) (h : w.Smooth v r p seeds token) (hc : v.Course r p)
  (h' : w.Smooth v' r p seeds token) (ho : w.Outset w₁ r p seeds token) {m : Move} (hm : m.Of r)
  (hs : v.step? m = some v')

include ha h hc h' ho hm hs

/-- A move makes nothing of the other workers. -/
lemma Awaits.unmoved {j : Nat} {l l' : Worker} (hji : j ≠ i) (hj : v.workers (j :: r) = some l)
    (hj' : v'.workers (j :: r) = some l') : l'.needs = l.needs ∧ l'.owes = l.owes := by
  obtain ⟨l₁, hl₁, hadv⟩ := h'.worker_step hc hm hs (below_cons.2 List.suffix_rfl) hj
  obtain rfl := Option.some.inj (hl₁.symm.trans hj')
  obtain ⟨run, rfl, hplace⟩ := place_of_root hc hj
  exact (ha.others j l hj hji).advance (ho.ready.sound _ _ hplace.level)
    (fun _ he => hplace.input ho.ready he) hadv

/-- While the worker still needs its value, a move takes from the channels what that worker takes,
and brings nothing. -/
lemma Awaits.books (hk : v.workers (i :: r) = some k) (hk' : v'.workers (i :: r) = some k')
    (hadv : v.Advance k k') (hneed : c.name ∈ k'.needs) {d : Channel} (hd : d ∈ p.channels) :
    (v'.conduit d).queue.length + k.needs.count d.name =
      (v.conduit d).queue.length + k'.needs.count d.name := by
  have hc' := hc.step hm hs
  obtain ⟨run, hrun, hp⟩ := hc.tree.root
  obtain ⟨run', hrun', hp'⟩ := hc'.tree.root
  obtain ⟨crew, hcrew, hbal⟩ := h.balanced [] p rfl (.inl rfl)
  obtain ⟨crew', hcrew', hbal'⟩ := h'.balanced [] p rfl (.inl rfl)
  have hlen : crew'.length = crew.length := by
    rw [hcrew.length_eq hc.tree List.suffix_rfl hrun,
      hcrew'.length_eq hc'.tree List.suffix_rfl hrun', hp, hp']
  have hneeds := hcrew.flatMap_eq hcrew' hlen hk' fun j m m' hji hj hj' =>
    (ha.unmoved h hc h' ho hm hs hji hj hj').1
  have howes := hcrew.flatMap_eq hcrew' hlen hk' fun j m m' hji hj hj' =>
    (ha.unmoved h hc h' ho hm hs hji hj hj').2
  have hsame : k'.owes = k.owes := by
    rw [Worker.owes_of_needs hneed, Worker.owes_of_needs (hadv.needs_suffix.subset hneed),
      hadv.node]
  have hold := hbal d hd
  have hnew := hbal' d hd
  rw [hneeds, howes] at hnew
  have hcount := count_flatMap_set (b := k') ((hcrew i).trans hk) Worker.needs d.name
  have hcount' := count_flatMap_set (b := k') ((hcrew i).trans hk) Worker.owes d.name
  rw [hsame] at hcount'
  omega

/-- As long as the worker does not take its value, all stays as it is. -/
lemma Awaits.kept (hmem : c ∈ p.channels) (hk : v.workers (i :: r) = some k)
    (hk' : v'.workers (i :: r) = some k') (hadv : v.Advance k k') (hnode : k.node = n)
    (hneed : c.name ∈ k'.needs) :
    v'.Awaits r p i n c ∧ (v'.conduit c).queue.length = (v.conduit c).queue.length := by
  have hbooks := fun d hd => ha.books h hc h' ho hm hs hk hk' hadv hneed (d := d) hd
  have hsuf := hadv.needs_suffix
  refine ⟨⟨fun j l' hj' hji => ?_, k', hk', hadv.node.trans hnode, hneed⟩, ?_⟩
  · obtain ⟨l, hj, -⟩ := hc.worker_of_node ((hc.step hm hs).node_of_worker hj')
    obtain ⟨hneeds, howes⟩ := ha.unmoved h hc h' ho hm hs hji hj hj'
    refine (ha.others j l hj hji).congr hneeds howes fun d hd hempty => ?_
    have hcount := hbooks d hd
    have hle := hsuf.sublist.count_le d.name
    rw [hempty] at hcount
    apply List.eq_nil_of_length_eq_zero
    rw [List.length_nil] at hcount
    omega
  · have hsound := ho.ready.sound [] p rfl
    have hnd : k.needs.Nodup := by
      have hup := h.upright _ k (below_cons.2 List.suffix_rfl) hk
      have hwired := hsound.wired _ (List.mem_of_getElem? (hc.node_of_worker hk))
      exact (Node.nodup_of_wiringFault? hwired).1.sublist hup.needs_suffix.sublist
    have hcount := hbooks c hmem
    rw [List.count_eq_one_of_mem hnd (hsuf.subset hneed),
      List.count_eq_one_of_mem (hnd.sublist hsuf.sublist) hneed] at hcount
    omega

/-- A move leaves the worker waiting, with as much on the channel as before, or it takes its
value. -/
lemma Awaits.step (hmem : c ∈ p.channels) :
    v'.Awaits r p i n c ∧ (v'.conduit c).queue.length = (v.conduit c).queue.length ∨
      (v.conduit c).queue ≠ [] ∧ ∀ k', v'.workers (i :: r) = some k' → c.name ∉ k'.needs := by
  obtain ⟨k, hk, hnode, hneed⟩ := ha.needs
  obtain ⟨k', hk', hadv⟩ := h'.worker_step hc hm hs (below_cons.2 List.suffix_rfl) hk
  by_cases hneed' : c.name ∈ k'.needs
  · exact .inl (ha.kept h hc h' ho hm hs hmem hk hk' hadv hnode hneed')
  · refine .inr ⟨?_, fun k₁ hk₁ => Option.some.inj (hk'.symm.trans hk₁) ▸ hneed'⟩
    rcases hadv.needs with hsame | ⟨e, he, hneeds, hqueue⟩
    · exact absurd (hsame ▸ hneed) hneed'
    · rw [hneeds] at hneed
      obtain ⟨run, rfl, hplace⟩ := place_of_root hc hk
      have hname := (List.mem_cons.1 hneed).resolve_right hneed'
      have hsound := ho.ready.sound _ _ hplace.level
      exact hsound.eq_of_name (hplace.input ho.ready he) hmem hname.symm ▸ hqueue

end

/-- What may become of it: the worker still waits, and the channel holds as much as it did; or there
was something on it, and the worker has taken its value. -/
lemma Awaits.plays (ha : u.Awaits r p i n c) (ho : w.Outset w₁ r p seeds token)
    (hans : ∀ ns u, w₁.Plays r Alone ns u → u.Answers r) (hmem : c ∈ p.channels)
    (hbefore : w₁.Plays r Alone ms u) {ns : List Move} (hplay : u.Plays r Alone ns v) :
    v.Awaits r p i n c ∧ (v.conduit c).queue.length = (u.conduit c).queue.length ∨
      (u.conduit c).queue ≠ [] ∧ ∀ k, v.workers (i :: r) = some k → c.name ∉ k.needs := by
  induction hplay with
  | start => exact .inl ⟨ha, rfl⟩
  | @move _ v v' m before own step ih =>
    obtain ⟨hc, h⟩ := smooth_of_plays ho hans (hbefore.trans before)
    obtain ⟨hc', h'⟩ := smooth_of_plays ho hans (hbefore.trans (before.move own step))
    rcases ih with ⟨hav, hlen⟩ | ⟨hqueue, hgone⟩
    · rcases hav.step h hc h' ho own step hmem with ⟨hav', hlen'⟩ | ⟨hqueue, hgone⟩
      · exact .inl ⟨hav', hlen'.trans hlen⟩
      · refine .inr ⟨fun hempty => hqueue ?_, hgone⟩
        rw [hempty] at hlen
        exact List.eq_nil_of_length_eq_zero hlen
    · refine .inr ⟨hqueue, fun k' hk' hneed => ?_⟩
      obtain ⟨k, hk, -⟩ := hc.worker_of_node (hc'.node_of_worker hk')
      obtain ⟨k₁, hk₁, hadv⟩ := h'.worker_step hc own step (below_cons.2 List.suffix_rfl) hk
      obtain rfl := Option.some.inj (hk₁.symm.trans hk')
      exact hgone k hk (hadv.needs_suffix.subset hneed)
  | @await _ v _ ih =>
    obtain ⟨hw, hcond, -⟩ := await_others v r
    unfold conduit
    rw [hcond, hw]
    refine ih.imp_left fun ⟨hav, hlen⟩ => ⟨⟨fun j m hj hji => ?_, hw ▸ hav.needs⟩, hlen⟩
    exact (hav.others j m (hw ▸ hj) hji).congr rfl rfl fun d _ hempty => by
      rwa [conduit, hcond]
  | others _ act _ => exact act.elim

/-! ### Why something is left -/

/-- As long as nobody in the rear has published on a channel, the books need not mention them. -/
lemma Ranks.books {b : Address} {q : Pipeline} {seeded : List String}
    (h : w.Ranks v b q seeded fired front rear) (hs : q.Sound) (hc : c ∈ q.channels)
    (hrear : ∀ k ∈ rear, c ∈ k.node.outputs → c.name ∈ k.owes) :
    (v.conduit c).queue.length + (front.flatMap Worker.owes).count c.name +
        (Pipeline.reads q.nodes).count c.name =
      q.supply w.queued seeded c.name + (Pipeline.writes fired).count c.name +
        ((front ++ rear).flatMap Worker.needs).count c.name := by
  have hbooks := h.balanced c hc
  have hwrites := h.writes_eq c.name
  have howes : (rear.flatMap Worker.owes).count c.name =
      (Pipeline.writes (rear.map Worker.node)).count c.name := by
    rw [Pipeline.writes, List.flatMap_map, List.count_flatMap, List.count_flatMap]
    congr 1
    refine List.map_congr_left fun k hk => ?_
    have hmem : k ∈ front ++ rear := List.mem_append_right _ hk
    have hle := (h.upright k hmem).owes_le c.name
    have hone := List.nodup_iff_count_le_one.1
      (Node.nodup_of_wiringFault? (hs.wired _ (h.node_mem hmem))).2 c.name
    simp only [Function.comp_apply]
    by_cases hout : c.name ∈ k.node.outs
    · obtain ⟨d, hd, hname⟩ := List.mem_map.1 hout
      have hdc := hs.eq_of_name (hs.mem_output (h.node_mem hmem) hd) hc hname
      have hpos := List.count_pos_iff.2 (hrear k hk (hdc ▸ hd))
      change k.owes.count c.name = k.node.outs.count c.name
      omega
    · have hzero := List.count_eq_zero_of_not_mem hout
      change k.owes.count c.name = k.node.outs.count c.name
      omega
  rw [List.flatMap_append, List.count_append, howes] at hbooks
  omega

/-- Where nobody is held up, a reader of a channel that is not empty is through with it. -/
lemma Ranks.not_mem_needs {j : Nat} {m : Worker}
    (hranks : w.Ranks v r p seeds.keys fired front rear) (hs : p.Sound) (hm : m ∈ rear)
    (hj : v.workers (j :: r) = some m) (hsettled : v.Settled (j :: r) m) (hmem : c ∈ p.channels)
    (hne : m.node ≠ n) (hqueue : (v.conduit c).queue ≠ [])
    (hheld : ¬ v.HeldUp r (p.unfired w.queued seeds.keys) n c) : c.name ∉ m.needs := by
  intro hneed
  rcases hsettled with hrep | ⟨got, d, rest, hstage, hempty, hwaits⟩
  · rw [Worker.needs_reported hrep] at hneed
    cases hneed
  · have hall : m ∈ front ++ rear := List.mem_append_right _ hm
    obtain ⟨taken, hins, hholds⟩ : ∃ taken, m.node.inputs = taken ++ d :: rest ∧
        got.Holds taken := by
      have hup := hranks.upright m hall
      rwa [Worker.Upright, hstage] at hup
    rw [Worker.needs, hstage] at hneed
    obtain ⟨e, he, hname⟩ := List.mem_map.1 hneed
    have hinput : e ∈ m.node.inputs := hins ▸ List.mem_append_right _ he
    obtain rfl := hs.eq_of_name (hranks.input hs hall hinput) hmem hname
    rcases List.mem_cons.1 he with rfl | hrest
    · exact hqueue hempty
    · exact hheld ⟨m.node, hranks.unfired hm, hne, taken, d, rest, hins, hrest,
        j, m, got, taken, rest, hj, rfl, hins, hstage, hholds, hempty, hwaits⟩

/-- If nobody else in the rear needs the channel, it is needed once at most. -/
lemma Ranks.count_needs_le_one (h : w.Ranks v r p seeds.keys fired front rear) (hs : p.Sound)
    (hleft : n ∈ p.unfired w.queued seeds.keys)
    (hfront : ∀ k ∈ front, k.stage = .reported (.ok ()))
    (hothers : ∀ k ∈ rear, k.node ≠ n → c.name ∉ k.needs) :
    ((front ++ rear).flatMap Worker.needs).count c.name ≤ 1 := by
  rw [← h.left] at hleft
  obtain ⟨k, hk, rfl⟩ := List.mem_map.1 hleft
  have hall : k ∈ front ++ rear := List.mem_append_right _ hk
  have hnodup : (rear.map Worker.node).Nodup := by
    have := h.played.perm.nodup_iff.2 hs.nodup_nodes
    rw [← h.left] at this
    exact (List.nodup_append.1 this).2.1
  have hone : k.needs.count c.name ≤ 1 := by
    have hnd := (Node.nodup_of_wiringFault? (hs.wired _ (h.node_mem hall))).1
    exact ((h.upright k hall).needs_le _).trans (List.nodup_iff_count_le_one.1 hnd _)
  obtain ⟨s, t, rfl⟩ := List.append_of_mem hk
  have hzero : ((s ++ t).flatMap Worker.needs).count c.name = 0 := by
    rw [List.map_append, List.map_cons, List.nodup_middle, ← List.map_append] at hnodup
    refine List.count_eq_zero_of_not_mem fun hin => ?_
    obtain ⟨m, hm, hneed⟩ := List.mem_flatMap.1 hin
    refine hothers m ?_ (fun heq => ?_) hneed
    · rw [List.mem_append] at hm ⊢
      exact hm.imp_right (List.mem_cons_of_mem _)
    · exact (List.nodup_cons.1 hnodup).1 (heq ▸ List.mem_map_of_mem hm)
  rw [List.flatMap_append, List.count_append] at hzero
  rw [List.flatMap_append, Worker.flatMap_eq_nil_of_reported Worker.needs_reported hfront,
    List.nil_append, List.flatMap_append, List.flatMap_cons, List.count_append,
    List.count_append]
  omega

section

variable (hu : w₁.Untouched u (i :: r)) (h : w.Smooth u r p seeds token) (hc : u.Course r p)
  (ho : w.Outset w₁ r p seeds token) (hrest : u.Resting r (i :: r)) (hn : p.nodes[i]? = some n)

include hu h hc ho hrest hn

/-- Whoever has not run to its end has still to take something, and so has published nothing. -/
lemma Untouched.owes {j : Nat} {m : Worker} (hin : c ∈ n.inputs) (hj : u.workers (j :: r) = some m)
    (hopen : m.stage ≠ .reported (.ok ())) : m.owes = m.node.outs := by
  by_cases hji : j = i
  · subst hji
    obtain rfl := Option.some.inj ((hc.node_of_worker hj).symm.trans hn)
    have hneed : c.name ∈ m.needs := hu.needs ho hj ▸ List.mem_map_of_mem hin
    exact Worker.owes_of_needs hneed
  · rcases hu.settled h hc ho hrest hj hji with hrep | ⟨got, d, rest, hstage, -⟩
    · exact absurd hrep hopen
    · rw [Worker.owes, hstage]

/-- If something is left for a node that was held back, on its first short input, then another
reader was held up, or a node that was left unfired has published there. -/
lemma Untouched.left_over (hplayed : p.Played w.queued seeds.keys fired)
    (hleft : n ∈ p.unfired w.queued seeds.keys)
    (hfirst : p.FirstShort w.queued seeds.keys fired n c) (hqueue : (u.conduit c).queue ≠ []) :
    u.HeldUp r (p.unfired w.queued seeds.keys) n c ∨
      u.Supplied r (p.unfired w.queued seeds.keys) c := by
  by_contra hnot
  push Not at hnot
  obtain ⟨hheld, hsupplied⟩ := hnot
  have hsound := ho.ready.sound [] p rfl
  obtain ⟨pre, post, hins, hshort, -⟩ := hfirst
  have hin : c ∈ n.inputs := by simp [hins]
  have hmem := hsound.mem_input (List.mem_of_getElem? hn) hin
  have hsettled : ∀ {j m}, u.workers (j :: r) = some m → m.node ≠ n → u.Settled (j :: r) m := by
    intro j m hj hne
    refine hu.settled h hc ho hrest hj fun hji => hne ?_
    subst hji
    exact Option.some.inj ((hc.node_of_worker hj).symm.trans hn)
  obtain ⟨front, rear, hranks⟩ := h.root_ranks hc hplayed
  have hfront := hranks.front_succeeds hsound fun m hm => by
    obtain ⟨j, hj⟩ := hranks.mem.1 (List.mem_append_left _ hm)
    refine ⟨_, hsettled hj fun heq => ?_⟩
    have hdisj := (List.nodup_append.1 (hplayed.perm.nodup_iff.2 hsound.nodup_nodes)).2.2
    exact hdisj _ (hranks.fires ▸ List.mem_map_of_mem hm) _ hleft heq
  have hone := hranks.count_needs_le_one hsound hleft hfront (c := c) fun m hm hne => by
    obtain ⟨j, hj⟩ := hranks.mem.1 (List.mem_append_right _ hm)
    exact hranks.not_mem_needs hsound hm hj (hsettled hj hne) hmem hne hqueue hheld
  have hbooks := hranks.books hsound hmem fun m hm hout => by
    obtain ⟨j, hj⟩ := hranks.mem.1 (List.mem_append_right _ hm)
    have howes := hu.owes h hc ho hrest hn hin hj fun hrep =>
      hsupplied ⟨j, m, hj, hranks.unfired hm, hout, hrep⟩
    exact howes ▸ List.mem_map_of_mem hout
  have hpos := List.length_pos_of_ne_nil hqueue
  unfold Pipeline.Short at hshort
  omega

end

lemma StuckOn.books (h : v.StuckOn r n c) (hc : v.Course r p) (hs : p.Sound)
    (hn : p.nodes[i]? = some n) {k : Worker} (hk : v.workers (i :: r) = some k) :
    c.name ∈ k.needs ∧ k.owes = n.outs ∧ (v.conduit c).queue = [] := by
  obtain ⟨j, k', got, taken, rest, hk', rfl, -, hstage, -, hqueue, -⟩ := h
  have hlt := (List.getElem?_eq_some_iff.1 hn).1
  obtain rfl := (List.getElem?_inj hlt hs.nodup_nodes).1 (hn.trans (hc.node_of_worker hk').symm)
  obtain rfl := Option.some.inj (hk.symm.trans hk')
  have hneed : c.name ∈ k.needs := by
    rw [Worker.needs, hstage]
    exact List.mem_cons_self
  exact ⟨hneed, Worker.owes_of_needs hneed, hqueue⟩

/-- **Rejections are justified wherever the reported channel runs dry.** The reported node can be
held back until all the others have gone as far as they can. If nothing is left on the reported
channel then, the node waits there in every standstill that is played to from there. If something is
left, the node never comes to wait there; but then another reader of the channel that was left
unfired is held up before it comes to read, or a node that was left unfired has run after all,
and has published there. -/
theorem rejection_justified {name channel : String} (ho : w.Outset w₁ r p seeds token)
    (hrejected : p.checkSatisfiable w.queued seeds.keys =
      .error (.unsatisfiableInput name channel))
    (hans : ∀ ns u, w₁.Plays r Alone ns u → u.Answers r) :
    ∃ n ∈ p.nodes, ∃ c ∈ n.inputs, n.name = name ∧ c.name = channel ∧
      (∃ ms u, w₁.Plays r Alone ms u ∧ w₁.HeldBack u r p n) ∧
      ∀ ms u, w₁.Plays r Alone ms u → w₁.HeldBack u r p n →
        ((u.conduit c).queue = [] → (∃ ns v, u.Plays r Alone ns v ∧ v.Still r) ∧
          ∀ ns v, u.Plays r Alone ns v → v.Still r → v.StuckOn r n c) ∧
        ((u.conduit c).queue ≠ [] → (∀ ns v, u.Plays r Alone ns v → ¬ v.StuckOn r n c) ∧
          (u.HeldUp r (p.unfired w.queued seeds.keys) n c ∨
            u.Supplied r (p.unfired w.queued seeds.keys) c)) := by
  obtain ⟨fired, hplayed⟩ := p.exists_played w.queued seeds.keys
  obtain ⟨n, hleft, c, hname, hchan, hfirst⟩ := hplayed.reported name channel hrejected
  have hsound := ho.ready.sound [] p rfl
  have hn : n ∈ p.nodes := Pipeline.mem_of_unfired hleft
  have hin : c ∈ n.inputs := by
    obtain ⟨pre, post, hins, -⟩ := hfirst
    simp [hins]
  have hmem := hsound.mem_input hn hin
  refine ⟨n, hn, c, hin, hname, hchan, ho.exists_heldBack hans hn, fun ms u hplay hback => ?_⟩
  obtain ⟨i, hi, hu, hrest⟩ := hback
  obtain ⟨hc, h⟩ := smooth_of_plays ho hans hplay
  have hawaits := hu.awaits h hc ho hrest hi hin
  refine ⟨fun hqueue => ⟨ho.exists_still_after hplay, fun ns v hplay' hstill => ?_⟩,
    fun hqueue => ⟨fun ns v hplay' hstuck => ?_,
      hu.left_over h hc ho hrest hi hplayed hleft hfirst hqueue⟩⟩
  · rcases hawaits.plays ho hans hmem hplay hplay' with ⟨hav, -⟩ | ⟨hne, -⟩
    · obtain ⟨hcv, hsv⟩ := smooth_of_plays ho hans (hplay.trans hplay')
      obtain ⟨k, hk, rfl, hneed⟩ := hav.needs
      exact stuckOn_of_needs hsv hcv ho hstill hplayed hk hfirst hneed
    · exact absurd hqueue hne
  · obtain ⟨hcv, -⟩ := smooth_of_plays ho hans (hplay.trans hplay')
    obtain ⟨k, hk, -⟩ := hcv.worker_of_node hi
    obtain ⟨hneed, -, hempty⟩ := hstuck.books hcv hsound hi hk
    rcases hawaits.plays ho hans hmem hplay hplay' with ⟨-, hlen⟩ | ⟨-, hgone⟩
    · rw [hempty] at hlen
      exact hqueue (List.eq_nil_of_length_eq_zero hlen.symm)
    · exact hgone k hk hneed

/-- Two sinks that want the one value that there is. -/
def contest : Pipeline where
  id := 0
  name := "contest"
  options := { validateInputs := false }
  channels := [⟨2, "c", .text⟩]
  nodes := [⟨"a", [⟨2, "c", .text⟩], [], .sink (.chatter .function [])⟩,
    ⟨"b", [⟨2, "c", .text⟩], [], .sink (.chatter .function [])⟩]

lemma plain_contest : contest.Plain where
  names := by decide
  ids := by decide
  labels := by decide
  nodes := by
    simp only [contest, List.forall_mem_cons]
    exact ⟨⟨rfl, rfl, rfl, Node.chatty rfl (by simp)⟩, ⟨rfl, rfl, rfl, Node.chatty rfl (by simp)⟩,
      fun _ h => by cases h⟩

/-- Nobody in the contest is held up or publishes anything, so the reported sink can end up with
nothing. -/
theorem contest_justified : ∃ w₁,
    initial.start [5] contest (.ofList [("c", .text "")]) [5] true = .ok w₁ ∧
      ∃ n ∈ contest.nodes, ∃ c ∈ n.inputs, n.name = "a" ∧ c.name = "c" ∧
        ∃ ms v, w₁.Plays [5] Alone ms v ∧ v.Still [5] ∧ v.StuckOn [5] n c := by
  obtain ⟨w₁, hw⟩ : ∃ w₁, initial.start [5] contest (.ofList [("c", .text "")]) [5] true =
      .ok w₁ := ⟨_, rfl⟩
  have ho := plain_contest.outset rfl hw
  have hrejected : contest.checkSatisfiable initial.queued
      (Payload.ofList [("c", .text "")]).keys = .error (.unsatisfiableInput "a" "c") := by
    cbv
  obtain ⟨n, hn, c, hc, hname, hchan, ⟨ms, u, hplay, hback⟩, hends⟩ :=
    rejection_justified ho hrejected fun _ _ hplay => ho.answers plain_contest.obliging hplay
  refine ⟨w₁, hw, n, hn, c, hc, hname, hchan, ?_⟩
  obtain ⟨hdry, hwet⟩ := hends ms u hplay hback
  by_cases hqueue : (u.conduit c).queue = []
  · obtain ⟨⟨ns, v, hplay', hstill⟩, hstuck⟩ := hdry hqueue
    exact ⟨ms ++ ns, v, hplay.trans hplay', hstill, hstuck ns v hplay' hstill⟩
  · rcases (hwet hqueue).2 with hheld | ⟨j, m, -, hm, hout, -⟩
    · obtain ⟨m, hm, -, pre, d, post, hins, hpost, -⟩ := hheld
      have hall : ∀ m ∈ contest.nodes, m.inputs.length = 1 := by decide
      have hlen := hall m (Pipeline.mem_of_unfired hm)
      rw [hins, List.length_append, List.length_cons] at hlen
      have := List.length_pos_of_mem hpost
      omega
    · have hall : ∀ m ∈ contest.nodes, m.outputs = [] := by decide
      rw [hall _ (Pipeline.mem_of_unfired hm)] at hout
      cases hout

/-! ### Pipelines that are rejected without need -/

/-- The pipeline is rejected for a node and an input on which that node waits in no standstill of
a run of it, although all its logic publishes every output. -/
def Misreported (p : Pipeline) (seeds : Payload) (n : Node) (c : Channel) : Prop :=
  n ∈ p.nodes ∧ c ∈ n.inputs ∧
    p.checkSatisfiable initial.queued seeds.keys = .error (.unsatisfiableInput n.name c.name) ∧
    ∃ w₁, initial.Outset w₁ [5] p seeds [5] ∧
      (∀ ms v, w₁.Plays [5] Alone ms v → v.Answers [5]) ∧
      ∀ ms v, w₁.Plays [5] Alone ms v → v.Still [5] → ¬ v.StuckOn [5] n c

/-- The workers of a run of three nodes, and its books. -/
lemma Smooth.trio {x y z : Node} (h : w.Smooth v r p seeds token) (hc : v.Course r p)
    (hp : p.nodes = [x, y, z]) : ∃ k l m : Worker,
      (v.workers (0 :: r) = some k ∧ v.workers (1 :: r) = some l ∧
        v.workers (2 :: r) = some m) ∧
      (k.needs <:+ x.ins ∧ l.needs <:+ y.ins ∧ m.needs <:+ z.ins) ∧
      (k.owes <:+ x.outs ∧ l.owes <:+ y.outs ∧ m.owes <:+ z.outs) ∧
      w.Balanced v p seeds.keys [k, l, m] := by
  obtain ⟨run, hrun, hrp⟩ := hc.tree.root
  obtain ⟨crew, hcrew, hbal⟩ := h.balanced [] p rfl (.inl rfl)
  have hnodes := hcrew.map_node hc.tree List.suffix_rfl hrun
  rw [hrp, hp] at hnodes
  obtain ⟨k, _, rfl, rfl, hrest⟩ := List.map_eq_cons_iff.1 hnodes
  obtain ⟨l, _, rfl, rfl, hlast⟩ := List.map_eq_cons_iff.1 hrest
  obtain ⟨m, _, rfl, rfl, hnil⟩ := List.map_eq_cons_iff.1 hlast
  obtain rfl := List.map_eq_nil_iff.1 hnil
  have hk := (hcrew 0).symm
  have hl := (hcrew 1).symm
  have hm := (hcrew 2).symm
  have hupk := h.upright _ k (below_cons.2 List.suffix_rfl) hk
  have hupl := h.upright _ l (below_cons.2 List.suffix_rfl) hl
  have hupm := h.upright _ m (below_cons.2 List.suffix_rfl) hm
  exact ⟨k, l, m, ⟨hk, hl, hm⟩, ⟨hupk.needs_suffix, hupl.needs_suffix, hupm.needs_suffix⟩,
    ⟨hupk.owes_suffix, hupl.owes_suffix, hupm.owes_suffix⟩, hbal⟩

/-- In a standstill a worker has nothing left to take and to publish, or it needs something of
which there is nothing. -/
lemma Smooth.settled_books (h : w.Smooth v r p seeds token) (hc : v.Course r p)
    (ho : w.Outset w₁ r p seeds token) (hstill : v.Still r) (hn : p.nodes[i]? = some n)
    {k : Worker} (hk : v.workers (i :: r) = some k) : (k.needs = [] ∧ k.owes = []) ∨
      ∃ d ∈ n.inputs, d.name ∈ k.needs ∧ (v.conduit d).queue = [] := by
  obtain rfl := Option.some.inj (hn.symm.trans (hc.node_of_worker hk))
  have hsuits := hc.tree.suits _ k (below_cons.2 List.suffix_rfl) hk
  rcases settled_of_still h hc ho hstill hk with hrep | ⟨got, d, rest, hstage, hqueue, -⟩
  · exact .inl ⟨Worker.needs_reported hrep, Worker.owes_reported hrep⟩
  · rw [hstage] at hsuits
    refine .inr ⟨d, hsuits.2.subset List.mem_cons_self, ?_, hqueue⟩
    rw [Worker.needs, hstage]
    exact List.mem_cons_self

lemma misreported_of_plain (hp : p.Plain) (ht : p.options.receiveTimeout = none)
    (hn : n ∈ p.nodes) (hc : c ∈ n.inputs)
    (hstart : ∃ w₁, initial.start [5] p seeds [5] true = .ok w₁)
    (hrejected : p.checkSatisfiable initial.queued seeds.keys =
      .error (.unsatisfiableInput n.name c.name))
    (hnever : ∀ w₁ v, initial.Outset w₁ [5] p seeds [5] → v.Course [5] p →
      initial.Smooth v [5] p seeds [5] → v.Still [5] → ¬ v.StuckOn [5] n c) :
    Misreported p seeds n c := by
  obtain ⟨w₁, hw⟩ := hstart
  have ho := hp.outset ht hw
  have hans : ∀ ms v, w₁.Plays [5] Alone ms v → v.Answers [5] := fun _ _ hplay =>
    ho.answers hp.obliging hplay
  refine ⟨hn, hc, hrejected, w₁, ho, hans, fun ms v hplay hstill => ?_⟩
  obtain ⟨hcourse, h⟩ := smooth_of_plays ho hans hplay
  exact hnever w₁ v ho hcourse h hstill

/-- Two nodes read `c`, but one of them comes to it only after the other has run. -/
def roundabout : Pipeline where
  id := 0
  name := "roundabout"
  options := { validateInputs := false }
  channels := [⟨2, "c", .text⟩, ⟨3, "d", .text⟩, ⟨4, "e", .text⟩]
  nodes := [⟨"a", [⟨2, "c", .text⟩], [⟨3, "d", .text⟩, ⟨4, "e", .text⟩],
      .transform (.chatter .function ["d", "e"])⟩,
    ⟨"z", [⟨4, "e", .text⟩], [⟨2, "c", .text⟩], .transform (.chatter .function ["c"])⟩,
    ⟨"b", [⟨3, "d", .text⟩, ⟨2, "c", .text⟩], [], .sink (.chatter .function [])⟩]

lemma plain_roundabout : roundabout.Plain where
  names := by decide
  ids := by decide
  labels := by decide
  nodes := by
    simp only [roundabout, List.forall_mem_cons]
    exact ⟨⟨rfl, rfl, rfl, Node.chatty rfl (by simp)⟩, ⟨rfl, rfl, rfl, Node.chatty rfl (by simp)⟩,
      ⟨rfl, rfl, rfl, Node.chatty rfl (by simp)⟩, fun _ h => by cases h⟩

/-- The roundabout is rejected for its first node, although that always receives its input. -/
theorem roundabout_misreported : Misreported roundabout (.ofList [("c", .text "")])
    roundabout.nodes[0] ⟨2, "c", .text⟩ := by
  refine misreported_of_plain plain_roundabout rfl List.mem_cons_self List.mem_cons_self
    ⟨_, rfl⟩ (by cbv) fun w₁ v ho hc h hstill hstuck => ?_
  obtain ⟨a, z, b, ⟨ha, -, -⟩, hneeds, howes, hbal⟩ := h.trio hc rfl
  obtain ⟨hneed, howed, hqueue⟩ := hstuck.books hc plain_roundabout.sound rfl ha
  -- since `a` has still to publish on `d`, `b` has still to take from `c` as well
  have hcbook := hbal ⟨2, "c", .text⟩ List.mem_cons_self
  have hdbook := hbal ⟨3, "d", .text⟩ (by simp [roundabout])
  have hreads : Pipeline.reads roundabout.nodes = ["c", "e", "d", "c"] := rfl
  have hwrites : Pipeline.writes roundabout.nodes = ["d", "e", "c"] := rfl
  have hcsupply : roundabout.supply initial.queued
      (Payload.ofList [("c", .text "")]).keys "c" = 1 := rfl
  have hdsupply : roundabout.supply initial.queued
      (Payload.ofList [("c", .text "")]).keys "d" = 0 := rfl
  simp only [hreads, hwrites, hcsupply, hdsupply, hqueue, List.flatMap_cons, List.flatMap_nil,
    List.count_append] at hcbook hdbook
  simp only [roundabout, Node.ins, Node.outs, List.getElem_cons_zero, List.map_cons, List.map_nil,
    List.suffix_cons_iff, List.suffix_nil] at hneeds howes howed
  obtain ⟨hna | hna, hnz | hnz, hnb | hnb | hnb⟩ := hneeds <;>
    obtain ⟨-, hoz | hoz, hob⟩ := howes <;>
      simp [hna, hnz, hnb, howed, hoz, hob] at hneed hcbook hdbook

/-- Two nodes read `c`, and whatever one of them takes comes back. -/
def handover : Pipeline where
  id := 0
  name := "handover"
  options := { validateInputs := false }
  channels := [⟨2, "c", .text⟩, ⟨3, "e", .text⟩]
  nodes := [⟨"n", [⟨2, "c", .text⟩], [], .sink (.chatter .function [])⟩,
    ⟨"m", [⟨2, "c", .text⟩], [⟨3, "e", .text⟩], .transform (.chatter .function ["e"])⟩,
    ⟨"z", [⟨3, "e", .text⟩], [⟨2, "c", .text⟩], .transform (.chatter .function ["c"])⟩]

lemma plain_handover : handover.Plain where
  names := by decide
  ids := by decide
  labels := by decide
  nodes := by
    simp only [handover, List.forall_mem_cons]
    exact ⟨⟨rfl, rfl, rfl, Node.chatty rfl (by simp)⟩, ⟨rfl, rfl, rfl, Node.chatty rfl (by simp)⟩,
      ⟨rfl, rfl, rfl, Node.chatty rfl (by simp)⟩, fun _ h => by cases h⟩

/-- The handover is rejected for the sink, although there is always a value left for it. -/
theorem handover_misreported : Misreported handover (.ofList [("c", .text "")])
    handover.nodes[0] ⟨2, "c", .text⟩ := by
  refine misreported_of_plain plain_handover rfl List.mem_cons_self List.mem_cons_self
    ⟨_, rfl⟩ (by cbv) fun w₁ v ho hc h hstill hstuck => ?_
  obtain ⟨n, m, z, ⟨hn, hm, hz⟩, hneeds, howes, hbal⟩ := h.trio hc rfl
  obtain ⟨hneed, howed, hqueue⟩ := hstuck.books hc plain_handover.sound rfl hn
  have hcbook := hbal ⟨2, "c", .text⟩ List.mem_cons_self
  have hebook := hbal ⟨3, "e", .text⟩ (by simp [handover])
  have hreads : Pipeline.reads handover.nodes = ["c", "c", "e"] := rfl
  have hwrites : Pipeline.writes handover.nodes = ["e", "c"] := rfl
  have hcsupply : handover.supply initial.queued
      (Payload.ofList [("c", .text "")]).keys "c" = 1 := rfl
  have hesupply : handover.supply initial.queued
      (Payload.ofList [("c", .text "")]).keys "e" = 0 := rfl
  simp only [hreads, hwrites, hcsupply, hesupply, hqueue, List.flatMap_cons, List.flatMap_nil,
    List.count_append] at hcbook hebook
  simp only [handover, Node.ins, Node.outs, List.getElem_cons_zero, List.map_cons, List.map_nil,
    List.suffix_cons_iff, List.suffix_nil] at hneeds howes howed
  have hnn : n.needs = ["c"] := hneeds.1.resolve_right (List.ne_nil_of_mem hneed)
  obtain ⟨-, hnm, hnz⟩ := hneeds
  obtain ⟨-, hom, hoz⟩ := howes
  -- `z` has not ended, for then a value of its own would be there
  rcases h.settled_books hc ho hstill rfl hz with ⟨-, hoz⟩ | ⟨d, hd, hdneed, hempty⟩
  · rcases hnm with hnm | hnm <;> rcases hom with hom | hom <;>
      simp [hnn, hnm, howed, hom, hoz] at hcbook hebook
  obtain rfl : d = ⟨3, "e", .text⟩ := List.mem_singleton.1 hd
  replace hnz : z.needs = ["e"] := hnz.resolve_right (List.ne_nil_of_mem hdneed)
  -- so nor has `m`, and yet neither has taken the value that there was
  rcases h.settled_books hc ho hstill rfl hm with ⟨hnm, hom⟩ | ⟨d, hd, hdneed, -⟩
  · rcases hoz with hoz | hoz <;> simp [hnn, hnm, hnz, howed, hom, hoz, hempty] at hebook
  · replace hnm : m.needs = ["c"] := hnm.resolve_right (List.ne_nil_of_mem hdneed)
    rcases hom with hom | hom <;> rcases hoz with hoz | hoz <;>
      simp [hnn, hnm, hnz, howed, hom, hoz] at hcbook hebook

end World

end Dataflow
