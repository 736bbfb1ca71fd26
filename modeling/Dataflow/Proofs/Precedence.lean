import Dataflow.Proofs.Joining
import Dataflow.Proofs.Ledger

/-!
In which order nodes complete. A worker that has begun to publish goes on without waiting until it
has told its run how it ended. If nobody else takes a step in between, whoever reads what it has
published comes after it in the queue of outcomes.

Main statement: where workers take turns in this way, the writer of a channel is heard before
whoever has taken a value from it, and a report lists the nodes in an order that extends the
dependence between them (`completion_respects_dependence`).
-/

namespace Dataflow

/-- The worker has begun to publish or has ended, and has not told its run yet. It waits for
nothing until it has. -/
def Stage.engaged : Stage → Bool
  | .sending _ _ => true
  | .ended _ => true
  | _ => false

/-- Who takes a step. -/
def Move.worker? : Move → Option Address
  | .work a => some a
  | .expire a => some a
  | _ => none

namespace World

variable {w w₁ w' v u : World} {r a b : Address} {p q : Pipeline} {k : Worker} {run : Run}
  {ds es : List Deed} {seeds : Payload} {token : Token} {runtime : Bool} {ms : List Move}
  {env : World → World → Prop} {path : Address} {c : Channel} {i j : Nat} {n : Node} {x : Value}

/-! ### Taking turns -/

/-- The worker at `a` cannot be interrupted. -/
def busy (v : World) (a : Address) : Bool := (v.workers a).any fun k => k.stage.engaged

lemma busy_of_some (hk : v.workers a = some k) : v.busy a = k.stage.engaged := by
  rw [busy, hk, Option.any_some]

/-- Nobody steps in while another worker of the run at `r` cannot be interrupted. -/
def Turn (v : World) (r : Address) (m : Move) : Prop :=
  ∀ a ∈ m.worker?, ∀ b, Below r b → v.busy b = true → b = a

/-- A play in which workers are interrupted only where they wait, told with the deeds that were
done in it. -/
inductive Turnwise (r : Address) (env : World → World → Prop) (w : World) :
    List Move → List Deed → World → Prop where
  | start : Turnwise r env w [] [] w
  | move {ms : List Move} {ds : List Deed} {v u : World} {m : Move}
      (before : Turnwise r env w ms ds v) (own : m.Of r) (turn : v.Turn r m)
      (step : v.step? m = some u) : Turnwise r env w (ms ++ [m]) (ds ++ v.deeds m) u
  | await {ms : List Move} {ds : List Deed} {v : World} (before : Turnwise r env w ms ds v) :
      Turnwise r env w ms ds (v.await r)
  | others {ms : List Move} {ds : List Deed} {v u : World} (before : Turnwise r env w ms ds v)
      (act : env v u) : Turnwise r env w ms ds u

lemma Turnwise.chronicle (h : w.Turnwise r env ms ds v) : w.Chronicle r env ms ds v := by
  induction h with
  | start => exact .start
  | move _ own _ step ih => exact .move ih own step
  | await _ ih => exact .await ih
  | others _ act ih => exact .others ih act

/-! ### Diaries and turns -/

/-- Only workers of the run have done anything in it. -/
lemma Chronicle.actor_below (h : w.Chronicle r env ms ds v) : ∀ d ∈ ds, Below r d.actor := by
  have worked : ∀ {v u : World} {a : Address} {expired : Bool}, Below r a →
      v.work? a expired = some u → ∀ d ∈ v.workDeeds a expired, Below r d.actor := by
    intro v u a expired ha hs d hd
    obtain ⟨k, hk, -⟩ := stride_of_work? hs
    exact (doing_of_work? hk hs).actor d hd ▸ ha
  induction h with
  | start => exact fun d hd => by cases hd
  | @move ms ds v u m _ own step ih =>
    refine fun d hd => (List.mem_append.1 hd).elim (ih d) fun hd => ?_
    cases m with
    | work a => exact worked own step d hd
    | expire a => exact worked own step d hd
    | _ => cases hd
  | await _ ih => exact ih
  | others _ _ ih => exact ih

lemma Pages.exists_worker (h : v.Pages r ds) (hb : Below r b) (hd : diary ds b ≠ {}) :
    ∃ k, v.workers b = some k := by
  cases hk : v.workers b with
  | none => exact absurd (h.blank b hb hk) hd
  | some k => exact ⟨k, rfl⟩

/-- Whoever has published something still goes on, or has told its run that it has succeeded. -/
lemma Pages.busy_or_told (h : v.Pages r ds) (hb : Below r b) (hx : .sent b c x ∈ ds) :
    v.busy b = true ∨ .told b (.ok ()) ∈ ds := by
  have hmem : (c, x) ∈ (diary ds b).sent := mem_diary_sent.2 hx
  obtain ⟨k, hk⟩ := h.exists_worker hb fun hd => by simp [hd] at hmem
  have hpage := h.page b k hb hk
  rw [busy_of_some hk]
  cases hs : k.stage with
  | sending ready total => exact .inl rfl
  | ended result => exact .inl rfl
  | reported result =>
    rw [hs] at hpage
    obtain ⟨hclosed, htold⟩ := hpage
    cases result with
    | ok u => exact .inr (mem_diary_told.1 (htold ▸ List.mem_singleton_self _))
    | error e =>
      rw [hclosed.2] at hmem
      cases hmem
  | checking produced =>
    rw [hs] at hpage
    rw [hpage.choose_spec.2.1] at hmem
    cases hmem
  | inside inner =>
    rw [hs] at hpage
    rw [hpage.choose_spec.choose_spec.1] at hmem
    cases hmem
  | _ =>
    rw [hs] at hpage
    rw [hpage.choose_spec.1] at hmem
    cases hmem

/-- Whoever still gathers has told its run nothing. -/
lemma Pages.untold (h : v.Pages r ds) (ha : Below r a) (hk : v.workers a = some k)
    {got : Payload} {rest : List Channel} (hs : k.stage = .gathering got rest)
    (result : Except ExecutionError Unit) : .told a result ∉ ds := by
  intro hmem
  have hpage := h.page a k ha hk
  rw [hs] at hpage
  have htold := mem_diary_told.2 hmem
  rw [hpage.choose_spec.1] at htold
  cases htold

/-- Whoever has succeeded has taken a value from each of its inputs. -/
lemma Pages.took_of_reported (h : v.Pages r ds) (ha : Below r a) (hk : v.workers a = some k)
    (hs : k.stage = .reported (.ok ())) (hin : c ∈ k.node.inputs) : ∃ x, .took a c x ∈ ds := by
  have hpage := h.page a k ha hk
  rw [hs] at hpage
  obtain ⟨⟨result, hworked, -⟩, -⟩ := hpage
  obtain ⟨inputs, hgathered⟩ := hworked.gathered'
  rw [← hgathered.channels] at hin
  obtain ⟨⟨c, x⟩, htaken, rfl⟩ := List.mem_map.1 hin
  exact ⟨x, mem_diary_taken.1 htaken⟩

/-- A value is taken by a worker that gathers, from a channel that holds one. -/
lemma Doing.took_inv (h : w.Doing w' a k es) (hx : .took b c x ∈ es) :
    b = a ∧ (∃ got rest, k.stage = .gathering got (c :: rest)) ∧ (w.conduit c).queue ≠ [] := by
  cases h with
  | took stage shift queue others =>
    obtain ⟨rfl, rfl, rfl⟩ := Deed.took.inj (List.mem_singleton.1 hx)
    refine ⟨rfl, ⟨_, _, stage⟩, ?_⟩
    rw [conduit, queue]
    exact List.cons_ne_nil _ _
  | left => simp at hx
  | missed => simp at hx
  | _ => simp at hx

/-! ### Channels with one writer -/

/-- What comes to `c`, a channel of the level at `path`, comes from the worker for the node `j` of
that level: the channel held nothing before the run and got no seed, nobody from outside puts
anything on it, and no other worker has published on it. -/
structure FedBy (w : World) (r : Address) (env : World → World → Prop) (seeds : Payload)
    (ds : List Deed) (path : Address) (c : Channel) (j : Nat) : Prop where
  empty : (w.conduit c).queue = []
  unseeded : (seedsOf r seeds ds path).get? c.name = none
  unfed : ∀ x y, env x y → (y.conduit c).queue.Sublist (x.conduit c).queue
  sole : ∀ a x, .sent a c x ∈ ds → a = j :: (path ++ r)

/-- A level that has no seed in the end had none before. -/
lemma seedsOf_of_append (h : (seedsOf r seeds (ds ++ es) path).get? c.name = none) :
    (seedsOf r seeds ds path).get? c.name = none := by
  cases path with
  | nil => exact h
  | cons i path =>
    rw [seedsOf, diary_append, Diary.append_def] at h
    rw [seedsOf]
    cases hentered : (diary ds (i :: (path ++ r))).entered with
    | nil => rfl
    | cons inputs rest =>
      rw [hentered] at h
      exact h

lemma FedBy.of_append (h : w.FedBy r env seeds (ds ++ es) path c j) :
    w.FedBy r env seeds ds path c j :=
  ⟨h.empty, seedsOf_of_append h.unseeded, h.unfed,
    fun a x hx => h.sole a x (List.mem_append_left _ hx)⟩

/-- A composite that starts the run inside puts a value on no channel for which it has none. -/
lemma queue_of_entered (hlaid : p.Laid) (hc : v.Course r p) (hpages : v.Pages r ds)
    (ha : Below r a) (hk : v.workers a = some k) {inner : Pipeline} {inputs : Payload} {id : Nat}
    (hs : k.stage = .entering inner inputs) (he : v.Entered u a k inner id inputs)
    (hq : p.level? path = some q) (hch : c ∈ q.channels)
    (hseeds : (seedsOf r seeds (ds ++ [.entered a inputs]) path).get? c.name = none) :
    (u.conduit c).queue = (v.conduit c).queue := by
  obtain ⟨i, path', run, rfl, -, hpost, hlevel⟩ := hc.tree.place ha hk
  have hbelow := Pipeline.level?_cons hlevel hpost.node (hc.tree.inner_of_entering ha hk hs)
  by_cases hpath : path = i :: path'
  · subst hpath
    obtain rfl := Option.some.inj (hbelow.symm.trans hq)
    have hpage := hpages.page _ k ha hk
    rw [hs] at hpage
    obtain ⟨taken, hd, -⟩ := hpage
    have hnew : seedsOf r seeds (ds ++ [.entered (i :: (path' ++ r)) inputs]) (i :: path') =
        inputs := by
      rw [seedsOf, diary_append, hd, diary_entered]
      rfl
    rw [hnew] at hseeds
    rw [conduit, he.conduits, (hlaid.sound _ _ hbelow).queue_sow hch, Payload.values_eq, hseeds]
    exact List.append_nil _
  · rw [conduit, he.conduits, Pipeline.sow_of_forall_ne fun d hd hid => hpath ?_]
    · rfl
    · exact hlaid.apart _ _ _ _ _ _ hq hbelow hch hd hid.symm

/-- An empty channel on which a worker publishes nothing stays empty when the worker goes on. -/
lemma queue_of_work (hlaid : p.Laid) (hc : v.Course r p) (hpages : v.Pages r ds) (ha : Below r a)
    {expired : Bool} (hs : v.work? a expired = some u) (hq : p.level? path = some q)
    (hch : c ∈ q.channels)
    (hseeds : (seedsOf r seeds (ds ++ v.workDeeds a expired) path).get? c.name = none)
    (hunsent : sentTo (v.workDeeds a expired) c = []) (hempty : (v.conduit c).queue = []) :
    (u.conduit c).queue = [] := by
  obtain ⟨k, hk, -⟩ := stride_of_work? hs
  have hdo := doing_of_work? hk hs
  generalize v.workDeeds a expired = es at hdo hseeds hunsent
  rcases hdo.entry with ⟨inner, inputs, id, hstage, rfl, he⟩ | ⟨hne, -⟩
  · rw [queue_of_entered hlaid hc hpages ha hk hstage he hq hch hseeds, hempty]
  · obtain ⟨i, path', run, rfl, -, hpost, hlevel⟩ := hc.tree.place ha hk
    have hnode := List.mem_of_getElem? hpost.node
    have hflow := hdo.flow (c := c) hne (hpages.page _ k ha hk) (hc.tree.suits _ k ha hk)
      hc.lines.orderly fun e he hid => by
        rcases he with he | he | ⟨inner, hinner, he⟩
        · exact hlaid.eq_of_id hlevel hq (hlaid.input hlevel hnode he) hch hid
        · exact hlaid.eq_of_id hlevel hq (hlaid.output hlevel hnode he) hch hid
        · exact hlaid.eq_of_id (Pipeline.level?_cons hlevel hpost.node hinner) hq he hch hid
    rw [hempty, hunsent] at hflow
    exact (List.append_eq_nil_iff.1 hflow.symm).2

section

variable (hlaid : p.Laid) (hv : w.Vacant r) (ho : ∀ x, (w.conduits x).Orderly)
  (hstart : w.start r p seeds token runtime = .ok w₁) (henv : ∀ x y, env x y → x.Outside r y)

include hlaid hv ho hstart henv

/-- What is known of the diaries of a run that has been started. -/
lemma pages_of_start (h : w₁.Chronicle r env ms ds v) : v.Course r p ∧ v.Pages r ds := by
  have hl := (start_eq_ok hstart).2.2
  have hc : w₁.Course r p := course_of_plays hv ho hstart henv .start
  exact (pages_of_launched hv hl).chronicle hlaid hc henv h

/-- A channel that is fed by one worker is empty until that worker has published. -/
lemma queue_of_unsent (h : w₁.Chronicle r env ms ds v) (hq : p.level? path = some q)
    (hch : c ∈ q.channels) (hfed : w.FedBy r env seeds ds path c j) (hunsent : sentTo ds c = []) :
    (v.conduit c).queue = [] := by
  induction h with
  | start =>
    have hl := (start_eq_ok hstart).2.2
    cases path with
    | nil =>
      obtain rfl := Option.some.inj hq
      have hnone : seeds.get? c.name = none := hfed.unseeded
      rw [conduit, hl.conduits, (hlaid.sound _ _ hq).queue_sow hch, Payload.values_eq, hnone]
      exact (List.append_nil _).trans hfed.empty
    | cons i path =>
      rw [conduit, hl.conduits, Pipeline.sow_of_forall_ne fun d hd hid => ?_]
      · exact hfed.empty
      · have := hlaid.apart _ _ _ _ _ _ hq (Pipeline.level?_nil p) hch hd hid.symm
        cases this
  | @move ms ds v u m before own step ih =>
    rw [sentTo_append, List.append_eq_nil_iff] at hunsent
    have hempty := ih hfed.of_append hunsent.1
    obtain ⟨hc, hpages⟩ := pages_of_start hlaid hv ho hstart henv before
    have turned : ∀ {y : Address} {run : Run}, v.Turned u y run → (u.conduit c).queue = [] :=
      fun ht => by
        rw [conduit, ht.conduits]
        exact hempty
    cases m with
    | work a =>
      exact queue_of_work hlaid hc hpages own step hq hch hfed.unseeded hunsent.2 hempty
    | expire a =>
      exact queue_of_work hlaid hc hpages own step hq hch hfed.unseeded hunsent.2 hempty
    | collect y =>
      cases collected_of_collect? step with
      | success _ _ _ _ ht => exact turned ht
      | failure _ _ _ _ _ ht => exact turned ht
    | conclude y =>
      obtain ⟨_, _, _, hcon⟩ := concluded_of_conclude? step
      exact turned hcon.turned
    | cancel t => exact own.elim
  | await before ih =>
    rw [conduit, (await_others _ r).2.1]
    exact ih hfed hunsent
  | others before act ih => exact List.sublist_nil.1 (ih hfed hunsent ▸ hfed.unfed _ _ act)

/-- If only one node has the channel among its outputs, only its worker publishes on it. -/
lemma sole_of_outputs (h : w₁.Chronicle r env ms ds v) (hq : p.level? path = some q)
    (hch : c ∈ q.channels) (hone : ∀ i n, q.nodes[i]? = some n → c ∈ n.outputs → i = j) {y : Value}
    (hy : .sent a c y ∈ ds) : a = j :: (path ++ r) := by
  obtain ⟨hc, hpages⟩ := pages_of_start hlaid hv ho hstart henv h
  have hmem : (c, y) ∈ (diary ds a).sent := mem_diary_sent.2 hy
  have ha : Below r a := h.actor_below _ hy
  obtain ⟨k, hk⟩ := hpages.exists_worker ha fun hd => by simp [hd] at hmem
  obtain ⟨i, path', run, rfl, -, hpost, hlevel⟩ := hc.tree.place ha hk
  have hout : c ∈ k.node.outputs :=
    (hpages.page _ k ha hk).proper.sent.subset (List.mem_map.2 ⟨_, hmem, rfl⟩)
  have hin := hlaid.output hlevel (List.mem_of_getElem? hpost.node) hout
  obtain rfl := hlaid.apart _ _ _ _ _ _ hlevel hq hin hch rfl
  obtain rfl := Option.some.inj (hlevel.symm.trans hq)
  rw [hone i _ hpost.node hout]

/-! ### Writers come first -/

/-- When the worker `i` takes a value from a channel that the worker `j` feeds, `j` has told its
run that it has succeeded, and `i` has told nothing yet. -/
lemma told_of_took (h : w₁.Chronicle r env ms ds v) (hq : p.level? path = some q) (ha : Below r a)
    {expired : Bool} (hs : v.work? a expired = some u)
    (hturn : ∀ b, Below r b → v.busy b = true → b = a)
    (hx : .took (i :: (path ++ r)) c x ∈ v.workDeeds a expired)
    (hfed : w.FedBy r env seeds ds path c j) :
    .told (j :: (path ++ r)) (.ok ()) ∈ ds ∧
      ∀ result, .told (i :: (path ++ r)) result ∉ ds := by
  obtain ⟨hc, hpages⟩ := pages_of_start hlaid hv ho hstart henv h
  obtain ⟨k, hk, -⟩ := stride_of_work? hs
  obtain ⟨rfl, ⟨got, rest, hstage⟩, hqueue⟩ := (doing_of_work? hk hs).took_inv hx
  refine ⟨?_, hpages.untold ha hk hstage⟩
  have hch : c ∈ q.channels := by
    obtain ⟨run, hrun, hpost⟩ := hc.tree.posted _ i k (List.suffix_append path r) hk
    obtain rfl := Option.some.inj ((hc.tree.level hrun).symm.trans hq)
    have hsuits := hc.tree.suits _ k ha hk
    rw [hstage] at hsuits
    exact hlaid.input hq (List.mem_of_getElem? hpost.node) (hsuits.2.subset List.mem_cons_self)
  obtain ⟨y, hy⟩ := List.exists_mem_of_ne_nil (sentTo ds c) fun hnil =>
    hqueue (queue_of_unsent hlaid hv ho hstart henv h hq hch hfed hnil)
  obtain ⟨b, hsent⟩ := mem_sentTo.1 hy
  obtain rfl := hfed.sole b y hsent
  refine (hpages.busy_or_told (h.actor_below _ hsent) hsent).resolve_left fun hbusy => ?_
  -- only the reader itself could be at work, and it gathers
  rw [hturn _ (h.actor_below _ hsent) hbusy, busy_of_some hk, hstage] at hbusy
  cases hbusy

/-- Whatever was taken from a channel that one worker feeds was taken when that worker had told
its success, and before the reader told anything. -/
lemma Turnwise.told_before (h : w₁.Turnwise r env ms ds v) (hq : p.level? path = some q)
    (hx : .took (i :: (path ++ r)) c x ∈ ds) (hfed : w.FedBy r env seeds ds path c j) :
    ∃ early late, ds = early ++ late ∧ .told (j :: (path ++ r)) (.ok ()) ∈ early ∧
      ∀ result, .told (i :: (path ++ r)) result ∉ early := by
  induction h with
  | start => cases hx
  | @move ms ds v u m before own turn step ih =>
    rcases List.mem_append.1 hx with hx | hx
    · obtain ⟨early, late, rfl, hearly⟩ := ih hx hfed.of_append
      exact ⟨early, late ++ v.deeds m, List.append_assoc _ _ _, hearly⟩
    · refine ⟨ds, v.deeds m, rfl, ?_⟩
      cases m with
      | work a =>
        exact told_of_took hlaid hv ho hstart henv before.chronicle hq own step (turn a rfl) hx
          hfed.of_append
      | expire a =>
        exact told_of_took hlaid hv ho hstart henv before.chronicle hq own step (turn a rfl) hx
          hfed.of_append
      | _ => cases hx
  | await _ ih => exact ih hx hfed
  | others _ _ ih => exact ih hx hfed

end

/-! ### The order of a report -/

/-- Whoever is in the front part of a list, and not only behind it, comes first. -/
lemma idxOf_lt_of_split {α : Type} [BEq α] [LawfulBEq α] {early late : List α} {y z : α}
    (hy : y ∈ early) (hz : z ∉ early) : (early ++ late).idxOf y < (early ++ late).idxOf z := by
  rw [List.idxOf_append_of_mem hy, List.idxOf_append_of_notMem hz]
  exact Nat.lt_add_right _ (List.idxOf_lt_length_of_mem hy)

/-- The node `i` of a level reads a channel that the node `j` feeds. -/
def Needs (q : Pipeline) (fed : Channel → Nat → Prop) (j i : Nat) : Prop :=
  ∃ n c, q.nodes[i]? = some n ∧ c ∈ n.inputs ∧ fed c j

/-- In the run of `q` at `b`, whose workers have done `ds`, outcomes arrive in the order in which
nodes depend on each other, where `fed` says which channels are fed by one node alone. -/
structure InOrder (v : World) (b : Address) (q : Pipeline) (ds : List Deed)
    (fed : Channel → Nat → Prop) : Prop where
  /-- The outcomes are those in the mailbox of the run, and those that its receiver has seen. -/
  heard : ∀ run, v.runs b = some run → run.Heard (outcomes q b ds)
  /-- Where a node has taken a value, the success of the node that feeds the channel arrived before
  the outcome of the reader, if that has arrived. -/
  arrived : ∀ i n c x j, q.nodes[i]? = some n → .took (i :: b) c x ∈ ds → fed c j →
    ∃ m early late, q.nodes[j]? = some m ∧ outcomes q b ds = early ++ late ∧
      ⟨m.name, .ok ()⟩ ∈ early ∧ ∀ o ∈ early, o.node ≠ n.name
  /-- A success lists every node once, and whatever a node needs before the node. -/
  extended : ∀ run report, v.runs b = some run → run.collector = .returned (.ok report) →
    report.completed.Perm (q.nodes.map (·.name)) ∧ report.completed.Nodup ∧
      ∀ j i m n, Relation.TransGen (Needs q fed) j i → q.nodes[j]? = some m →
        q.nodes[i]? = some n →
          report.completed.idxOf m.name < report.completed.idxOf n.name

/-- An outcome of the node `i` was told by its worker. -/
lemma told_of_mem_outcomes (hs : q.Sound) (hn : q.nodes[i]? = some n) {o : Outcome}
    (ho : o ∈ outcomes q b ds) (hname : o.node = n.name) : .told (i :: b) o.result ∈ ds := by
  obtain ⟨d, hd, hout⟩ := List.mem_filterMap.1 ho
  cases d with
  | told a result =>
    cases a with
    | nil => cases hout
    | cons j a =>
      simp only [Deed.outcome?] at hout
      split at hout
      · next hab =>
        subst hab
        obtain ⟨m, hm, rfl⟩ := Option.map_eq_some_iff.1 hout
        obtain rfl : m = n := List.inj_on_of_nodup_map hs.labels (List.mem_of_getElem? hm)
          (List.mem_of_getElem? hn) hname
        rwa [hs.index_unique hn hm]
      · cases hout
  | _ => cases hout

/-- **Completion respects dependence**, on every level of a run, for nodes of every kind, however
the run fares and whatever others do, as long as workers are interrupted only where they wait. If a
node has taken a value from a channel that was empty and unseeded and that one node alone feeds,
the success of that node is in the queue of outcomes before the outcome of the reader; and a
successful report is a linear extension of the dependence that comes of such channels. -/
theorem completion_respects_dependence (hlaid : p.Laid) (hv : w.Vacant r)
    (ho : ∀ x, (w.conduits x).Orderly) (hstart : w.start r p seeds token runtime = .ok w₁)
    (henv : ∀ x y, env x y → x.Outside r y) (h : w₁.Turnwise r env ms ds v)
    (hq : p.level? path = some q) :
    v.InOrder (path ++ r) q ds (w.FedBy r env seeds ds path) := by
  have hchronicle := h.chronicle
  have houtside := hchronicle.mono henv
  obtain ⟨hc, hpages⟩ := pages_of_start hlaid hv ho hstart henv hchronicle
  have hsound := hlaid.sound _ _ hq
  have hb : r <:+ path ++ r := List.suffix_append path r
  have level : ∀ {run}, v.runs (path ++ r) = some run → run.pipeline = q := fun hrun =>
    Option.some.inj ((hc.tree.level hrun).symm.trans hq)
  have harrived : ∀ i n c x j, q.nodes[i]? = some n → .took (i :: (path ++ r)) c x ∈ ds →
      w.FedBy r env seeds ds path c j → ∃ m early late, q.nodes[j]? = some m ∧
        outcomes q (path ++ r) ds = early ++ late ∧ ⟨m.name, .ok ()⟩ ∈ early ∧
          ∀ o ∈ early, o.node ≠ n.name := by
    intro i n c x j hn hx hfed
    obtain ⟨early, late, rfl, htold, huntold⟩ := h.told_before hlaid hv ho hstart henv hq hx hfed
    have hj : Below r (j :: (path ++ r)) := below_cons.2 hb
    obtain ⟨k, hk⟩ := hpages.exists_worker hj fun hd => by
      have hmem := mem_diary_told.2 (List.mem_append_left late htold)
      simp [hd] at hmem
    obtain ⟨run, hrun, hpost⟩ := hc.tree.posted _ j k hb hk
    have hm := hpost.node
    rw [level hrun] at hm
    exact ⟨k.node, _, _, hm, outcomes_append q _ early late, mem_outcomes hm htold,
      fun o ho hname => huntold _ (told_of_mem_outcomes hsound hn ho hname)⟩
  refine ⟨fun run hrun => ?heard, harrived, fun run report hrun hreport => ?extended⟩
  case heard =>
    have hheard := (tally_of_chronicle hv ho hstart houtside).heard _ run hb hrun
    rwa [level hrun] at hheard
  case extended =>
    obtain ⟨hjoins, -⟩ := wait_reports_faithfully hv ho hstart houtside hb hrun
    have hperm := hjoins.completed report hreport
    obtain ⟨-, hall, hlist⟩ := (hjoins.success report).1 hreport
    rw [level hrun] at hperm hlist
    refine ⟨hperm, hperm.nodup_iff.2 hsound.labels, ?_⟩
    have single : ∀ {j i m n}, Needs q (w.FedBy r env seeds ds path) j i →
        q.nodes[j]? = some m → q.nodes[i]? = some n →
          report.completed.idxOf m.name < report.completed.idxOf n.name := by
      rintro j i m n ⟨n', c, hn', hin, hfed⟩ hm hn
      obtain rfl := Option.some.inj (hn.symm.trans hn')
      obtain ⟨k, hk⟩ := hc.tree.manned _ i run n hb hrun (by rw [level hrun, hn])
      obtain ⟨run', hrun', hpost⟩ := hc.tree.posted _ i k hb hk
      obtain rfl := Option.some.inj (hrun.symm.trans hrun')
      have hnode := hpost.node
      rw [level hrun] at hnode
      obtain rfl := Option.some.inj (hn.symm.trans hnode)
      obtain ⟨x, hx⟩ := hpages.took_of_reported (below_cons.2 hb) hk (hall i k hk) hin
      obtain ⟨m', early, late, hm', hsplit, hearly, hlate⟩ := harrived i k.node c x j hn hx hfed
      obtain rfl := Option.some.inj (hm.symm.trans hm')
      rw [hlist, hsplit, List.map_append]
      refine idxOf_lt_of_split (List.mem_map_of_mem hearly) fun hmem => ?_
      obtain ⟨o, ho, hname⟩ := List.mem_map.1 hmem
      exact hlate o ho hname
    intro j i m n hneeds hm hn
    induction hneeds using Relation.TransGen.head_induction_on generalizing m with
    | single hneed => exact single hneed hm hn
    | head hneed _ ih =>
      obtain ⟨between, -, hbetween, -⟩ := id hneed
      exact (single hneed hm hbetween).trans (ih between hbetween)

/-! ### The line in turns -/

/-- The world after these moves, if each of them can be made and no worker is interrupted that
cannot be. `last` is the worker that took the last step before. -/
def stepsInTurn (v : World) (last : Address) : List Move → Option World
  | [] => some v
  | m :: rest =>
    match m.worker?, v.step? m with
    | none, some u => u.stepsInTurn last rest
    | some a, some u => if v.busy last ∧ a ≠ last then none else u.stepsInTurn a rest
    | _, none => none

lemma busy_new (n : Node) (token : Token) (limit : Option Duration) :
    (Worker.new n token limit).stage.engaged = false := by
  rcases n.gather_cases .empty n.inputs with
    ⟨c, cs, -, hg⟩ | ⟨-, ⟨logic, -, hg⟩ | ⟨inner, -, hg⟩⟩ <;> rw [Worker.new, hg] <;> rfl

/-- Nobody is busy when a run has just started. -/
lemma busy_of_launched (hv : w.Vacant r) (hl : w.Launched v r p seeds token) (hb : Below r b) :
    v.busy b = false := by
  by_cases hi : ∃ i, b = i :: r
  · obtain ⟨i, rfl⟩ := hi
    rw [busy, hl.worker_new hv]
    cases p.nodes[i]? with
    | none => rfl
    | some n => exact busy_new _ _ _
  · rw [busy, hl.worker_old hv hb fun i h => hi ⟨i, h⟩]
    rfl

/-- Only the worker that takes a step can become busy by it. -/
lemma busy_of_step (ht : v.Tree r p) {m : Move} (hm : m.Of r) (hs : v.step? m = some u)
    (hbusy : u.busy b = true) : b ∈ m.worker? ∨ v.busy b = true := by
  have worked : ∀ {a : Address} {expired : Bool}, Below r a → v.work? a expired = some u →
      b = a ∨ v.busy b = true := by
    intro a expired ha hs
    obtain ⟨k, hk, hst⟩ := stride_of_work? hs
    by_cases hba : b = a
    · exact .inl hba
    · rcases ht.worker_of_ne ha hk hst hba with hsame | ⟨-, n, token, limit, hnew⟩
      · exact .inr (by rwa [busy, hsame] at hbusy)
      · rw [busy_of_some hnew, busy_new] at hbusy
        cases hbusy
  have turned : ∀ {y : Address} {run : Run}, v.Turned u y run → v.busy b = true := fun ht => by
    rwa [busy, ht.workers] at hbusy
  cases m with
  | work a => exact (worked hm hs).imp_left fun h => congrArg some h.symm
  | expire a => exact (worked hm hs).imp_left fun h => congrArg some h.symm
  | collect y =>
    cases collected_of_collect? hs with
    | success _ _ _ _ ht => exact .inr (turned ht)
    | failure _ _ _ _ _ ht => exact .inr (turned ht)
  | conclude y =>
    obtain ⟨_, _, _, hcon⟩ := concluded_of_conclude? hs
    exact .inr (turned hcon.turned)
  | cancel t => exact hm.elim

lemma Turnwise.steps {last : Address} {ns : List Move} (h : w.Turnwise r env ms ds v)
    (hc : v.Course r p) (hlast : ∀ b, Below r b → v.busy b = true → b = last)
    (hof : ∀ m ∈ ns, m.Of r) (hs : v.stepsInTurn last ns = some u) :
    ∃ es, w.Turnwise r env (ms ++ ns) es u := by
  induction ns generalizing ms ds v last with
  | nil =>
    obtain rfl := Option.some.inj hs
    exact ⟨ds, by rwa [List.append_nil]⟩
  | cons m rest ih =>
    have hown := hof m List.mem_cons_self
    have onward : ∀ {u' : World} {last' : Address}, v.step? m = some u' → v.Turn r m →
        (∀ b, Below r b → u'.busy b = true → b = last') → u'.stepsInTurn last' rest = some u →
          ∃ es, w.Turnwise r env (ms ++ m :: rest) es u := by
      intro u' last' hu hturn hlast' hs
      obtain ⟨es, hes⟩ := ih (h.move hown hturn hu) (hc.step hown hu) hlast'
        (fun m' hm' => hof m' (List.mem_cons_of_mem _ hm')) hs
      exact ⟨es, by rwa [List.append_assoc] at hes⟩
    rw [stepsInTurn] at hs
    split at hs
    · next u' hm hu =>
      refine onward hu (fun a ha => ?_) (fun b hb hbusy => ?_) hs
      · rw [hm] at ha
        cases ha
      · rcases busy_of_step hc.tree hown hu hbusy with hb' | hbusy
        · rw [hm] at hb'
          cases hb'
        · exact hlast b hb hbusy
    · next a u' hm hu =>
      split at hs
      · cases hs
      · next hturn =>
        have mine : ∀ b, Below r b → v.busy b = true → b = a := fun b hb hbusy => by
          obtain rfl := hlast b hb hbusy
          by_contra hne
          exact hturn ⟨hbusy, Ne.symm hne⟩
        refine onward hu (fun a' ha' => ?_) (fun b hb hbusy => ?_) hs
        · obtain rfl : a = a' := Option.some.inj (hm.symm.trans ha')
          exact mine
        · rcases busy_of_step hc.tree hown hu hbusy with hb' | hbusy
          · exact (Option.some.inj (hm.symm.trans hb')).symm
          · exact mine b hb hbusy
    · cases hs

/-- What the run at `r` has reported. -/
def reported? (v : World) (r : Address) : Option Report :=
  match (v.runs r).map Run.collector with
  | some (.returned (.ok report)) => some report
  | _ => none

lemma reported?_eq_some {report : Report} (h : v.reported? r = some report) :
    ∃ run, v.runs r = some run ∧ run.collector = .returned (.ok report) := by
  unfold reported? at h
  split at h
  · next report' hrun =>
    obtain rfl := Option.some.inj h
    exact Option.map_eq_some_iff.1 hrun
  · cases h

/-- The source, the relay as a composite, and the sink of the line take turns, and each of them is
heard before the one that reads its channel has taken a value. -/
theorem line_in_order : ∃ w₁ ms ds v run, ({ initial with fresh := 6 } : World).start [6] line
    .empty [6] true = .ok w₁ ∧ w₁.Turnwise [6] Alone ms ds v ∧ v.runs [6] = some run ∧
    run.collector = .returned (.ok ⟨"line", ["s", "t", "z"]⟩) ∧
    ({ initial with fresh := 6 } : World).FedBy [6] Alone .empty ds [] ⟨2, "a", .text⟩ 0 ∧
    ({ initial with fresh := 6 } : World).FedBy [6] Alone .empty ds [] ⟨3, "b", .text⟩ 1 ∧
    v.InOrder [6] line ds (({ initial with fresh := 6 } : World).FedBy [6] Alone .empty ds []) := by
  let source : List Move := List.replicate 5 (.work [0, 6])
  let relayed : List Move := List.replicate 6 (.work [0, 1, 6])
  let moves : List Move := [.work [1, 6], .work [2, 6]] ++ source ++ [.work [1, 6], .work [1, 6]] ++
    relayed ++ [.collect [1, 6], .conclude [1, 6]] ++ List.replicate 5 (.work [1, 6]) ++
    List.replicate 5 (.work [2, 6]) ++ List.replicate 3 (.collect [6]) ++ [.conclude [6]]
  have hvalid : ({ initial with fresh := 6 } : World).validate line .empty = .ok () :=
    validate_eq_ok.2 ⟨rfl, fun _ => by cbv⟩
  obtain ⟨w₁, hw₁⟩ : ∃ w₁, w₁ = (({ initial with fresh := 6 } : World).markStarted line).launch
      [6] line [6] := ⟨_, rfl⟩
  have hw : ({ initial with fresh := 6 } : World).start [6] line .empty [6] true = .ok w₁ := by
    rw [hw₁, start, hvalid]
    rfl
  have hsteps : ((w₁.await [6]).stepsInTurn [] moves).bind (·.reported? [6]) =
      some ⟨"line", ["s", "t", "z"]⟩ := by
    rw [hw₁]
    decide +kernel
  obtain ⟨v, hv, hreport⟩ := Option.bind_eq_some_iff.1 hsteps
  obtain ⟨run, hrun, hcol⟩ := reported?_eq_some hreport
  have ho := outset_of_workshop workshop_line List.mem_cons_self hw fun path q hq => by
    rcases level?_line hq with rfl | rfl <;> rfl
  have henv : ∀ x y, Alone x y → x.Outside [6] y := fun _ _ h => h.elim
  have hawaited : w₁.Turnwise [6] Alone [] [] (w₁.await [6]) := .await .start
  have hc := (pages_of_start ho.ready.laid ho.vacant ho.orderly hw henv hawaited.chronicle).1
  have hidle : ∀ b, Below [6] b → (w₁.await [6]).busy b = true → b = [] := fun b hb hbusy => by
    rw [busy, (await_others _ _).1, ← busy, busy_of_launched ho.vacant (start_eq_ok hw).2.2 hb]
      at hbusy
    cases hbusy
  obtain ⟨ds, hplay⟩ := hawaited.steps hc hidle (by simp [moves, source, relayed, Move.Of]) hv
  have hlevel : line.level? [] = some line := Pipeline.level?_nil line
  have fed : ∀ c ∈ line.channels, ∀ j, (∀ i n, line.nodes[i]? = some n → c ∈ n.outputs → i = j) →
      ({ initial with fresh := 6 } : World).FedBy [6] Alone .empty ds [] c j := fun c hc j hone =>
    ⟨rfl, rfl, fun _ _ h => h.elim, fun a x hx => sole_of_outputs ho.ready.laid ho.vacant ho.orderly
      hw henv hplay.chronicle hlevel hc hone hx⟩
  refine ⟨w₁, _, ds, v, run, hw, hplay, hrun, hcol, fed _ (by simp [line]) 0 ?_,
    fed _ (by simp [line]) 1 ?_, completion_respects_dependence ho.ready.laid ho.vacant ho.orderly
      hw henv hplay hlevel⟩
  · rintro (_ | _ | _ | i) n hn hout
    · rfl
    all_goals cases hn
    all_goals simp at hout
  · rintro (_ | _ | _ | i) n hn hout
    · cases hn
      simp at hout
    · rfl
    all_goals cases hn
    all_goals simp at hout

end World

end Dataflow
