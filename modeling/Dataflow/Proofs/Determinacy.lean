import Dataflow.Proofs.Diagnosis
import Dataflow.Proofs.Ledger

/-!
Runs in which the order of the steps does not matter. Where no channel has two readers or two
writers, what comes to a channel is decided by its writer, and what a reader takes is decided by
the channel.

So no play gets ahead of one that has come to a standstill: whatever a worker has done in the one,
it has done in the other (`overtaken_of_chronicle`). Two standstills are ahead of each other, and
the ledger leaves the same on every channel in both (`standstills_agree`).
-/

namespace Dataflow

/-- Logic that replies alike to like inputs, however often it was called before. -/
def Logic.Steady (logic : Logic) : Prop :=
  ∀ i j inputs, (logic.act i inputs).reply = (logic.act j inputs).reply

namespace Pipeline

/-- No channel is read by two nodes, and none is written by two. -/
structure Direct (p : Pipeline) : Prop where
  readers : p.Unshared
  writers : ∀ n ∈ p.nodes, ∀ m ∈ p.nodes, ∀ c ∈ n.outputs, c ∈ m.outputs → n = m

/-- On every level channels go from one node to one, and logic is steady. -/
structure Determined (p : Pipeline) : Prop where
  direct : ∀ path q, p.level? path = some q → q.Direct
  steady : ∀ path q n logic, p.level? path = some q → n ∈ q.nodes → n.logic? = some logic →
    logic.Steady

lemma Sound.eq_of_names {q : Pipeline} {cs ds : List Channel} (hs : q.Sound)
    (hc : ∀ c ∈ cs, c ∈ q.channels) (hd : ∀ d ∈ ds, d ∈ q.channels)
    (h : cs.map (·.name) = ds.map (·.name)) : cs = ds := by
  induction cs generalizing ds with
  | nil => exact (List.map_eq_nil_iff.1 h.symm).symm
  | cons c cs ih =>
    obtain ⟨d, ds, rfl, hname, hrest⟩ := List.map_eq_cons_iff.1 h.symm
    obtain rfl := hs.eq_of_name (hd d List.mem_cons_self) (hc c List.mem_cons_self) hname
    rw [ih (fun e he => hc e (List.mem_cons_of_mem _ he))
      (fun e he => hd e (List.mem_cons_of_mem _ he)) hrest.symm]

end Pipeline

@[ext]
lemma Payload.ext {got got' : Payload} (h : got.entries = got'.entries) : got = got' := by
  obtain ⟨entries, _⟩ := got
  obtain rfl : entries = got'.entries := h
  rfl

lemma Gathered.inputs_eq {n : Node} {taken : List (Channel × Value)} {inputs inputs' : Payload}
    (h : Gathered n taken inputs) (h' : Gathered n taken inputs') : inputs' = inputs :=
  Payload.ext (h'.entries.trans h.entries.symm)

lemma Worked.results_eq {n : Node} {d : Diary} {result : Payload} (h : Worked n d result) :
    d.results = [result] := by
  cases h <;> assumption

namespace Diary

/-- Each kind of deed in `d` is the beginning of the same kind in `e`. -/
structure Within (d e : Diary) : Prop where
  taken : d.taken <+: e.taken
  called : d.called <+: e.called
  entered : d.entered <+: e.entered
  gained : d.gained <+: e.gained
  results : d.results <+: e.results
  sent : d.sent <+: e.sent
  told : d.told <+: e.told

lemma within_empty (e : Diary) : ({} : Diary).Within e := by
  constructor <;> exact List.nil_prefix

lemma Within.antisymm {d e : Diary} (h : d.Within e) (h' : e.Within d) : d = e := by
  have eq_of {α : Type} {l m : List α} (h : l <+: m) (h' : m <+: l) : l = m :=
    h.eq_of_length_le h'.length_le
  obtain ⟨_, _, _, _, _, _, _⟩ := d
  obtain ⟨_, _, _, _, _, _, _⟩ := e
  simp only [mk.injEq]
  exact ⟨eq_of h.taken h'.taken, eq_of h.called h'.called, eq_of h.entered h'.entered,
    eq_of h.gained h'.gained, eq_of h.results h'.results, eq_of h.sent h'.sent,
    eq_of h.told h'.told⟩

end Diary

/-! ### Values under labels -/

section

variable {es fs : List (Channel × Value)} {c : Channel}

/-- Lists with the same labels are equal if they agree on the values of each label. -/
lemma eq_of_valuesOn (hlabels : es.map Prod.fst = fs.map Prod.fst)
    (h : ∀ c, valuesOn es c = valuesOn fs c) : es = fs := by
  induction es generalizing fs with
  | nil => exact (List.map_eq_nil_iff.1 hlabels.symm).symm
  | cons e rest ih =>
    obtain ⟨f, fs, rfl, hf, hrest⟩ := List.map_eq_cons_iff.1 hlabels.symm
    obtain ⟨c, x⟩ := e
    obtain ⟨d, y⟩ := f
    obtain rfl : d = c := hf
    have hhead := h d
    simp only [valuesOn_cons, if_true] at hhead
    obtain ⟨rfl, -⟩ := List.cons.inj hhead
    refine congrArg _ (ih hrest.symm fun c => ?_)
    have hc := h c
    simp only [valuesOn_cons] at hc
    split at hc
    · exact (List.cons.inj hc).2
    · exact hc

/-- It is enough that the values of each label begin the same list. -/
lemma eq_of_valuesOn_prefix (values : Channel → List Value)
    (hlabels : es.map Prod.fst = fs.map Prod.fst)
    (hes : ∀ c ∈ es.map Prod.fst, valuesOn es c <+: values c)
    (hfs : ∀ c ∈ es.map Prod.fst, valuesOn fs c <+: values c) : es = fs := by
  refine eq_of_valuesOn hlabels fun c => ?_
  by_cases hc : c ∈ es.map Prod.fst
  · have hlength : (valuesOn es c).length = (valuesOn fs c).length := by
      rw [length_valuesOn, length_valuesOn, hlabels]
    exact (List.prefix_of_prefix_length_le (hes c hc) (hfs c hc) hlength.le).eq_of_length hlength
  · rw [valuesOn_of_notMem hc, valuesOn_of_notMem (hlabels ▸ hc)]

end

namespace World

variable {w w₁ v v' u : World} {r a : Address} {p q inner : Pipeline} {k ku : Worker}
  {seeds : Payload} {token : Token} {ds es : List Deed} {path : Address} {c : Channel} {i : Nat}
  {run : Run} {ms ns : List Move}

/-- What is known of a run in which nothing goes wrong, and of its deeds `ds`. -/
structure History (w v : World) (r : Address) (p : Pipeline) (seeds : Payload) (token : Token)
    (ds : List Deed) : Prop where
  course : v.Course r p
  smooth : w.Smooth v r p seeds token
  ledger : w.Ledger v r p seeds ds

lemma Outset.history (ho : w.Outset w₁ r p seeds token)
    (hans : ∀ ns u, w₁.Plays r Alone ns u → u.Answers r) (h : w₁.Chronicle r Alone ms ds v) :
    w.History v r p seeds token ds := by
  obtain ⟨hc, hs⟩ := smooth_of_plays ho hans h.plays
  exact ⟨hc, hs, (ledger_of_chronicle ho.ready.laid ho.vacant ho.orderly ho.start
    (h.mono fun _ _ hact => hact.elim)).2⟩

namespace History

variable (h : w.History v r p seeds token ds)

include h

lemma page (ha : Below r a) (hk : v.workers a = some k) : Page k.node (diary ds a) k.stage :=
  h.ledger.page a k ha hk

/-- A worker has gathered and perhaps gone inside, or its body has come to a result. -/
lemma early_or_worked (ha : Below r a) (hk : v.workers a = some k) :
    (¬ k.stage.Past ∧ ∃ taken entered, diary ds a = { taken, entered }) ∨
      k.stage.Past ∧ ∃ result, Worked k.node (diary ds a) result := by
  have hpage := h.page ha hk
  have hup := h.smooth.upright a k ha hk
  unfold Worker.Upright at hup
  have closed : ∀ {result}, Closed k.node (diary ds a) result → result = .ok () →
      ∃ result, Worked k.node (diary ds a) result := by
    rintro _ hclosed rfl
    exact ⟨_, hclosed.choose_spec.1⟩
  cases hs : k.stage <;> rw [hs] at hpage hup
  case gathering => exact .inl ⟨id, _, [], hpage.choose_spec.1⟩
  case calling => exact .inl ⟨id, _, [], hpage.choose_spec.1⟩
  case entering => exact .inl ⟨id, _, [], hpage.choose_spec.1⟩
  case inside => exact .inl ⟨id, _, _, hpage.choose_spec.choose_spec.1⟩
  case checking => exact .inr ⟨trivial, _, hpage.choose_spec.1⟩
  case sending => exact .inr ⟨trivial, _, hpage.choose_spec.1⟩
  case ended => exact .inr ⟨trivial, closed hpage.1 hup⟩
  case reported => exact .inr ⟨trivial, closed hpage.1 hup⟩

lemma worked (ha : Below r a) (hk : v.workers a = some k) (hpast : k.stage.Past) :
    ∃ result, Worked k.node (diary ds a) result :=
  (h.early_or_worked ha hk).elim (fun hearly => absurd hpast hearly.1) And.right

/-- Only a worker that is through with its body has a result. -/
lemma past_of_results (ha : Below r a) (hk : v.workers a = some k)
    (hresults : (diary ds a).results ≠ []) : k.stage.Past := by
  rcases h.early_or_worked ha hk with ⟨-, taken, entered, hd⟩ | ⟨hpast, -⟩
  · exact absurd (by rw [hd]) hresults
  · exact hpast

lemma reported_of_told (ha : Below r a) (hk : v.workers a = some k)
    (htold : (diary ds a).told ≠ []) : ∃ result, k.stage = .reported result := by
  have hpage := h.page ha hk
  rcases h.early_or_worked ha hk with ⟨-, taken, entered, hd⟩ | ⟨hpast, -⟩
  · exact absurd (by rw [hd]) htold
  · cases hs : k.stage <;> rw [hs] at hpage hpast
    case checking => exact absurd hpage.choose_spec.2.2.1 htold
    case sending => exact absurd hpage.choose_spec.2.2.1 htold
    case ended => exact absurd hpage.2 htold
    case reported result => exact ⟨result, rfl⟩
    all_goals exact hpast.elim

/-- Nobody calls logic more than once. -/
lemma called_once (ha : Below r a) : (diary ds a).called.length ≤ 1 := by
  cases hk : v.workers a with
  | none => simp [h.ledger.blank a ha hk]
  | some k =>
    rcases h.early_or_worked ha hk with ⟨-, taken, entered, hd⟩ | ⟨-, result, hworked⟩
    · simp [hd]
    · cases hworked with
      | logic body gathered called => simp [called]
      | inner body gathered called => simp [called]

/-- There is a run inside a composite as soon as it has gone inside. -/
lemma entered_iff (ha : Below r a) : (diary ds a).entered ≠ [] ↔ v.runs a ≠ none := by
  cases hk : v.workers a with
  | none => simp [h.ledger.blank a ha hk, h.course.tree.bare a ha hk]
  | some k =>
    have hpage := h.page ha hk
    have habove := h.course.tree.above a k ha hk
    rw [Worker.Above] at habove
    have outside : ∀ {taken}, diary ds a = { taken } → v.runs a = none →
        ((diary ds a).entered ≠ [] ↔ v.runs a ≠ none) := fun hd hrun => by simp [hd, hrun]
    have past : k.stage.Past → (∀ run, v.runs a = some run → Nested k.node k.token run ∧ run.Over) →
        ((diary ds a).entered ≠ [] ↔ v.runs a ≠ none) := by
      intro hpast hrun
      obtain ⟨result, hworked⟩ := h.worked ha hk hpast
      cases hworked with
      | logic body gathered called reply entered =>
        have hnone : v.runs a = none := Option.eq_none_iff_forall_ne_some.2 fun run hr => by
          have hinner := (hrun run hr).1.inner
          rw [Node.inner?_of_logic? body] at hinner
          cases hinner
        simp [entered, hnone]
      | inner body gathered called entered =>
        simp [entered, h.smooth.entered a k _ ha hk body hpast]
    cases hs : k.stage <;> rw [hs] at hpage habove
    case gathering => exact outside hpage.choose_spec.1 habove
    case calling => exact outside hpage.choose_spec.1 habove
    case entering => exact outside hpage.choose_spec.1 habove
    case inside =>
      obtain ⟨run, hrun, -⟩ := habove
      obtain ⟨taken, inputs, hd, -⟩ := hpage
      simp [hd, hrun]
    all_goals exact past (by rw [hs]; trivial) habove

/-! What was done with a channel stands in the diary of the one node that may do it. -/

lemma sentTo_eq (hlaid : p.Laid) (hdirect : q.Direct) (hq : p.level? path = some q)
    {n : Node} (hn : q.nodes[i]? = some n) (hc : c ∈ n.outputs) :
    sentTo ds c = valuesOn (diary ds (i :: (path ++ r))).sent c := by
  have hch := hlaid.output hq (List.mem_of_getElem? hn) hc
  refine Dataflow.sentTo_eq fun b x hx => ?_
  obtain ⟨j, k, rfl, -, hj, hout⟩ := h.ledger.sender hlaid h.course.tree hq hch hx
  have hnode := hdirect.writers _ (List.mem_of_getElem? hj) _ (List.mem_of_getElem? hn) c hout hc
  obtain rfl : j = i := (hlaid.sound _ _ hq).index_unique hj (hnode ▸ hn)
  rfl

lemma takenFrom_eq (hlaid : p.Laid) (hdirect : q.Direct) (hq : p.level? path = some q)
    {n : Node} (hn : q.nodes[i]? = some n) (hc : c ∈ n.inputs) :
    takenFrom ds c = valuesOn (diary ds (i :: (path ++ r))).taken c := by
  have hch := hlaid.input hq (List.mem_of_getElem? hn) hc
  refine Dataflow.takenFrom_eq fun b x hx => ?_
  obtain ⟨j, k, rfl, -, hj, hin⟩ := h.ledger.taker hlaid h.course.tree hq hch hx
  have hnode := hdirect.readers _ (List.mem_of_getElem? hj) _ (List.mem_of_getElem? hn) c hin hc
  obtain rfl : j = i := (hlaid.sound _ _ hq).index_unique hj (hnode ▸ hn)
  rfl

lemma gainedFrom_eq (hlaid : p.Laid) (hq : p.level? path = some q) (hc : c ∈ q.channels) :
    gainedFrom ds c = valuesOn (diary ds (path ++ r)).gained c :=
  Dataflow.gainedFrom_eq fun _ _ hx => (h.ledger.gainer hlaid h.course.tree hq hc hx).1

lemma sentTo_of_unwritten (hlaid : p.Laid) (hq : p.level? path = some q) (hc : c ∈ q.channels)
    (hno : ∀ n ∈ q.nodes, c ∉ n.outputs) : sentTo ds c = [] := by
  refine List.eq_nil_iff_forall_not_mem.2 fun x hx => ?_
  obtain ⟨b, hmem⟩ := mem_sentTo.1 hx
  obtain ⟨j, k, -, -, hj, hout⟩ := h.ledger.sender hlaid h.course.tree hq hc hmem
  exact hno _ (List.mem_of_getElem? hj) hout

lemma takenFrom_of_unread (hlaid : p.Laid) (hq : p.level? path = some q) (hc : c ∈ q.channels)
    (hno : ∀ n ∈ q.nodes, c ∉ n.inputs) : takenFrom ds c = [] := by
  refine List.eq_nil_iff_forall_not_mem.2 fun x hx => ?_
  obtain ⟨b, hmem⟩ := mem_takenFrom.1 hx
  obtain ⟨j, k, -, -, hj, hin⟩ := h.ledger.taker hlaid h.course.tree hq hc hmem
  exact hno _ (List.mem_of_getElem? hj) hin

/-! ### Workers at a standstill -/

/-- A worker without a step has done all that it had to do, or waits on an empty channel, or waits
for a run inside it in which somebody else has not come to an end. -/
lemma at_rest (ho : w.Outset w₁ r p seeds token) (hstill : v.Still r) (ha : Below r a)
    (hk : v.workers a = some k) :
    (∃ result, Worked k.node (diary ds a) result ∧ (diary ds a).sent = k.node.restrict result ∧
      (diary ds a).told = [.ok ()]) ∨
    (∃ got c rest, k.stage = .gathering got (c :: rest) ∧ (v.conduit c).queue = []) ∨
    ∃ inner j k', k.stage = .inside inner ∧ v.workers (j :: a) = some k' ∧
      ∀ result, k'.stage ≠ .reported result := by
  have hpage := h.page ha hk
  rcases h.smooth.worker_of_resting h.course ho hstill.resting h.smooth.aloof_nil ha ha.ne_nil hk
    with (hs | ⟨got, c, rest, hs, hempty, -⟩) | ⟨inner, below, hs, hbelow, hn, hnot⟩
  · rw [hs] at hpage
    obtain ⟨⟨result, hworked, hsent⟩, htold⟩ := hpage
    exact .inl ⟨result, hworked, hsent, htold⟩
  · exact .inr (.inl ⟨got, c, rest, hs, hempty⟩)
  · rcases receiver_of_resting h.course.tree hstill.resting ha.suffix hbelow hn.attended with
      hover | ⟨-, j, k', hk', hunrep⟩
    · exact absurd hover hnot
    · exact .inr (.inr ⟨inner, j, k', hs, hk', hunrep⟩)

/-- A worker at a standstill that is through with its body has done everything. -/
lemma done_of_past (ho : w.Outset w₁ r p seeds token) (hstill : v.Still r) (ha : Below r a)
    (hk : v.workers a = some k) (hpast : k.stage.Past) :
    ∃ result, Worked k.node (diary ds a) result ∧ (diary ds a).sent = k.node.restrict result ∧
      (diary ds a).told = [.ok ()] := by
  rcases h.at_rest ho hstill ha hk with hdone | ⟨_, _, _, hs, -⟩ | ⟨_, _, _, hs, -⟩
  · exact hdone
  · rw [hs] at hpast
    exact hpast.elim
  · rw [hs] at hpast
    exact hpast.elim

end History

/-- All that has been on a channel of the level at `path`, in its order. -/
def stream (w : World) (r : Address) (seeds : Payload) (ds : List Deed) (path : Address)
    (c : Channel) : List Value :=
  (w.conduit c).queue ++ ((seedsOf r seeds ds path).get? c.name).toList ++ sentTo ds c

lemma History.stream_eq (h : w.History v r p seeds token ds) (hq : p.level? path = some q)
    (hc : c ∈ q.channels) : w.stream r seeds ds path c =
      takenFrom ds c ++ gainedFrom ds c ++ (v.conduit c).queue := h.ledger.flow path q c hq hc

/-- What a composite collects is on channels inside that nobody reads there. -/
lemma Outset.unread_of_collected (ho : w.Outset w₁ r p seeds token) (hp : v.Place r p i path k run)
    (hinner : k.node.inner? = some inner)
    (hnames : (v.collections inner k.node.outputs).map (fun e => e.1.name) =
      k.node.outputs.map (·.name))
    (hc : c ∈ (v.collections inner k.node.outputs).map Prod.fst) :
    c ∈ inner.channels ∧ ∀ n ∈ inner.nodes, c ∉ n.inputs := by
  obtain ⟨e, he, rfl⟩ := List.mem_map.1 hc
  have hname : e.1.name ∈ k.node.outputs.map (·.name) := hnames ▸ List.mem_map.2 ⟨e, he, rfl⟩
  obtain ⟨o, hout, ho'⟩ := List.mem_map.1 hname
  refine ⟨mem_collections v inner _ e he, fun n hn hin => ?_⟩
  refine (ho.ready.fits hp.level hp.mem hinner).2.unread o hout (List.mem_flatMap.2 ⟨n, hn, ?_⟩)
  exact List.mem_map.2 ⟨e.1, hin, ho'.symm⟩

/-! ### One play and one standstill -/

/-- One play has led to `v` with the deeds `ds`, another to a standstill at `u` with the deeds
`es`; whatever anybody has done in the first, it has done in the second. -/
structure Overtaken (w v u : World) (r : Address) (p : Pipeline) (seeds : Payload) (token : Token)
    (ds es : List Deed) : Prop where
  here : w.History v r p seeds token ds
  there : w.History u r p seeds token es
  still : u.Still r
  ahead : ∀ a, Below r a → (diary ds a).Within (diary es a)

namespace Overtaken

variable (h : w.Overtaken v u r p seeds token ds es)

include h

/-- A run that has been started in the first play has been started in the second. -/
lemma run_there (hrun : v.runs (path ++ r) = some run) :
    ∃ run', u.runs (path ++ r) = some run' ∧ run'.pipeline = run.pipeline := by
  have hlevel := h.here.course.tree.level hrun
  have hsome : u.runs (path ++ r) ≠ none := by
    cases path with
    | nil =>
      obtain ⟨run', hrun', -⟩ := h.there.course.tree.root
      rw [List.nil_append, hrun']
      exact Option.some_ne_none _
    | cons j path =>
      have hb : Below r (j :: (path ++ r)) := List.suffix_append path r
      have hin := (h.here.entered_iff hb).2 (by rw [← List.cons_append, hrun]; simp)
      refine (h.there.entered_iff hb).1 fun hnil => hin ?_
      have hprefix := (h.ahead _ hb).entered
      rwa [hnil, List.prefix_nil] at hprefix
  obtain ⟨run', hrun'⟩ := Option.ne_none_iff_exists'.1 hsome
  exact ⟨run', hrun', Option.some.inj ((h.there.course.tree.level hrun').symm.trans hlevel)⟩

lemma worker_there (hp : v.Place r p i path k run) :
    ∃ ku, u.workers (i :: (path ++ r)) = some ku ∧ ku.node = k.node := by
  obtain ⟨run', hrun', hsame⟩ := h.run_there hp.running
  obtain ⟨ku, hku⟩ := h.there.course.tree.manned _ i run' k.node (List.suffix_append path r) hrun'
    (hsame ▸ hp.posted.node)
  have hpu := place_of_run h.there.course hrun' hku
  exact ⟨ku, hku, Option.some.inj (hpu.posted.node.symm.trans (hsame ▸ hp.posted.node))⟩

lemma seedsOf_eq (hrun : v.runs (path ++ r) = some run) :
    seedsOf r seeds ds path = seedsOf r seeds es path := by
  cases path with
  | nil => rfl
  | cons j path =>
    have hb : Below r (j :: (path ++ r)) := List.suffix_append path r
    have hin := (h.here.entered_iff hb).2 (by rw [← List.cons_append, hrun]; simp)
    obtain ⟨more, hmore⟩ := (h.ahead _ hb).entered
    rw [seedsOf, seedsOf, ← hmore, List.head?_append_of_ne_nil _ hin]

/-- What has come to a channel in the first play has come there in the second. -/
lemma stream (hlaid : p.Laid) (hdet : p.Determined) (hrun : v.runs (path ++ r) = some run)
    (hc : c ∈ run.pipeline.channels) :
    w.stream r seeds ds path c <+: w.stream r seeds es path c := by
  have hq := h.here.course.tree.level hrun
  rw [World.stream, World.stream, h.seedsOf_eq hrun, List.prefix_append_right_inj]
  by_cases hw : ∃ n ∈ run.pipeline.nodes, c ∈ n.outputs
  · obtain ⟨n, hn, hout⟩ := hw
    obtain ⟨i, hi⟩ := List.mem_iff_getElem?.1 hn
    have hdirect := hdet.direct _ _ hq
    rw [h.here.sentTo_eq hlaid hdirect hq hi hout, h.there.sentTo_eq hlaid hdirect hq hi hout]
    exact valuesOn_prefix (h.ahead _ (below_cons.2 (List.suffix_append path r))).sent c
  · rw [h.here.sentTo_of_unwritten hlaid hq hc fun n hn hout => hw ⟨n, hn, hout⟩]
    exact List.nil_prefix

/-- A worker that waits for a value, and that has taken no more in the second play, waits there
for a value from the same channel. -/
lemma waits_there (ho : w.Outset w₁ r p seeds token) (hp : v.Place r p i path k run)
    (hk : v.workers (i :: (path ++ r)) = some k) {got : Payload} {rest : List Channel}
    (hs : k.stage = .gathering got (c :: rest))
    (hsame : (diary es (i :: (path ++ r))).taken = (diary ds (i :: (path ++ r))).taken)
    (hku : u.workers (i :: (path ++ r)) = some ku) (hnode : ku.node = k.node) :
    (u.conduit c).queue = [] ∧ ∃ got' rest', ku.stage = .gathering got' (c :: rest') := by
  have hpage := h.here.page hp.below hk
  rw [hs] at hpage
  obtain ⟨taken, hd, hins, -⟩ := hpage
  rw [hd] at hsame
  have unfinished : taken.map Prod.fst ≠ k.node.inputs := by
    rw [← hins]
    simp
  rcases h.there.at_rest ho h.still hp.below hku with
    ⟨result, hworked, -⟩ | ⟨got', c', rest', hsu, hempty⟩ | ⟨inner, j, k', hsu, -⟩
  · obtain ⟨inputs, hgathered⟩ := hworked.gathered'
    have hall := hgathered.channels
    rw [hsame, hnode] at hall
    exact absurd hall unfinished
  · have hpage := h.there.page hp.below hku
    rw [hsu] at hpage
    obtain ⟨taken', hd', hins', -⟩ := hpage
    rw [hd'] at hsame
    obtain rfl : taken' = taken := hsame
    rw [hnode, ← hins] at hins'
    obtain ⟨rfl, -⟩ := List.cons.inj (List.append_cancel_left hins')
    exact ⟨hempty, got', rest', hsu⟩
  · have hpage := h.there.page hp.below hku
    rw [hsu] at hpage
    obtain ⟨taken', inputs, hd', hgathered⟩ := hpage
    rw [hd'] at hsame
    have hall := hgathered.channels
    rw [show taken' = taken from hsame, hnode] at hall
    exact absurd hall unfinished

/-- The next value for a worker in the first play is the one that it took there in the second. -/
lemma took (ho : w.Outset w₁ r p seeds token) (hdet : p.Determined)
    (hp : v.Place r p i path k run) (hk : v.workers (i :: (path ++ r)) = some k) {got : Payload}
    {rest : List Channel} (hs : k.stage = .gathering got (c :: rest)) {x : Value}
    {queue : List Value} (hqueue : (v.conduit c).queue = x :: queue) :
    (diary ds (i :: (path ++ r))).taken ++ [(c, x)] <+: (diary es (i :: (path ++ r))).taken := by
  have hlaid := ho.ready.laid
  obtain ⟨ku, hku, hnode⟩ := h.worker_there hp
  have hpage := h.here.page hp.below hk
  rw [hs] at hpage
  obtain ⟨taken, hd, hins, -⟩ := hpage
  obtain ⟨more, hmore⟩ := (h.ahead _ hp.below).taken
  simp only [hd] at hmore ⊢
  have hin : c ∈ k.node.inputs := hins ▸ by simp
  have hch := hp.input ho.ready hin
  have hdirect := hdet.direct _ _ hp.level
  have hnew : c ∉ taken.map Prod.fst := by
    have hnd := (List.Nodup.of_map _
      (Node.nodup_of_wiringFault? ((hlaid.sound _ _ hp.level).wired _ hp.mem)).1)
    rw [← hins, List.nodup_append] at hnd
    exact fun hmem => hnd.2.2 _ hmem c List.mem_cons_self rfl
  -- what the worker is about to take is the first value that ever came to the channel
  have hstream := h.stream hlaid hdet hp.running hch
  rw [h.here.stream_eq hp.level hch, h.there.stream_eq hp.level hch,
    h.here.takenFrom_eq hlaid hdirect hp.level hp.posted.node hin,
    h.there.takenFrom_eq hlaid hdirect hp.level hp.posted.node hin, hd, ← hmore,
    h.here.ledger.gainedFrom_of_gathering hlaid h.here.course hp.level hch hk hs, hqueue,
    valuesOn_append, valuesOn_of_notMem hnew] at hstream
  cases more with
  | nil =>
    -- it has not gone on in the second play, and so waits there, but not for nothing
    rw [List.append_nil] at hmore
    obtain ⟨hempty, got', rest', hsu⟩ :=
      h.waits_there ho hp hk hs (by rw [← hmore, hd]) hku hnode
    rw [h.there.ledger.gainedFrom_of_gathering hlaid h.there.course hp.level hch hku hsu,
      hempty] at hstream
    simp at hstream
  | cons e more =>
    obtain ⟨d, y⟩ := e
    have hsub := (h.there.page hp.below hku).proper.taken
    rw [← hmore, hnode, ← hins, List.map_append, List.prefix_append_right_inj, List.map_cons,
      List.cons_prefix_cons] at hsub
    obtain rfl : d = c := hsub.1
    rw [valuesOn_cons, if_pos rfl] at hstream
    obtain ⟨rfl, -⟩ := List.cons_prefix_cons.1 (by simpa using hstream)
    rw [← hmore, List.prefix_append_right_inj]
    simp

/-- Who has all its inputs in the first play has the same in the second, and has gone on there. -/
lemma gathered (ho : w.Outset w₁ r p seeds token) (hp : v.Place r p i path k run)
    {inputs : Payload} (hg : Gathered k.node (diary ds (i :: (path ++ r))).taken inputs) :
    (∀ inputs', Gathered k.node (diary es (i :: (path ++ r))).taken inputs' → inputs' = inputs) ∧
      ((∃ result, Worked k.node (diary es (i :: (path ++ r))) result) ∨
        ∃ ku inner, u.workers (i :: (path ++ r)) = some ku ∧ ku.node = k.node ∧
          ku.stage = .inside inner) := by
  obtain ⟨ku, hku, hnode⟩ := h.worker_there hp
  have hpage := h.there.page hp.below hku
  have hsub := hpage.proper.taken
  have hlength := hsub.length_le
  rw [hnode, ← hg.channels, List.length_map, List.length_map] at hlength
  have htaken := (h.ahead _ hp.below).taken.eq_of_length_le hlength
  refine ⟨fun inputs' hg' => (htaken ▸ hg).inputs_eq hg', ?_⟩
  rcases h.there.at_rest ho h.still hp.below hku with
    ⟨result, hworked, -⟩ | ⟨got, c, rest, hs, -⟩ | ⟨inner, -, -, hs, -⟩
  · exact .inl ⟨result, hnode ▸ hworked⟩
  · rw [hs] at hpage
    obtain ⟨taken, hd, hins, -⟩ := hpage
    have hall := hg.channels
    rw [htaken, hd] at hall
    rw [hnode, ← hall] at hins
    simp at hins
  · exact .inr ⟨ku, inner, hku, hnode, hs⟩

/-- Logic that is called in the first play has been called in the second, and alike. -/
lemma called (ho : w.Outset w₁ r p seeds token) (hdet : p.Determined)
    (hp : v.Place r p i path k run) (hk : v.workers (i :: (path ++ r)) = some k) {logic : Logic}
    {inputs outputs : Payload} (hs : k.stage = .calling logic inputs)
    (hreply : (logic.act v.calls inputs).reply = .returned outputs) :
    (diary es (i :: (path ++ r))).called = [(inputs, .returned outputs)] ∧
      (diary es (i :: (path ++ r))).results = [outputs] := by
  have hpage := h.here.page hp.below hk
  have hlogic := h.here.course.tree.suits _ k hp.below hk
  rw [hs] at hpage hlogic
  obtain ⟨taken, hd, hgathered⟩ := hpage
  obtain ⟨hsame, ⟨result, hworked⟩ | ⟨ku, inner, hku, hnode, hsu⟩⟩ :=
    h.gathered ho hp (by rw [hd]; exact hgathered)
  · cases hworked with
    | @logic logic' inputs' count body gathered called reply entered gained results =>
      obtain rfl : logic = logic' := Option.some.inj (hlogic.symm.trans body)
      obtain rfl := hsame _ gathered
      have hsteady := hdet.steady _ _ _ _ hp.level hp.mem hlogic
      rw [hsteady count v.calls, hreply] at reply
      obtain rfl := Reply.returned.inj reply
      exact ⟨called, results⟩
    | inner body =>
      rw [Node.inner?_of_logic? hlogic] at body
      cases body
  · have hinner := h.there.course.tree.suits _ ku hp.below hku
    rw [hsu, hnode, Node.Suits, Node.inner?_of_logic? hlogic] at hinner
    cases hinner

/-- A composite that goes inside in the first play has gone inside in the second, and alike. -/
lemma entered (ho : w.Outset w₁ r p seeds token) (hp : v.Place r p i path k run)
    (hk : v.workers (i :: (path ++ r)) = some k) {inputs : Payload}
    (hs : k.stage = .entering inner inputs) :
    (diary es (i :: (path ++ r))).entered = [inputs] := by
  have hpage := h.here.page hp.below hk
  have hinner := h.here.course.tree.suits _ k hp.below hk
  rw [hs] at hpage hinner
  obtain ⟨taken, hd, hgathered⟩ := hpage
  obtain ⟨hsame, ⟨result, hworked⟩ | ⟨ku, inner, hku, hnode, hsu⟩⟩ :=
    h.gathered ho hp (by rw [hd]; exact hgathered)
  · cases hworked with
    | logic body =>
      rw [Node.Suits, Node.inner?_of_logic? body] at hinner
      cases hinner
    | inner body gathered called entered => rw [entered, hsame _ gathered]
  · have hpage := h.there.page hp.below hku
    rw [hsu] at hpage
    obtain ⟨taken', inputs', hd', gathered⟩ := hpage
    rw [hd', hsame inputs' (by rw [hd', ← hnode]; exact gathered)]

/-- A worker that is through with its body in the first play has done everything in the second. -/
lemma done (ho : w.Outset w₁ r p seeds token) (hp : v.Place r p i path k run) {result : Payload}
    (hworked : Worked k.node (diary ds (i :: (path ++ r))) result) :
    Worked k.node (diary es (i :: (path ++ r))) result ∧
      (diary es (i :: (path ++ r))).sent = k.node.restrict result ∧
      (diary es (i :: (path ++ r))).told = [.ok ()] := by
  obtain ⟨ku, hku, hnode⟩ := h.worker_there hp
  have hresults := (h.ahead _ hp.below).results
  rw [hworked.results_eq] at hresults
  have hpast := h.there.past_of_results hp.below hku fun hnil => by simp [hnil] at hresults
  obtain ⟨result', hworked', hsent, htold⟩ := h.there.done_of_past ho h.still hp.below hku hpast
  rw [hworked'.results_eq] at hresults
  obtain rfl : result = result' := by simpa using hresults
  rw [hnode] at hworked' hsent
  exact ⟨hworked', hsent, htold⟩

/-- Whose run inside is over in the first play has seen it end in the second. -/
lemma seen_end (ho : w.Outset w₁ r p seeds token) (hp : v.Place r p i path k run) {below : Run}
    (hbelow : v.runs (i :: (path ++ r)) = some below) (hover : below.Over) {inputs : Payload}
    (hg : Gathered k.node (diary ds (i :: (path ++ r))).taken inputs) :
    ∃ result, Worked k.node (diary es (i :: (path ++ r))) result := by
  obtain ⟨-, hworked | ⟨ku, inner, hku, hnode, hsu⟩⟩ := h.gathered ho hp hg
  · exact hworked
  · rcases h.there.at_rest ho h.still hp.below hku with
      ⟨result, hworked, -⟩ | ⟨_, _, _, hs, -⟩ | ⟨-, j, k', -, hk', hunrep⟩
    · exact ⟨result, hnode ▸ hworked⟩
    · rw [hsu] at hs
      cases hs
    · -- everybody inside has reported in the first play, and so in the second
      have hb : Below r (j :: (i :: path ++ r)) := List.suffix_append (i :: path) r
      have hbelow' : v.runs (i :: path ++ r) = some below := hbelow
      obtain ⟨run', hrun', hpost⟩ := h.there.course.tree.posted (i :: path ++ r) j k' hb hk'
      obtain ⟨run'', hrun'', hsame⟩ := h.run_there hbelow'
      obtain rfl := Option.some.inj (hrun'.symm.trans hrun'')
      obtain ⟨kj, hkj⟩ := h.here.course.tree.manned _ j below k'.node hb hbelow
        (hsame ▸ hpost.node)
      obtain ⟨result, hs⟩ := ((h.here.course.hearing _ below hb hbelow).closed hover).2 j kj hkj
      have hpage := h.here.page hb hkj
      rw [hs] at hpage
      have htold := (h.ahead _ hb).told
      rw [hpage.2] at htold
      obtain ⟨result', hs'⟩ := h.there.reported_of_told hb hk' fun hnil => by
        rw [hnil] at htold
        simp at htold
      exact absurd hs' (hunrep result')

/-- A composite that has got its outputs in the first play has got them in the second. -/
lemma left (ho : w.Outset w₁ r p seeds token) (hdet : p.Determined)
    (hp : v.Place r p i path k run) (hk : v.workers (i :: (path ++ r)) = some k) {below : Run}
    {produced : Payload} (hs : k.stage = .inside inner)
    (hbelow : v.runs (i :: (path ++ r)) = some below) (hover : below.Over)
    (htaken : (v.takeOutputs inner .empty k.node.outputs).1 = .ok produced) :
    (diary es (i :: (path ++ r))).gained = v.collections inner k.node.outputs ∧
      (diary es (i :: (path ++ r))).results = [produced] := by
  have hlaid := ho.ready.laid
  have hpage := h.here.page hp.below hk
  have hinner := h.here.course.tree.suits _ k hp.below hk
  rw [hs] at hpage hinner
  obtain ⟨taken, inputs, hd, hgathered⟩ := hpage
  have hlevel := hp.inner hinner
  have hbelow' : v.runs (i :: path ++ r) = some below := hbelow
  obtain rfl : inner = below.pipeline :=
    Option.some.inj (hlevel.symm.trans (h.here.course.tree.level hbelow'))
  have hsound := hlaid.sound _ _ hlevel
  obtain ⟨hnames, hentries⟩ := takeOutputs_eq_ok
    (Node.nodup_of_wiringFault? ((hlaid.sound _ _ hp.level).wired _ hp.mem)).2 (by simp) htaken
  obtain ⟨result, hworked⟩ := h.seen_end ho hp hbelow hover (by rw [hd]; exact hgathered)
  cases hworked with
  | logic body =>
    rw [Node.Suits, Node.inner?_of_logic? body] at hinner
    cases hinner
  | @inner inner' inputs' body gathered called entered channels names entries results =>
    obtain rfl : below.pipeline = inner' := Option.some.inj (hinner.symm.trans body)
    have hmem := mem_collections v below.pipeline k.node.outputs
    have hsame : v.collections below.pipeline k.node.outputs =
        (diary es (i :: (path ++ r))).gained := by
      refine eq_of_valuesOn_prefix (w.stream r seeds es (i :: path)) ?_ ?_ ?_
      · refine hsound.eq_of_names ?_ ?_ ?_
        · simpa using hmem
        · simpa using channels
        · rw [List.map_map, List.map_map]
          exact hnames.trans names.symm
      -- what was got from a channel is the beginning of all that has been on it
      · intro c hc
        obtain ⟨hch, hno⟩ := ho.unread_of_collected hp hinner hnames hc
        refine List.IsPrefix.trans ?_ (h.stream hlaid hdet hbelow' hch)
        rw [h.here.stream_eq hlevel hch, h.here.takenFrom_of_unread hlaid hlevel hch hno,
          h.here.gainedFrom_eq hlaid hlevel hch, List.cons_append, hd, conduit,
          queue_collections h.here.course.lines.orderly
            (fun d hd' hid => hsound.eq_of_id hd' hch hid) .empty]
        exact List.prefix_append _ _
      · intro c hc
        obtain ⟨hch, hno⟩ := ho.unread_of_collected hp hinner hnames hc
        rw [h.there.stream_eq hlevel hch, h.there.takenFrom_of_unread hlaid hlevel hch hno,
          h.there.gainedFrom_eq hlaid hlevel hch]
        exact List.prefix_append _ _
    refine ⟨hsame.symm, ?_⟩
    rw [results, Payload.ext (entries.trans (hsame ▸ hentries.symm))]

/-- No step of a worker takes it further than it has come in the second play. -/
theorem doing (ho : w.Outset w₁ r p seeds token) (hdet : p.Determined)
    (hp : v.Place r p i path k run) (hk : v.workers (i :: (path ++ r)) = some k)
    {fs : List Deed} (hdo : v.Doing v' (i :: (path ++ r)) k fs)
    (hnext : w.History v' r p seeds token (ds ++ fs)) :
    (diary (ds ++ fs) (i :: (path ++ r))).Within (diary es (i :: (path ++ r))) := by
  have hd := h.ahead _ hp.below
  have hpage := h.here.page hp.below hk
  have fails : ∀ {e : ExecutionError} {f : Nat → Conduit Address},
      ¬ v.Shift v' (i :: (path ++ r)) k (.ended (.error e)) f := by
    intro e f hsh
    have hup := hnext.smooth.upright _ { k with stage := .ended (.error e) } hp.below
      (by rw [hsh.workers, update_same])
    simp [Worker.Upright] at hup
  cases hdo with
  | waited => rwa [List.append_nil]
  | checked => rwa [List.append_nil]
  | finished => rwa [List.append_nil]
  | failed early hsh => exact absurd hsh fails
  | crashed stage reply hsh => exact absurd hsh fails
  | missed stage hsh => exact absurd hsh fails
  | unsent stage misfit hsh => exact absurd hsh fails
  | took stage hsh queue others =>
    have htaken := h.took ho hdet hp hk stage queue
    rw [stage] at hpage
    obtain ⟨taken, heq, -⟩ := hpage
    rw [heq] at htaken
    rw [diary_append, diary_took, heq]
    simp only [Diary.append_def, List.append_nil]
    exact { Diary.within_empty _ with taken := htaken }
  | called stage reply hsh =>
    obtain ⟨hcalled, hresults⟩ := h.called ho hdet hp hk stage reply
    rw [stage] at hpage
    obtain ⟨taken, heq, -⟩ := hpage
    rw [heq] at hd
    rw [diary_append, diary_returned, heq]
    simp only [Diary.append_def, List.append_nil, List.nil_append]
    exact { hd with called := hcalled ▸ List.prefix_rfl, results := hresults ▸ List.prefix_rfl }
  | entered stage entry =>
    have hentered := h.entered ho hp hk stage
    rw [stage] at hpage
    obtain ⟨taken, heq, -⟩ := hpage
    rw [heq] at hd
    rw [diary_append, diary_entered, heq]
    simp only [Diary.append_def, List.append_nil, List.nil_append]
    exact { hd with entered := hentered ▸ List.prefix_rfl }
  | left stage inner_run finished taken hsh =>
    obtain ⟨hgained, hresults⟩ := h.left ho hdet hp hk stage inner_run finished taken
    rw [stage] at hpage
    obtain ⟨taken, inputs, heq, -⟩ := hpage
    rw [heq] at hd
    rw [diary_append, diary_append, diary_gained, diary_left, heq]
    simp only [Diary.append_def, List.append_nil, List.nil_append]
    exact { hd with gained := hgained ▸ List.prefix_rfl, results := hresults ▸ List.prefix_rfl }
  | @sent c x rest total stage hsh =>
    rw [stage] at hpage
    obtain ⟨result, hworked, hsent, -⟩ := hpage
    rw [diary_append, diary_sent]
    simp only [Diary.append_def, List.append_nil]
    refine { hd with sent := ?_ }
    rw [(h.done ho hp hworked).2.1, ← hsent, List.prefix_append_right_inj]
    simp
  | @told result stage ht =>
    obtain ⟨result', hworked⟩ := h.here.worked hp.below hk (by rw [stage]; trivial)
    have hup := h.here.smooth.upright _ k hp.below hk
    rw [Worker.Upright, stage] at hup
    rw [stage] at hpage
    rw [diary_append, diary_told]
    simp only [Diary.append_def, List.append_nil]
    refine { hd with told := ?_ }
    rw [(h.done ho hp hworked).2.2, hpage.2, hup]
    simp

end Overtaken

/-- **No play gets ahead of a standstill**: whatever a worker has done in a play, it has done in
every play that has come to a standstill. -/
theorem overtaken_of_chronicle (ho : w.Outset w₁ r p seeds token)
    (hans : ∀ ns u, w₁.Plays r Alone ns u → u.Answers r) (hdet : p.Determined)
    (hu : w.History u r p seeds token es) (hstill : u.Still r)
    (h : w₁.Chronicle r Alone ms ds v) : w.Overtaken v u r p seeds token ds es := by
  have history := fun {ms ds v} (h : w₁.Chronicle r Alone ms ds v) => ho.history hans h
  suffices hahead : ∀ a, Below r a → (diary ds a).Within (diary es a) from
    ⟨history h, hu, hstill, hahead⟩
  induction h with
  | start => exact fun a _ => Diary.within_empty _
  | await _ ih => exact ih
  | others _ act => exact act.elim
  | @move ms ds v v' m before own step ih =>
    have hover : w.Overtaken v u r p seeds token ds es := ⟨history before, hu, hstill, ih⟩
    have hnext := history (before.move own step)
    have work : ∀ b expired, Below r b → v.work? b expired = some v' →
        w.History v' r p seeds token (ds ++ v.workDeeds b expired) →
        ∀ a, Below r a → (diary (ds ++ v.workDeeds b expired) a).Within (diary es a) := by
      intro b expired hb hs hnext a ha
      obtain ⟨k, hk, -⟩ := stride_of_work? hs
      have hdo := doing_of_work? hk hs
      by_cases hab : a = b
      · subst hab
        obtain ⟨i, path, run, rfl, hp⟩ := exists_place hover.here.course.tree ha hk
        exact hover.doing ho hdet hp hk hdo hnext
      · rw [diary_append, diary_of_actors fun d hd heq => hab (heq.symm.trans (hdo.actor d hd)),
          Diary.append_empty]
        exact ih a ha
    cases m with
    | work b => exact work b false own step hnext
    | expire b => exact work b true own step hnext
    | cancel t => exact own.elim
    | _ => rwa [show v.deeds _ = [] from rfl, List.append_nil]

/-- If the analysis accepts the run, the logic of each node has been called at a standstill. -/
lemma History.called_of_still (h : w.History v r p seeds token ds)
    (ho : w.Outset w₁ r p seeds token) (hstill : v.Still r)
    (haccepted : p.checkSatisfiable w.queued seeds.keys = .ok ()) (hq : p.level? path = some q)
    {n : Node} {logic : Logic} (hn : q.nodes[i]? = some n) (hlogic : n.logic? = some logic) :
    ∃ inputs outputs, (diary ds (i :: (path ++ r))).called = [(inputs, .returned outputs)] := by
  obtain ⟨run, hrun, hp⟩ := h.course.tree.root
  have hall := level_completes h.smooth h.course ho hstill.resting h.smooth.aloof_nil p [] run hrun
    hp (.inl rfl) (Pipeline.checkSatisfiable_eq_ok.1 haccepted) fun a ha => ha.ne_nil
  have hroot : v.Succeeded ([] ++ r) run.pipeline :=
    succeeded_of_reported h.smooth h.course hstill hrun hall
  obtain ⟨k, hk, rfl, hs⟩ :=
    (levels_succeeded h.smooth h.course hstill (hp ▸ hroot) hq).workers i n hn
  obtain ⟨result, hworked⟩ := h.worked (below_cons.2 (List.suffix_append path r)) hk
    (by rw [hs]; trivial)
  cases hworked with
  | @logic _ inputs _ body gathered called => exact ⟨inputs, result, called⟩
  | inner body =>
    rw [Node.inner?_of_logic? hlogic] at body
    cases body

/-- Two standstills in which everybody has done the same have the same on every channel. -/
lemma Overtaken.queue_eq (hvu : w.Overtaken v u r p seeds token ds es) (hlaid : p.Laid)
    (hdet : p.Determined) (huv : w.Overtaken u v r p seeds token es ds)
    (hsame : ∀ a, diary ds a = diary es a) (hq : p.level? path = some q) (hc : c ∈ q.channels) :
    (v.conduit c).queue = (u.conduit c).queue := by
  have here := hvu.here
  have there := huv.here
  cases hrun : v.runs (path ++ r) with
  | none =>
    -- nobody has been there in either play
    have hnone : u.runs (path ++ r) = none := by
      by_contra hsome
      obtain ⟨run, hrun'⟩ := Option.ne_none_iff_exists'.1 hsome
      obtain ⟨run', hrun'', -⟩ := huv.run_there hrun'
      rw [hrun] at hrun''
      cases hrun''
    rw [(here.smooth.fresh path q hq hrun).2 c hc, (there.smooth.fresh path q hq hnone).2 c hc]
  | some run =>
    obtain rfl : q = run.pipeline := Option.some.inj (hq.symm.trans (here.course.tree.level hrun))
    obtain ⟨run', hrun', hp⟩ := hvu.run_there hrun
    have hstream := hvu.stream hlaid hdet hrun hc
    have hstream' := huv.stream hlaid hdet hrun' (hp ▸ hc)
    have hall := hstream.eq_of_length_le hstream'.length_le
    have htaken : takenFrom ds c = takenFrom es c := by
      by_cases hr : ∃ n ∈ run.pipeline.nodes, c ∈ n.inputs
      · obtain ⟨n, hn, hin⟩ := hr
        obtain ⟨i, hi⟩ := List.mem_iff_getElem?.1 hn
        have hdirect := hdet.direct _ _ hq
        rw [here.takenFrom_eq hlaid hdirect hq hi hin, there.takenFrom_eq hlaid hdirect hq hi hin,
          hsame]
      · have hno : ∀ n ∈ run.pipeline.nodes, c ∉ n.inputs := fun n hn hin => hr ⟨n, hn, hin⟩
        rw [here.takenFrom_of_unread hlaid hq hc hno, there.takenFrom_of_unread hlaid hq hc hno]
    rw [here.stream_eq hq hc, there.stream_eq hq hc, htaken, here.gainedFrom_eq hlaid hq hc,
      there.gainedFrom_eq hlaid hq hc, hsame] at hall
    exact List.append_cancel_left hall

/-- **Determinacy.** Where on each level no channel has two readers or two writers, and logic is
steady and replies in full, any two plays of the run that have come to a standstill have called
the logic of each node alike, and have left the same on every channel, in the same order. Each
logic was called at most once, and exactly once if the run validates its inputs, or if the
analysis would accept them. -/
theorem standstills_agree (ho : w.Outset w₁ r p seeds token)
    (hans : ∀ ns u, w₁.Plays r Alone ns u → u.Answers r) (hdet : p.Determined)
    (hv : w₁.Chronicle r Alone ms ds v) (hvstill : v.Still r)
    (hu : w₁.Chronicle r Alone ns es u) (hustill : u.Still r) :
    (∀ path q i n logic, p.level? path = some q → q.nodes[i]? = some n →
      n.logic? = some logic →
        (diary ds (i :: (path ++ r))).called = (diary es (i :: (path ++ r))).called ∧
        (diary ds (i :: (path ++ r))).called.length ≤ 1 ∧
        (p.options.validateInputs = true ∨ p.checkSatisfiable w.queued seeds.keys = .ok () →
          ∃ inputs outputs,
            (diary ds (i :: (path ++ r))).called = [(inputs, .returned outputs)])) ∧
      ∀ path q c, p.level? path = some q → c ∈ q.channels →
        (v.conduit c).queue = (u.conduit c).queue := by
  have hlaid := ho.ready.laid
  have here := ho.history hans hv
  have there := ho.history hans hu
  have hvu := overtaken_of_chronicle ho hans hdet there hustill hv
  have huv := overtaken_of_chronicle ho hans hdet here hvstill hu
  have hsame : ∀ a, diary ds a = diary es a := by
    intro a
    by_cases ha : Below r a
    · exact (hvu.ahead a ha).antisymm (huv.ahead a ha)
    · have hds : ∀ d ∈ ds, d.actor ≠ a := by
        rintro d hd rfl
        exact ha (here.ledger.own d hd)
      have hes : ∀ d ∈ es, d.actor ≠ a := by
        rintro d hd rfl
        exact ha (there.ledger.own d hd)
      rw [diary_of_actors hds, diary_of_actors hes]
  have hvalid := (validate_eq_ok.1 (start_eq_ok ho.start).2.1).2
  refine ⟨fun path q i n logic hq hn hlogic => ⟨by rw [hsame], ?_, fun hwhy => ?_⟩,
    fun path q c hq hc => ?_⟩
  · exact here.called_once (below_cons.2 (List.suffix_append path r))
  · have haccepted := hwhy.elim hvalid id
    exact here.called_of_still ho hvstill haccepted hq hn hlogic
  · exact hvu.queue_eq hlaid hdet huv hsame hq hc

lemma determined_line : line.Determined where
  direct path q hq := by
    rcases level?_line hq with rfl | rfl <;> constructor <;>
      simp [Pipeline.Unshared, line, relay]
  steady path q n logic hq hn hlogic := by
    have hchatter : ∃ shape names, logic = .chatter shape names := by
      rcases level?_line hq with rfl | rfl <;> simp only [line, relay, List.mem_cons] at hn
      · rcases hn with rfl | rfl | rfl | hn
        · exact ⟨_, _, (Option.some.inj hlogic).symm⟩
        · cases hlogic
        · exact ⟨_, _, (Option.some.inj hlogic).symm⟩
        · cases hn
      · rcases hn with rfl | hn
        · exact ⟨_, _, (Option.some.inj hlogic).symm⟩
        · cases hn
    obtain ⟨shape, names, rfl⟩ := hchatter
    exact fun _ _ _ => rfl

/-- However the line is played to its end, its sink is called with the same inputs, and the same
is left on every channel. -/
theorem line_agrees : ∃ w₁ ms ds v inputs outputs,
    ({ initial with fresh := 6 } : World).start [6] line .empty [6] true = .ok w₁ ∧
      w₁.Chronicle [6] Alone ms ds v ∧ v.Still [6] ∧
      ∀ ns es u, w₁.Chronicle [6] Alone ns es u → u.Still [6] →
        (diary es [2, 6]).called = [(inputs, .returned outputs)] ∧
        ∀ path q c, line.level? path = some q → c ∈ q.channels →
          (u.conduit c).queue = (v.conduit c).queue := by
  have hvalid : ({ initial with fresh := 6 } : World).validate line .empty = .ok () :=
    validate_eq_ok.2 ⟨rfl, fun _ => by cbv⟩
  obtain ⟨w₁, hw⟩ := exists_start [6] [6] rfl hvalid
  have ho := outset_of_workshop workshop_line List.mem_cons_self hw fun path q hq => by
    rcases level?_line hq with rfl | rfl <;> rfl
  obtain ⟨ms, v, hplay, hstill⟩ := ho.exists_still
  obtain ⟨ds, htold⟩ := exists_chronicle hplay
  have hagree := fun {ns es u} (hu : w₁.Chronicle [6] Alone ns es u) (hustill : u.Still [6]) =>
    standstills_agree ho (fun _ _ hplay => ho.answers obliging_line hplay) determined_line
      hu hustill htold hstill
  obtain ⟨-, -, honce⟩ := (hagree htold hstill).1 [] line 2 _ _ rfl rfl rfl
  obtain ⟨inputs, outputs, hcalled⟩ := honce (.inl rfl)
  refine ⟨w₁, ms, ds, v, inputs, outputs, hw, htold, hstill, fun ns es u hu hustill => ?_⟩
  obtain ⟨hcalls, hqueues⟩ := hagree hu hustill
  exact ⟨(hcalls [] line 2 _ _ rfl rfl rfl).1.trans hcalled, hqueues⟩

/-! ### Without validation -/

/-- A worker that has still to take something has not called its logic. -/
lemma History.uncalled_of_needs (h : w.History v r p seeds token ds) (ha : Below r a)
    (hk : v.workers a = some k) (hneeds : k.needs ≠ []) : (diary ds a).called = [] := by
  have hpage := h.page ha hk
  unfold Worker.needs at hneeds
  cases hs : k.stage with
  | gathering got rest =>
    rw [hs] at hpage
    obtain ⟨taken, hd, -⟩ := hpage
    rw [hd]
  | _ => simp [hs] at hneeds

/-- Where nothing is shared, a node that the analysis leaves unfired is never called. -/
theorem uncalled_of_unfired (ho : w.Outset w₁ r p seeds token)
    (hans : ∀ ns u, w₁.Plays r Alone ns u → u.Answers r) (hun : p.Unshared) {n : Node}
    (hn : p.nodes[i]? = some n) (hleft : n ∈ p.unfired w.queued seeds.keys)
    (h : w₁.Chronicle r Alone ms ds v) : (diary ds (i :: r)).called = [] := by
  have here := ho.history hans h
  obtain ⟨fired, hplayed⟩ := p.exists_played w.queued seeds.keys
  obtain ⟨c, hfirst⟩ := hplayed.short n hleft
  obtain ⟨k, hk, rfl⟩ := here.course.worker_of_node hn
  have hneed := starving_of_plays ho hans hplayed hun h.plays i k c hk hleft hfirst
  exact here.uncalled_of_needs (below_cons.2 List.suffix_rfl) hk (List.ne_nil_of_mem hneed)

/-- One sink, on a channel to which nothing comes. -/
def parched : Pipeline where
  id := 0
  name := "parched"
  options := { validateInputs := false }
  channels := [⟨2, "c", .text⟩]
  nodes := [⟨"b", [⟨2, "c", .text⟩], [], .sink (.chatter .function [])⟩]

lemma plain_parched : parched.Plain where
  names := by decide
  ids := by decide
  labels := by decide
  nodes := by
    simp only [parched, List.forall_mem_cons]
    exact ⟨⟨rfl, rfl, rfl, Node.chatty rfl (by simp)⟩, fun _ h => by cases h⟩

/-- The parched pipeline is accepted, since it does not validate its inputs. It comes to a
standstill, and however it is played its sink is never called. -/
theorem parched_uncalled : ∃ w₁, initial.Outset w₁ [5] parched .empty [5] ∧
    (∀ ns u, w₁.Plays [5] Alone ns u → u.Answers [5]) ∧ parched.Determined ∧
    (∃ ms ds v, w₁.Chronicle [5] Alone ms ds v ∧ v.Still [5]) ∧
    ∀ ms ds v, w₁.Chronicle [5] Alone ms ds v → (diary ds [0, 5]).called = [] := by
  obtain ⟨w₁, hw⟩ : ∃ w₁, initial.start [5] parched .empty [5] true = .ok w₁ := ⟨_, rfl⟩
  have ho := plain_parched.outset rfl hw
  have hans : ∀ ns u, w₁.Plays [5] Alone ns u → u.Answers [5] := fun _ _ hplay =>
    ho.answers plain_parched.obliging hplay
  have hdirect : parched.Direct := by
    constructor <;> simp [Pipeline.Unshared, parched]
  have hflat : parched.Flat := by simp [Pipeline.Flat, parched, Node.inner?]
  have hdet : parched.Determined := by
    refine ⟨fun path q hq => ?_, fun path q n logic hq hn hlogic => ?_⟩
    · obtain ⟨-, rfl⟩ := hflat.level? hq
      exact hdirect
    · obtain ⟨-, rfl⟩ := hflat.level? hq
      obtain ⟨⟨shape, rfl⟩, -⟩ := (plain_parched.nodes n hn).2.2.2 logic hlogic
      exact fun _ _ _ => rfl
  obtain ⟨ms, v, hplay, hstill⟩ := ho.exists_still
  obtain ⟨ds, htold⟩ := exists_chronicle hplay
  have hleft : parched.nodes[0] ∈ parched.unfired initial.queued (Payload.keys .empty) := by
    have hunfired : parched.unfired initial.queued (Payload.keys .empty) = parched.nodes := by
      cbv
    rw [hunfired]
    exact List.mem_cons_self
  exact ⟨w₁, ho, hans, hdet, ⟨ms, ds, v, htold, hstill⟩, fun _ _ _ h =>
    uncalled_of_unfired ho hans hdirect.readers rfl hleft h⟩

end World

end Dataflow
