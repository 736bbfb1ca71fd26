import Dataflow.Proofs.Chronicle
import Dataflow.Proofs.Completion

/-!
The ledger of a run. For every channel, what was on it before the run, the seed, and what was
published make up, in this order, what was taken and what is still queued; and what one worker
has taken, called and published follows from the stage that it is in.

Main statement: the ledger balances after any play in which others keep their hands off the
channels of the pipeline, however the run fares (`ledger_balances`).
-/

namespace Dataflow

/-- What a node publishes of a result: the values under the names of its outputs. -/
def Node.restrict (n : Node) (result : Payload) : List (Channel × Value) :=
  n.outputs.filterMap fun c => (result.get? c.name).map fun v => (c, v)

/-- Labelled values as the entries of a payload. -/
def named (es : List (Channel × Value)) : List (String × Value) := es.map fun e => (e.1.name, e.2)

lemma named_append (es fs : List (Channel × Value)) : named (es ++ fs) = named es ++ named fs :=
  List.map_append

lemma Payload.entries_insert_of_notMem {got : Payload} {key : String} (h : key ∉ got.keys)
    (v : Value) : (got.insert key v).entries = got.entries ++ [(key, v)] := by
  have hfilter : (got.entries.filter fun e => e.1 ≠ key) = got.entries :=
    List.filter_eq_self.2 fun e he => by
      have : e.1 ≠ key := fun heq => h (heq ▸ List.mem_map_of_mem he)
      simpa using this
  rw [entries_insert, entries_erase, hfilter]

/-- The entries under a name are the value there, if there is one. -/
lemma Payload.values_eq (seeds : Payload) (x : String) :
    (seeds.entries.filter fun e => e.1 = x).map Prod.snd = (seeds.get? x).toList := by
  obtain ⟨entries, hnd⟩ := seeds
  simp only [get?]
  induction entries with
  | nil => rfl
  | cons e rest ih =>
    obtain ⟨name, v⟩ := e
    rw [List.map_cons, List.nodup_cons] at hnd
    by_cases hx : name = x
    · subst hx
      have hrest : (rest.filter fun e => e.1 = name) = [] := by
        refine List.filter_eq_nil_iff.2 fun e he => ?_
        have hmem : e.1 ∈ rest.map Prod.fst := List.mem_map_of_mem he
        have : e.1 ≠ name := fun heq => hnd.1 (heq ▸ hmem)
        simpa using this
      simp [hrest]
    · have : (x == name) = false := by simpa using Ne.symm hx
      rw [List.filter_cons_of_neg (by simpa using hx), List.lookup_cons, this]
      exact ih hnd.2

lemma Payload.get?_eq_none {got : Payload} {x : String} : got.get? x = none ↔ x ∉ got.keys := by
  rw [get?, List.lookup_eq_none_iff, keys, List.mem_map]
  constructor
  · rintro h ⟨e, he, rfl⟩
    simpa using h e he
  · intro h e he
    have : x ≠ e.1 := fun heq => h ⟨e, he, heq.symm⟩
    simpa using this

namespace Node

variable {n : Node} {produced : Payload} {ready : List (Channel × Value)}

lemma pair_eq_ok {outs : List Channel} (h : (n.pair produced outs).2 = .ok ready) :
    ready = outs.filterMap (fun c => (produced.get? c.name).map fun v => (c, v)) ∧
      ∀ e ∈ ready, e.1.type.accepts e.2 = true := by
  induction outs generalizing ready with
  | nil =>
    obtain rfl : [] = ready := Except.ok.inj h
    simp
  | cons c rest ih =>
    rw [pair] at h
    cases hv : produced.get? c.name with
    | none =>
      simp only [hv] at h
      simpa [hv] using ih h
    | some v =>
      simp only [hv] at h
      rcases hacc : c.check v with e | ⟨⟩
      · simp [hacc] at h
      · simp only [hacc] at h
        rcases hrest : (n.pair produced rest).2 with e | ready'
        · simp [hrest, Except.map] at h
        · obtain ⟨hready, hall⟩ := ih hrest
          obtain rfl : (c, v) :: ready' = ready := by simpa [hrest, Except.map] using h
          refine ⟨by rw [List.filterMap_cons, hv, Option.map_some, ← hready], ?_⟩
          rintro e (_ | ⟨_, he⟩)
          · exact Channel.check_eq_ok_iff.1 hacc
          · exact hall e he

/-- What a node will send is what it produced, restricted to its outputs. -/
lemma prepare_eq_ok (h : (n.prepare produced).2 = .ok ready) :
    ready = n.restrict produced ∧ ∀ e ∈ ready, e.1.type.accepts e.2 = true := by
  unfold prepare at h
  rcases hp : n.pair produced n.outputs with ⟨notices, e | ready'⟩ <;> rw [hp] at h
  · cases h
  · obtain rfl : ready' = ready := Except.ok.inj h
    exact pair_eq_ok (by rw [hp])

lemma restrict_congr {result : Payload}
    (h : ∀ c ∈ n.outputs, produced.get? c.name = result.get? c.name) :
    n.restrict produced = n.restrict result :=
  List.filterMap_congr fun c hc => by rw [h c hc]

lemma restrict_sublist (n : Node) (result : Payload) :
    ((n.restrict result).map Prod.fst).Sublist n.outputs := by
  unfold restrict
  induction n.outputs with
  | nil => exact List.Sublist.refl _
  | cons c rest ih =>
    rw [List.filterMap_cons]
    cases result.get? c.name with
    | none => exact ih.trans (List.sublist_cons_self _ _)
    | some v => exact ih.cons_cons c

end Node

/-- The worker has come to its end, whether it has said so or not. -/
def Worker.Ended (k : Worker) (result : Except ExecutionError Unit) : Prop :=
  k.stage = .ended result ∨ k.stage = .reported result

/-! ### The pages of single workers -/

/-- One value was taken for each input, and `inputs` are these values. -/
structure Gathered (n : Node) (taken : List (Channel × Value)) (inputs : Payload) : Prop where
  channels : taken.map Prod.fst = n.inputs
  entries : inputs.entries = named taken

/-- The body of a node has come to a result, by one call of its logic or by one run inside. -/
inductive Worked (n : Node) (d : Diary) (result : Payload) : Prop where
  | logic {logic : Logic} {inputs : Payload} {count : Nat} (body : n.logic? = some logic)
      (gathered : Gathered n d.taken inputs) (called : d.called = [(inputs, .returned result)])
      (reply : (logic.act count inputs).reply = .returned result) (entered : d.entered = [])
      (gained : d.gained = []) (results : d.results = [result])
  | inner {inner : Pipeline} {inputs : Payload} (body : n.inner? = some inner)
      (gathered : Gathered n d.taken inputs) (called : d.called = [])
      (entered : d.entered = [inputs]) (channels : ∀ e ∈ d.gained, e.1 ∈ inner.channels)
      (names : d.gained.map (fun e => e.1.name) = n.outs)
      (entries : result.entries = named d.gained) (results : d.results = [result])

/-- A node takes from its inputs in order, publishes to its outputs in order, and goes inside at
most once and with all its inputs. -/
structure Proper (n : Node) (d : Diary) : Prop where
  taken : d.taken.map Prod.fst <+: n.inputs
  sent : (d.sent.map Prod.fst).Sublist n.outputs
  gained : ∀ e ∈ d.gained, ∃ inner, n.inner? = some inner ∧ e.1 ∈ inner.channels
  entered : d.entered = [] ∨ ∃ inputs, d.entered = [inputs] ∧ Gathered n d.taken inputs

/-- Whoever succeeded has published its result; whoever failed has published nothing. -/
def Closed (n : Node) (d : Diary) : Except ExecutionError Unit → Prop
  | .ok () => ∃ result, Worked n d result ∧ d.sent = n.restrict result
  | .error _ => Proper n d ∧ d.sent = []

/-- What a worker for `n` has done when it is in this stage. -/
def Page (n : Node) (d : Diary) : Stage → Prop
  | .gathering got rest => ∃ taken, d = { taken } ∧ taken.map Prod.fst ++ rest = n.inputs ∧
      got.entries = named taken
  | .calling _ inputs => ∃ taken, d = { taken } ∧ Gathered n taken inputs
  | .entering _ inputs => ∃ taken, d = { taken } ∧ Gathered n taken inputs
  | .inside _ => ∃ taken inputs, d = { taken, entered := [inputs] } ∧ Gathered n taken inputs
  | .checking produced => ∃ result, Worked n d result ∧ d.sent = [] ∧ d.told = [] ∧
      ∀ c ∈ n.outputs, produced.get? c.name = result.get? c.name
  | .sending ready _ => ∃ result, Worked n d result ∧ d.sent ++ ready = n.restrict result ∧
      d.told = [] ∧ ∀ e ∈ ready, e.1.type.accepts e.2 = true
  | .ended result => Closed n d result ∧ d.told = []
  | .reported result => Closed n d result ∧ d.told = [result]

section

variable {n : Node} {d : Diary} {result : Payload}

lemma Worked.gathered' (h : Worked n d result) : ∃ inputs, Gathered n d.taken inputs := by
  cases h with
  | logic _ gathered => exact ⟨_, gathered⟩
  | inner _ gathered => exact ⟨_, gathered⟩

/-- What a body came to stays when its worker publishes and reports. -/
lemma Worked.append {sent : List (Channel × Value)} {told : List (Except ExecutionError Unit)}
    (h : Worked n d result) : Worked n (d ++ ({ sent, told } : Diary)) result := by
  cases h with
  | logic body gathered called reply entered gained results =>
    refine .logic body ?_ ?_ reply ?_ ?_ ?_ <;>
      simp only [Diary.append_def, List.append_nil] <;> assumption
  | @inner inner inputs body gathered called entered channels names entries results =>
    refine @Worked.inner _ _ _ inner inputs body ?_ ?_ ?_ ?_ ?_ ?_ ?_ <;>
      simp only [Diary.append_def, List.append_nil] <;> assumption

lemma Gathered.keys {n : Node} {taken : List (Channel × Value)} {inputs : Payload}
    (h : Gathered n taken inputs) : inputs.keys = n.ins := by
  rw [Payload.keys, h.entries, Node.ins, ← h.channels]
  simp [named]

lemma Gathered.initial_channels {taken : List (Channel × Value)} {inputs : Payload}
    (h : Gathered n taken inputs) : taken.map Prod.fst <+: n.inputs :=
  h.channels ▸ List.prefix_rfl

lemma Worked.proper (h : Worked n d result)
    (hsent : (d.sent.map Prod.fst).Sublist n.outputs) : Proper n d := by
  cases h with
  | logic body gathered called reply entered gained results =>
    exact ⟨gathered.initial_channels, hsent, by simp [gained], .inl entered⟩
  | inner body gathered called entered channels names entries results =>
    exact ⟨gathered.initial_channels, hsent, fun e he => ⟨_, body, channels e he⟩,
      .inr ⟨_, entered, gathered⟩⟩

lemma Closed.proper {result : Except ExecutionError Unit} (h : Closed n d result) :
    Proper n d := by
  cases result with
  | error e => exact h.1
  | ok u =>
    obtain ⟨result, hworked, hsent⟩ := h
    exact hworked.proper (hsent ▸ n.restrict_sublist result)

lemma Proper.told (h : Proper n d) (told : List (Except ExecutionError Unit)) :
    Proper n (d ++ ({ told } : Diary)) := by
  refine ⟨?_, ?_, ?_, ?_⟩ <;> simp only [Diary.append_def, List.append_nil]
  · exact h.taken
  · exact h.sent
  · exact h.gained
  · exact h.entered

lemma Closed.told {result : Except ExecutionError Unit} (h : Closed n d result)
    (told : List (Except ExecutionError Unit)) : Closed n (d ++ ({ told } : Diary)) result := by
  cases result with
  | error e => exact ⟨h.1.told told, by simp [Diary.append_def, h.2]⟩
  | ok u =>
    obtain ⟨result, hworked, hsent⟩ := h
    exact ⟨result, hworked.append, by simp [Diary.append_def, hsent]⟩

lemma Page.proper {s : Stage} (h : Page n d s) : Proper n d := by
  cases s with
  | gathering got rest =>
    obtain ⟨taken, rfl, hins, -⟩ := h
    exact ⟨⟨rest, hins⟩, List.nil_sublist _, by simp, .inl rfl⟩
  | calling logic inputs =>
    obtain ⟨taken, rfl, hgathered⟩ := h
    exact ⟨hgathered.initial_channels, List.nil_sublist _, by simp, .inl rfl⟩
  | entering inner inputs =>
    obtain ⟨taken, rfl, hgathered⟩ := h
    exact ⟨hgathered.initial_channels, List.nil_sublist _, by simp, .inl rfl⟩
  | inside inner =>
    obtain ⟨taken, inputs, rfl, hgathered⟩ := h
    exact ⟨hgathered.initial_channels, List.nil_sublist _, by simp, .inr ⟨inputs, rfl, hgathered⟩⟩
  | checking produced =>
    obtain ⟨result, hworked, hsent, -⟩ := h
    exact hworked.proper (by simp [hsent])
  | sending ready total =>
    obtain ⟨result, hworked, hsent, -⟩ := h
    refine hworked.proper (List.Sublist.trans ?_ (n.restrict_sublist result))
    rw [← hsent, List.map_append]
    exact List.sublist_append_left _ _
  | ended result => exact h.1.proper
  | reported result => exact h.1.proper

/-- A worker that has only gathered so far. -/
lemma page_gather {taken : List (Channel × Value)} {got : Payload} {rest : List Channel}
    (hins : taken.map Prod.fst ++ rest = n.inputs) (hgot : got.entries = named taken) :
    Page n { taken } (n.gather got rest) := by
  rcases n.gather_cases got rest with
    ⟨c, cs, rfl, hg⟩ | ⟨rfl, ⟨logic, -, hg⟩ | ⟨inner, -, hg⟩⟩ <;> rw [hg]
  · exact ⟨taken, rfl, hins, hgot⟩
  · exact ⟨taken, rfl, by simpa using hins, hgot⟩
  · exact ⟨taken, rfl, by simpa using hins, hgot⟩

end

/-! ### Turning a page -/

namespace Page

variable {n : Node} {d : Diary} {got inputs outputs produced : Payload} {c : Channel} {v : Value}
  {rest : List Channel} {ready gains : List (Channel × Value)} {logic : Logic} {inner : Pipeline}
  {total count : Nat} {result : Except ExecutionError Unit}

lemma took (h : Page n d (.gathering got (c :: rest))) (hw : n.wiringFault? = none) (v : Value) :
    Page n (d ++ ({ taken := [(c, v)] } : Diary)) (n.gather (got.insert c.name v) rest) := by
  obtain ⟨taken, rfl, hins, hgot⟩ := h
  refine page_gather (by simpa using hins) ?_
  rw [Payload.entries_insert_of_notMem, hgot, named_append]
  · rfl
  · -- the name is still to come among the inputs, and no name comes twice
    intro hkey
    have hkeys : got.keys = (taken.map Prod.fst).map (·.name) := by
      rw [Payload.keys, hgot]
      simp [named]
    have hnd := (Node.nodup_of_wiringFault? hw).1
    rw [Node.ins, ← hins, List.map_append, List.nodup_append, ← hkeys] at hnd
    exact hnd.2.2 _ hkey c.name List.mem_cons_self rfl

/-- Until it comes to send, a worker has published nothing and told nobody anything. -/
lemma failed {s : Stage} (h : Page n d s)
    (early : (∃ got rest, s = .gathering got rest) ∨ (∃ inner inputs, s = .entering inner inputs) ∨
      (∃ inner, s = .inside inner) ∨ ∃ produced, s = .checking produced) (e : ExecutionError) :
    Page n d (.ended (.error e)) := by
  have hquiet : d.sent = [] ∧ d.told = [] := by
    rcases early with ⟨_, _, rfl⟩ | ⟨_, _, rfl⟩ | ⟨_, rfl⟩ | ⟨_, rfl⟩
    · obtain ⟨_, rfl, -⟩ := h
      exact ⟨rfl, rfl⟩
    · obtain ⟨_, rfl, -⟩ := h
      exact ⟨rfl, rfl⟩
    · obtain ⟨_, _, rfl, -⟩ := h
      exact ⟨rfl, rfl⟩
    · obtain ⟨_, -, hsent, htold, -⟩ := h
      exact ⟨hsent, htold⟩
  exact ⟨⟨h.proper, hquiet.1⟩, hquiet.2⟩

lemma called (h : Page n d (.calling logic inputs)) (hw : n.wiringFault? = none)
    (hlogic : n.logic? = some logic) (hreply : (logic.act count inputs).reply = .returned outputs) :
    Page n (d ++ ({ called := [(inputs, .returned outputs)], results := [outputs] } : Diary))
      (.checking (if n.kind = .sink then .empty else outputs)) := by
  obtain ⟨taken, rfl, hgathered⟩ := h
  simp only [Diary.append_def, List.append_nil, List.nil_append]
  refine ⟨outputs, .logic hlogic hgathered rfl hreply rfl rfl rfl, rfl, rfl, fun c hc => ?_⟩
  split
  · next hsink =>
    rw [Node.outputs_of_sink hw hsink] at hc
    cases hc
  · rfl

lemma crashed (h : Page n d (.calling logic inputs)) (reply : Reply) (e : ExecutionError) :
    Page n (d ++ ({ called := [(inputs, reply)] } : Diary)) (.ended (.error e)) := by
  obtain ⟨taken, rfl, hgathered⟩ := h
  simp only [Diary.append_def, List.append_nil, List.nil_append]
  exact ⟨⟨⟨hgathered.initial_channels, List.nil_sublist _, by simp, .inl rfl⟩, rfl⟩, rfl⟩

lemma entered (h : Page n d (.entering inner inputs)) :
    Page n (d ++ ({ entered := [inputs] } : Diary)) (.inside inner) := by
  obtain ⟨taken, rfl, hgathered⟩ := h
  simp only [Diary.append_def, List.append_nil, List.nil_append]
  exact ⟨taken, inputs, rfl, hgathered⟩

lemma left (h : Page n d (.inside inner)) (hinner : n.inner? = some inner)
    (hchannels : ∀ e ∈ gains, e.1 ∈ inner.channels)
    (hnames : gains.map (fun e => e.1.name) = n.outs) (hentries : produced.entries = named gains) :
    Page n (d ++ (({ gained := gains } : Diary) ++ ({ results := [produced] } : Diary)))
      (.checking produced) := by
  obtain ⟨taken, inputs, rfl, hgathered⟩ := h
  simp only [Diary.append_def, List.append_nil, List.nil_append]
  exact ⟨produced, .inner hinner hgathered rfl rfl hchannels hnames hentries rfl, rfl, rfl,
    fun _ _ => rfl⟩

lemma missed (h : Page n d (.inside inner)) (hinner : n.inner? = some inner)
    (hchannels : ∀ e ∈ gains, e.1 ∈ inner.channels) (e : ExecutionError) :
    Page n (d ++ ({ gained := gains } : Diary)) (.ended (.error e)) := by
  obtain ⟨taken, inputs, rfl, hgathered⟩ := h
  simp only [Diary.append_def, List.append_nil, List.nil_append]
  exact ⟨⟨⟨hgathered.initial_channels, List.nil_sublist _,
    fun e he => ⟨inner, hinner, hchannels e he⟩, .inr ⟨inputs, rfl, hgathered⟩⟩, rfl⟩, rfl⟩

lemma checked (h : Page n d (.checking produced)) (hfits : (n.prepare produced).2 = .ok ready) :
    Page n d (.sending ready total) := by
  obtain ⟨result, hworked, hsent, htold, hsame⟩ := h
  obtain ⟨rfl, hall⟩ := Node.prepare_eq_ok hfits
  exact ⟨result, hworked, by rw [hsent, List.nil_append, Node.restrict_congr hsame], htold, hall⟩

lemma sent (h : Page n d (.sending ((c, v) :: ready) total)) :
    Page n (d ++ ({ sent := [(c, v)] } : Diary)) (.sending ready total) := by
  obtain ⟨result, hworked, hsent, htold, hall⟩ := h
  refine ⟨result, hworked.append, ?_, ?_, fun e he => hall e (List.mem_cons_of_mem _ he)⟩
  · simp [Diary.append_def, ← hsent]
  · simp [Diary.append_def, htold]

lemma finished (h : Page n d (.sending [] total)) : Page n d (.ended (.ok ())) := by
  obtain ⟨result, hworked, hsent, htold, -⟩ := h
  exact ⟨⟨result, hworked, by rw [← hsent, List.append_nil]⟩, htold⟩

lemma told (h : Page n d (.ended result)) :
    Page n (d ++ ({ told := [result] } : Diary)) (.reported result) := by
  obtain ⟨hclosed, hnone⟩ := h
  exact ⟨hclosed.told _, by simp [Diary.append_def, hnone]⟩

end Page

/-- Every level is sound, and a channel belongs to one level only. -/
structure Pipeline.Laid (p : Pipeline) : Prop where
  sound : ∀ path q, p.level? path = some q → q.Sound
  apart : ∀ path path' q q' c d, p.level? path = some q → p.level? path' = some q' →
    c ∈ q.channels → d ∈ q'.channels → c.id = d.id → path = path'

/-- A node stands at one place. -/
lemma Pipeline.Sound.index_unique {q : Pipeline} {n : Node} {i j : Nat} (hs : q.Sound)
    (hi : q.nodes[i]? = some n) (hj : q.nodes[j]? = some n) : i = j :=
  (List.getElem?_inj (List.getElem?_eq_some_iff.1 hi).1 hs.nodup_nodes).1 (hi.trans hj.symm)

namespace Pipeline.Laid

variable {p q q' : Pipeline} {path path' : Address} {c d : Channel} {n : Node}

lemma eq_of_id (h : p.Laid) (hq : p.level? path = some q) (hq' : p.level? path' = some q')
    (hc : c ∈ q.channels) (hd : d ∈ q'.channels) (hid : c.id = d.id) : c = d := by
  obtain rfl := h.apart _ _ _ _ _ _ hq hq' hc hd hid
  obtain rfl := Option.some.inj (hq.symm.trans hq')
  exact (h.sound _ _ hq).eq_of_id hc hd hid

lemma input (h : p.Laid) (hq : p.level? path = some q) (hn : n ∈ q.nodes) (hc : c ∈ n.inputs) :
    c ∈ q.channels :=
  (h.sound _ _ hq).mem_input hn hc

lemma output (h : p.Laid) (hq : p.level? path = some q) (hn : n ∈ q.nodes) (hc : c ∈ n.outputs) :
    c ∈ q.channels :=
  (h.sound _ _ hq).mem_output hn hc

end Pipeline.Laid

namespace World

variable {w w' v u : World} {r a b : Address} {p q inner : Pipeline} {k : Worker}
  {ds es : List Deed} {c : Channel} {outs : List Channel}

/-! ### Taking outputs -/

lemma mem_collections (w : World) (inner : Pipeline) (outs : List Channel) :
    ∀ e ∈ w.collections inner outs, e.1 ∈ inner.channels := by
  induction outs generalizing w with
  | nil => simp [collections]
  | cons o rest ih =>
    intro e he
    rw [collections] at he
    split at he
    · cases he
    · next d hd =>
      rcases hrec : w.tryReceive d with ⟨_ | v, w₁⟩ <;> simp only [hrec] at he
      · cases he
      · rcases List.mem_cons.1 he with rfl | he
        · exact (Pipeline.mem_of_channel? hd).1
        · exact ih w₁ e he

/-- A composite that gets all its outputs gets them under their names. -/
lemma takeOutputs_eq_ok {got produced : Payload} (hnd : (outs.map (·.name)).Nodup)
    (hnew : ∀ o ∈ outs, o.name ∉ got.keys)
    (h : (w.takeOutputs inner got outs).1 = .ok produced) :
    (w.collections inner outs).map (fun e => e.1.name) = outs.map (·.name) ∧
      produced.entries = got.entries ++ named (w.collections inner outs) := by
  induction outs generalizing w got with
  | nil =>
    obtain rfl : got = produced := Except.ok.inj h
    simp [collections, named]
  | cons o rest ih =>
    rw [List.map_cons, List.nodup_cons] at hnd
    rw [takeOutputs] at h
    rw [collections]
    cases hd : inner.channel? o.name with
    | none =>
      rw [hd] at h
      cases h
    | some d =>
      rw [hd] at h
      dsimp only at h ⊢
      rcases hrec : w.tryReceive d with ⟨_ | v, w₁⟩
      · rw [hrec] at h
        cases h
      · rw [hrec] at h
        have hname := (Pipeline.mem_of_channel? hd).2
        have hkey := hnew o List.mem_cons_self
        have hrest : ∀ o' ∈ rest, o'.name ∉ (got.insert o.name v).keys := by
          intro o' ho' hmem
          rw [Payload.keys_insert hkey, List.mem_append, List.mem_singleton] at hmem
          rcases hmem with hmem | heq
          · exact hnew o' (List.mem_cons_of_mem _ ho') hmem
          · exact hnd.1 (heq ▸ List.mem_map_of_mem ho')
        obtain ⟨hnames, hentries⟩ := ih hnd.2 hrest h
        refine ⟨by simp [hname, hnames], ?_⟩
        rw [hentries, Payload.entries_insert_of_notMem hkey, List.append_assoc]
        simp [named, hname]

/-- What was on a channel inside is what the composite took from there, and then the rest. -/
lemma queue_collections (ho : ∀ x, (w.conduits x).Orderly)
    (hsep : ∀ d ∈ inner.channels, d.id = c.id → d = c) (got : Payload) :
    (w.conduits c.id).queue = valuesOn (w.collections inner outs) c ++
      ((w.takeOutputs inner got outs).2.conduits c.id).queue := by
  induction outs generalizing w got with
  | nil => rfl
  | cons o rest ih =>
    rw [collections, takeOutputs]
    cases hd : inner.channel? o.name with
    | none => rfl
    | some d =>
      have horderly : ∀ y, ((w.setConduit d (w.conduit d).tryReceive.2).conduits y).Orderly :=
        fun y => (aside_update (Conduit.aside_tryReceive [] _) y (ho y)).1
      have hrec : w.tryReceive d =
          ((w.conduit d).tryReceive.1, w.setConduit d (w.conduit d).tryReceive.2) := rfl
      rcases (w.conduit d).tryReceive_cases (ho _) with ⟨-, hnone⟩ | ⟨v, k, hsome, hqueue, -⟩
      · rw [hnone] at hrec
        simp only [hrec]
        have hsame : ((w.setConduit d (w.conduit d)).conduits c.id).queue =
            (w.conduits c.id).queue := queues_update rfl _
        rw [hsame]
        rfl
      · rw [hsome] at hrec horderly
        simp only [hrec]
        have hih := ih horderly (got.insert o.name v)
        by_cases hdc : d = c
        · subst hdc
          have hself : ((w.setConduit d k).conduits d.id).queue = k.queue := by
            simp only [setConduit, update_same]
          rw [valuesOn_cons, if_pos rfl, List.cons_append, ← hih, hself]
          exact hqueue
        · have hne : c.id ≠ d.id := fun heq =>
            hdc (hsep d (Pipeline.mem_of_channel? hd).1 heq.symm)
          have hother : (w.setConduit d k).conduits c.id = w.conduits c.id := update_of_ne hne
          rw [valuesOn_cons, if_neg hdc, ← hih, hother]

/-! ### The page after a step -/

/-- With each step a worker goes on to a stage that its diary bears out. -/
theorem page_of_doing (hp : Page k.node (diary ds a) k.stage) (hw : k.node.wiringFault? = none)
    (hs : k.node.Suits k.stage) (h : w.Doing w' a k es) :
    ∃ s, w'.workers a = some { k with stage := s } ∧ Page k.node (diary (ds ++ es) a) s := by
  have shift : ∀ {s : Stage} {f : Nat → Conduit Address}, w.Shift w' a k s f →
      Page k.node (diary (ds ++ es) a) s →
      ∃ s, w'.workers a = some { k with stage := s } ∧ Page k.node (diary (ds ++ es) a) s :=
    fun hsh hpage => ⟨_, by rw [hsh.workers, update_same], hpage⟩
  rw [diary_append] at shift ⊢
  cases h with
  | waited stage hsh => exact shift hsh (by simpa using hp)
  | failed early hsh => exact shift hsh (by simpa using hp.failed early _)
  | took stage hsh queue others =>
    rw [stage] at hp
    exact shift hsh (diary_took a _ _ ▸ hp.took hw _)
  | called stage reply hsh =>
    rw [stage] at hp hs
    exact shift hsh (diary_returned a _ _ ▸ hp.called hw hs reply)
  | crashed stage reply hsh =>
    rw [stage] at hp
    exact shift hsh (diary_crashed a _ reply ▸ hp.crashed _ _)
  | entered stage entry =>
    rw [stage] at hp
    exact ⟨_, entry.worker_self, diary_entered a _ ▸ hp.entered⟩
  | left stage inner_run finished ok hsh =>
    rw [stage] at hp hs
    obtain ⟨hnames, hentries⟩ :=
      takeOutputs_eq_ok (Node.nodup_of_wiringFault? hw).2 (by simp) ok
    refine shift hsh ?_
    rw [diary_append, diary_gained, diary_left]
    exact hp.left hs (mem_collections _ _ _) hnames hentries
  | missed stage hsh =>
    rw [stage] at hp hs
    exact shift hsh (diary_gained a _ ▸ hp.missed hs (mem_collections _ _ _) _)
  | checked stage fits hsh =>
    rw [stage] at hp
    exact shift hsh (by simpa using hp.checked fits)
  | sent stage hsh =>
    rw [stage] at hp
    exact shift hsh (diary_sent a _ _ ▸ hp.sent)
  | unsent stage misfit hsh =>
    -- every value was checked before the first was sent
    rw [stage] at hp
    obtain ⟨result, hworked, hsent, htold, hall⟩ := hp
    rw [hall _ List.mem_cons_self] at misfit
    cases misfit
  | finished stage hsh =>
    rw [stage] at hp
    exact shift hsh (by simpa using hp.finished)
  | told stage told =>
    rw [stage] at hp
    exact ⟨_, by rw [told.workers, update_same], diary_told a _ ▸ hp.told⟩

/-! ### The flow through a channel -/

lemma Doing.actor (h : w.Doing w' a k es) : ∀ d ∈ es, d.actor = a := by
  have gained : ∀ gains : List (Channel × Value),
      ∀ d ∈ gains.map fun e => Deed.gained a e.1 e.2, d.actor = a := by
    intro gains d hd
    obtain ⟨e, -, rfl⟩ := List.mem_map.1 hd
    rfl
  cases h with
  | left =>
    intro d hd
    rcases List.mem_append.1 hd with hd | hd
    · exact gained _ d hd
    · rw [List.mem_singleton.1 hd]
      rfl
  | missed => exact gained _
  | _ => simp [Deed.actor]

/-- A step starts a run inside, or nothing of the kind. -/
lemma Doing.entry (h : w.Doing w' a k es) :
    (∃ inner inputs id, k.stage = .entering inner inputs ∧ es = [.entered a inputs] ∧
        w.Entered w' a k inner id inputs) ∨
      (∀ inputs, es ≠ [.entered a inputs]) ∧ ∀ b, (diary es b).entered = [] := by
  have gained : ∀ gains : List (Channel × Value), ∀ b,
      (diary (gains.map fun e => .gained a e.1 e.2) b).entered = [] := by
    intro gains b
    simp [diary, List.filterMap_map, Function.comp_def, Deed.entered?]
  cases h with
  | entered stage entry => exact .inl ⟨_, _, _, stage, rfl, entry⟩
  | left =>
    refine .inr ⟨fun inputs heq => ?_, fun b => ?_⟩
    · have hmem : Deed.left a _ ∈ [Deed.entered a inputs] := heq ▸ List.mem_concat_self
      simp at hmem
    · rw [diary_append, Diary.append_def, gained]
      rfl
  | missed =>
    refine .inr ⟨fun inputs heq => ?_, gained _⟩
    obtain ⟨e, -, he⟩ := List.mem_map.1 (heq ▸ List.mem_singleton_self (Deed.entered a inputs))
    cases he
  | _ => exact .inr ⟨by simp, fun _ => rfl⟩

/-- A step that starts no run moves values between a channel and a diary. -/
lemma Doing.flow {d : Diary} (h : w.Doing w' a k es) (hne : ∀ inputs, es ≠ [.entered a inputs])
    (hp : Page k.node d k.stage) (hs : k.node.Suits k.stage) (ho : ∀ x, (w.conduits x).Orderly)
    (hsep : ∀ e, e ∈ k.node.inputs ∨ e ∈ k.node.outputs ∨
      (∃ inner, k.node.inner? = some inner ∧ e ∈ inner.channels) → e.id = c.id → e = c) :
    (w.conduit c).queue ++ sentTo es c = takenFrom es c ++ gainedFrom es c ++
      (w'.conduit c).queue := by
  have silent : ∀ {es : List Deed}, w'.conduits c.id = w.conduits c.id ∨
      (w'.conduits c.id).queue = (w.conduits c.id).queue → sentTo es c = [] →
      takenFrom es c = [] → gainedFrom es c = [] →
      (w.conduit c).queue ++ sentTo es c = takenFrom es c ++ gainedFrom es c ++
        (w'.conduit c).queue := by
    intro es hq hsent htaken hgained
    rw [hsent, htaken, hgained, conduit, conduit, List.append_nil]
    rcases hq with hq | hq <;> rw [hq] <;> rfl
  have gains : ∀ {s : Stage} {inner : Pipeline}, k.node.inner? = some inner →
      w.Shift w' a k s (w.takeOutputs inner .empty k.node.outputs).2.conduits →
      (w.conduit c).queue = valuesOn (w.collections inner k.node.outputs) c ++
        (w'.conduit c).queue := by
    intro s inner hinner hsh
    rw [conduit, conduit, hsh.conduits]
    exact queue_collections ho (fun e he => hsep e (.inr (.inr ⟨inner, hinner, he⟩))) .empty
  cases h with
  | waited stage hsh queues =>
    exact silent (.inr (by rw [hsh.conduits, queues])) rfl rfl rfl
  | @took got e rest v f stage hsh queue others =>
    rw [stage] at hs
    by_cases hec : e = c
    · subst hec
      have htaken : takenFrom [.took a e v] e = [v] := by simp [takenFrom, Deed.takenFrom?]
      rw [htaken, conduit, conduit, hsh.conduits, queue]
      exact List.append_nil _
    · have hin : e ∈ k.node.inputs := hs.2.subset List.mem_cons_self
      have hne : c.id ≠ e.id := fun heq => hec (hsep e (.inl hin) heq.symm)
      have htaken : takenFrom [.took a e v] c = [] := by simp [takenFrom, Deed.takenFrom?, hec]
      exact silent (.inl (by rw [hsh.conduits, others c.id hne])) rfl htaken rfl
  | failed early hsh queues =>
    exact silent (.inr (by rw [hsh.conduits, queues])) rfl rfl rfl
  | called stage reply hsh => exact silent (.inl (by rw [hsh.conduits])) rfl rfl rfl
  | crashed stage reply hsh => exact silent (.inl (by rw [hsh.conduits])) rfl rfl rfl
  | entered stage entry => exact absurd rfl (hne _)
  | @left inner run produced stage inner_run finished ok hsh =>
    rw [stage] at hs
    have hsent : sentTo [.left a produced] c = [] := rfl
    have htaken : takenFrom [.left a produced] c = [] := rfl
    have hgained : gainedFrom [.left a produced] c = [] := rfl
    rw [sentTo_append, takenFrom_append, gainedFrom_append, sentTo_gained, takenFrom_gained,
      gainedFrom_gained, gains hs hsh, hsent, htaken, hgained]
    simp
  | @missed inner e stage hsh =>
    rw [stage] at hs
    rw [sentTo_gained, takenFrom_gained, gainedFrom_gained, gains hs hsh]
    simp
  | checked stage fits hsh => exact silent (.inl (by rw [hsh.conduits])) rfl rfl rfl
  | @sent e v rest total stage hsh =>
    rw [stage] at hp
    obtain ⟨result, -, hsent, -, -⟩ := hp
    have hout : e ∈ k.node.outputs := by
      refine (k.node.restrict_sublist result).subset (List.mem_map.2 ⟨(e, v), ?_, rfl⟩)
      rw [← hsent]
      simp
    by_cases hec : e = c
    · subst hec
      have hsent : sentTo [.sent a e v] e = [v] := by simp [sentTo, Deed.sentTo?]
      rw [hsent, conduit, conduit, hsh.conduits, update_same, Conduit.queue_send]
      rfl
    · have hne : c.id ≠ e.id := fun heq => hec (hsep e (.inr (.inl hout)) heq.symm)
      have hsent : sentTo [.sent a e v] c = [] := by simp [sentTo, Deed.sentTo?, hec]
      exact silent (.inl (by rw [hsh.conduits, update_of_ne hne])) hsent rfl rfl
  | unsent stage misfit hsh => exact silent (.inl (by rw [hsh.conduits])) rfl rfl rfl
  | finished stage hsh => exact silent (.inl (by rw [hsh.conduits])) rfl rfl rfl
  | told stage told => exact silent (.inl (by rw [told.conduits])) rfl rfl rfl

/-- Only a worker that gathers takes from an input. -/
lemma Doing.takenFrom_eq (h : w.Doing w' a k es) (c : Channel) :
    takenFrom es c = [] ∨ ∃ got rest, k.stage = .gathering got (c :: rest) := by
  cases h with
  | @took got e rest v f stage hsh queue others =>
    by_cases hec : e = c
    · exact .inr ⟨got, rest, hec ▸ stage⟩
    · exact .inl (by simp [takenFrom, Deed.takenFrom?, hec])
  | left =>
    refine .inl ?_
    rw [takenFrom_append, takenFrom_gained]
    rfl
  | missed => exact .inl (takenFrom_gained _ _ _)
  | _ => exact .inl rfl

/-! ### The diaries of a run -/

/-- Every worker has done what its stage says; where no worker stands, nothing was done. -/
structure Pages (v : World) (r : Address) (ds : List Deed) : Prop where
  page : ∀ a k, Below r a → v.workers a = some k → Page k.node (diary ds a) k.stage
  blank : ∀ a, Below r a → v.workers a = none → diary ds a = {}

/-- What a step of one worker leaves of the diaries and stages of the others. -/
lemma Pages.of_ne (h : v.Pages r ds) (hc : v.Course r p) (ha : Below r a)
    (hk : v.workers a = some k) {expired : Bool} (hs : v.work? a expired = some u)
    (hactor : ∀ d ∈ es, d.actor = a) (hb : Below r b) (hne : b ≠ a) :
    (∀ k', u.workers b = some k' → Page k'.node (diary (ds ++ es) b) k'.stage) ∧
      (u.workers b = none → diary (ds ++ es) b = {}) := by
  have hst := stride_of_worker hk hs
  have hdiary : diary (ds ++ es) b = diary ds b := by
    rw [diary_append, diary_of_actors fun d hd heq => hne (heq.symm.trans (hactor d hd)),
      Diary.append_empty]
  rw [hdiary]
  rcases hc.tree.worker_of_ne ha hk hst hne with hsame | ⟨hnone, n, token, limit, hnew⟩
  · rw [hsame]
    exact ⟨fun k' hk' => h.page b k' hb hk', fun hn => h.blank b hb hn⟩
  · rw [hnew, h.blank b hb hnone]
    refine ⟨fun k' hk' => ?_, fun hn => (by cases hn)⟩
    obtain rfl := Option.some.inj hk'
    exact page_gather rfl rfl

theorem Pages.work (h : v.Pages r ds) (hlaid : p.Laid) (hc : v.Course r p) (ha : Below r a)
    {expired : Bool} (hs : v.work? a expired = some u) :
    u.Pages r (ds ++ v.workDeeds a expired) := by
  obtain ⟨k, hk, -⟩ := stride_of_work? hs
  have hdo := doing_of_work? hk hs
  obtain ⟨i, path, run, hplace, -, hpost, hlevel⟩ := hc.tree.place ha hk
  have hwired := (hlaid.sound _ _ hlevel).wired _ (List.mem_of_getElem? hpost.node)
  obtain ⟨s, hself, hpage⟩ := page_of_doing (h.page a k ha hk) hwired (hc.tree.suits a k ha hk) hdo
  have hothers := fun {b} hb hne => h.of_ne (b := b) hc ha hk hs hdo.actor hb hne
  refine ⟨fun b k' hb hk' => ?_, fun b hb hn => ?_⟩
  · by_cases hba : b = a
    · subst hba
      obtain rfl := Option.some.inj (hself.symm.trans hk')
      exact hpage
    · exact (hothers hb hba).1 k' hk'
  · by_cases hba : b = a
    · rw [hba, hself] at hn
      cases hn
    · exact (hothers hb hba).2 hn

lemma Pages.same (h : v.Pages r ds) (hw : ∀ a, Below r a → u.workers a = v.workers a) :
    u.Pages r ds where
  page a k ha hk := h.page a k ha (hw a ha ▸ hk)
  blank a ha hk := h.blank a ha (hw a ha ▸ hk)

theorem Pages.step (h : v.Pages r ds) (hlaid : p.Laid) (hc : v.Course r p) {m : Move}
    (hm : m.Of r) (hs : v.step? m = some u) : u.Pages r (ds ++ v.deeds m) := by
  have turned : ∀ {x : Address} {run : Run}, v.Turned u x run → u.Pages r (ds ++ []) := fun ht => by
    rw [List.append_nil]
    exact h.same fun _ _ => by rw [ht.workers]
  cases m with
  | work a => exact h.work hlaid hc hm hs
  | expire a => exact h.work hlaid hc hm hs
  | collect x =>
    cases collected_of_collect? hs with
    | success _ _ _ _ ht => exact turned ht
    | failure _ _ _ _ _ ht => exact turned ht
  | conclude x =>
    obtain ⟨_, _, _, hcon⟩ := concluded_of_conclude? hs
    exact turned hcon.turned
  | cancel t => exact hm.elim

/-- Diaries agree with stages whatever others do meanwhile. -/
theorem Pages.chronicle {env : World → World → Prop} {ms : List Move} (h : v.Pages r ds)
    (hlaid : p.Laid) (hc : v.Course r p) (henv : ∀ x y, env x y → x.Outside r y)
    (hplay : v.Chronicle r env ms es u) : u.Course r p ∧ u.Pages r (ds ++ es) := by
  induction hplay with
  | start => exact ⟨hc, by rwa [List.append_nil]⟩
  | move _ own step ih =>
    rw [← List.append_assoc]
    exact ⟨ih.1.step own step, ih.2.step hlaid ih.1 own step⟩
  | await _ ih => exact ⟨ih.1.await, ih.2.same fun _ _ => by rw [(await_others _ r).1]⟩
  | others _ act ih =>
    have hact := henv _ _ act
    exact ⟨ih.1.outside hact, ih.2.same hact.workers⟩

lemma pages_of_launched {token : Token} {seeds : Payload} (hv : w.Vacant r)
    (hl : w.Launched v r p seeds token) : v.Pages r [] where
  page a k ha hk := by
    by_cases hi : ∃ i, a = i :: r
    · obtain ⟨i, rfl⟩ := hi
      rw [hl.worker_new hv] at hk
      obtain ⟨n, -, rfl⟩ := Option.map_eq_some_iff.1 hk
      exact page_gather rfl rfl
    · rw [hl.worker_old hv ha fun i h => hi ⟨i, h⟩] at hk
      cases hk
  blank _ _ _ := rfl

/-! ### The ledger -/

lemma Ready.laid (h : w.Ready p) : p.Laid where
  sound := h.sound
  apart _ _ _ _ _ _ hq hq' hc hd hid := h.level_eq hq hq' hc hd hid

/-- Others cancel what they like and run whatever else there is, but leave the channels of the
pipeline to its run. -/
structure HandsOff (p : Pipeline) (r : Address) (v u : World) : Prop where
  outside : v.Outside r u
  channels : ∀ path q c, p.level? path = some q → c ∈ q.channels → u.conduit c = v.conduit c

/-- The seeds of a level: those of the whole run, or what the composite around it went inside
with. -/
def seedsOf (r : Address) (seeds : Payload) (ds : List Deed) : Address → Payload
  | [] => seeds
  | i :: path => ((diary ds (i :: (path ++ r))).entered.head?).getD .empty

/-- What the deeds `ds` of the run at `r` say about the world `v`, when it was `w` before. -/
structure Ledger (w v : World) (r : Address) (p : Pipeline) (seeds : Payload) (ds : List Deed) :
    Prop where
  flow : ∀ path q c, p.level? path = some q → c ∈ q.channels →
    (w.conduit c).queue ++ ((seedsOf r seeds ds path).get? c.name).toList ++ sentTo ds c =
      takenFrom ds c ++ gainedFrom ds c ++ (v.conduit c).queue
  page : ∀ a k, Below r a → v.workers a = some k → Page k.node (diary ds a) k.stage
  blank : ∀ a, Below r a → v.workers a = none → diary ds a = {}
  own : ∀ d ∈ ds, Below r d.actor

section

variable {seeds : Payload} {path : Address} {x : Value}

lemma Ledger.pages (h : w.Ledger v r p seeds ds) : v.Pages r ds := ⟨h.page, h.blank⟩

/-- Whoever has done something is there. -/
lemma Ledger.exists_worker (h : w.Ledger v r p seeds ds) (hb : Below r b)
    (hd : diary ds b ≠ {}) : ∃ k, v.workers b = some k := by
  cases hk : v.workers b with
  | none => exact absurd (h.blank b hb hk) hd
  | some k => exact ⟨k, rfl⟩

/-- Values come to a channel from its writers. -/
lemma Ledger.sender (h : w.Ledger v r p seeds ds) (hlaid : p.Laid) (ht : v.Tree r p)
    (hq : p.level? path = some q) (hc : c ∈ q.channels) (hx : .sent b c x ∈ ds) :
    ∃ i k, b = i :: (path ++ r) ∧ v.workers b = some k ∧ q.nodes[i]? = some k.node ∧
      c ∈ k.node.outputs := by
  have hmem : (c, x) ∈ (diary ds b).sent := mem_diary_sent.2 hx
  have hb : Below r b := h.own _ hx
  obtain ⟨k, hk⟩ := h.exists_worker hb fun hd => by simp [hd] at hmem
  obtain ⟨i, path', run, rfl, -, hpost, hlevel⟩ := ht.place hb hk
  have hout : c ∈ k.node.outputs :=
    (h.page _ k hb hk).proper.sent.subset (List.mem_map.2 ⟨_, hmem, rfl⟩)
  have hnode := List.mem_of_getElem? hpost.node
  obtain rfl := hlaid.apart _ _ _ _ _ _ hlevel hq (hlaid.output hlevel hnode hout) hc rfl
  obtain rfl := Option.some.inj (hlevel.symm.trans hq)
  exact ⟨i, k, rfl, hk, hpost.node, hout⟩

/-- Values are taken from a channel by its readers. -/
lemma Ledger.taker (h : w.Ledger v r p seeds ds) (hlaid : p.Laid) (ht : v.Tree r p)
    (hq : p.level? path = some q) (hc : c ∈ q.channels) (hx : .took b c x ∈ ds) :
    ∃ i k, b = i :: (path ++ r) ∧ v.workers b = some k ∧ q.nodes[i]? = some k.node ∧
      c ∈ k.node.inputs := by
  have hmem : (c, x) ∈ (diary ds b).taken :=
    List.mem_filterMap.2 ⟨_, hx, if_pos rfl⟩
  have hb : Below r b := h.own _ hx
  obtain ⟨k, hk⟩ := h.exists_worker hb fun hd => by simp [hd] at hmem
  obtain ⟨i, path', run, rfl, -, hpost, hlevel⟩ := ht.place hb hk
  have hin : c ∈ k.node.inputs :=
    (h.page _ k hb hk).proper.taken.subset (List.mem_map.2 ⟨_, hmem, rfl⟩)
  have hnode := List.mem_of_getElem? hpost.node
  obtain rfl := hlaid.apart _ _ _ _ _ _ hlevel hq (hlaid.input hlevel hnode hin) hc rfl
  obtain rfl := Option.some.inj (hlevel.symm.trans hq)
  exact ⟨i, k, rfl, hk, hpost.node, hin⟩

/-- Only the composite around a level takes values out of it. -/
lemma Ledger.gainer (h : w.Ledger v r p seeds ds) (hlaid : p.Laid) (ht : v.Tree r p)
    (hq : p.level? path = some q) (hc : c ∈ q.channels) (hx : .gained b c x ∈ ds) :
    b = path ++ r ∧ Below r b ∧ ∃ k, v.workers b = some k ∧ (c, x) ∈ (diary ds b).gained := by
  have hmem : (c, x) ∈ (diary ds b).gained :=
    List.mem_filterMap.2 ⟨_, hx, if_pos rfl⟩
  have hb : Below r b := h.own _ hx
  obtain ⟨k, hk⟩ := h.exists_worker hb fun hd => by simp [hd] at hmem
  obtain ⟨i, path', run, rfl, -, hpost, hlevel⟩ := ht.place hb hk
  obtain ⟨inner, hinner, hin⟩ := (h.page _ k hb hk).proper.gained _ hmem
  have hbelow := Pipeline.level?_cons hlevel hpost.node hinner
  obtain rfl := hlaid.apart _ _ _ _ _ _ hbelow hq hin hc rfl
  exact ⟨rfl, hb, k, hk, hmem⟩

/-- As long as a reader on a level gathers, the composite around it has taken nothing out. -/
lemma Ledger.gainedFrom_of_gathering (h : w.Ledger v r p seeds ds) (hlaid : p.Laid)
    (hc : v.Course r p) (hq : p.level? path = some q) (hch : c ∈ q.channels) {i : Nat}
    {got : Payload} {rest : List Channel} (hk : v.workers (i :: (path ++ r)) = some k)
    (hs : k.stage = .gathering got rest) : gainedFrom ds c = [] := by
  refine List.eq_nil_iff_forall_not_mem.2 fun x hx => ?_
  obtain ⟨b, hmem⟩ := mem_gainedFrom.1 hx
  obtain ⟨rfl, hb, kb, hkb, hgain⟩ := h.gainer hlaid hc.tree hq hch hmem
  obtain ⟨run, hrun, -⟩ := hc.tree.posted _ i k hb.suffix hk
  have hpage := h.page _ kb hb hkb
  have habove := hc.tree.above _ kb hb hkb
  rw [hrun] at habove
  have hover : run.Over := by
    unfold Worker.Above at habove
    cases hst : kb.stage <;> rw [hst] at habove hpage
    case gathering => cases habove
    case calling => cases habove
    case entering => cases habove
    case inside =>
      obtain ⟨_, _, hd, -⟩ := hpage
      simp [hd] at hgain
    all_goals exact (habove run rfl).2
  obtain ⟨result, hrep⟩ := ((hc.hearing _ run hb.suffix hrun).closed hover).2 i k hk
  rw [hs] at hrep
  cases hrep

/-- The ledger after a step of a worker that starts no run. -/
lemma Ledger.moved (h : w.Ledger v r p seeds ds) (hlaid : p.Laid) (hc : v.Course r p)
    (ha : Below r a) (hk : v.workers a = some k) (hdo : v.Doing u a k es)
    (hne : ∀ inputs, es ≠ [.entered a inputs]) (hentered : ∀ b, (diary es b).entered = [])
    (hq : p.level? path = some q) (hch : c ∈ q.channels) :
    (w.conduit c).queue ++ ((seedsOf r seeds (ds ++ es) path).get? c.name).toList ++
        sentTo (ds ++ es) c =
      takenFrom (ds ++ es) c ++ gainedFrom (ds ++ es) c ++ (u.conduit c).queue := by
  obtain ⟨i, path', run, rfl, -, hpost, hlevel⟩ := hc.tree.place ha hk
  have hnode := List.mem_of_getElem? hpost.node
  have hseeds : seedsOf r seeds (ds ++ es) path = seedsOf r seeds ds path := by
    cases path with
    | nil => rfl
    | cons j path =>
      rw [seedsOf, seedsOf, diary_append, Diary.append_def, hentered, List.append_nil]
  have hflow := hdo.flow (c := c) hne (h.page _ k ha hk) (hc.tree.suits _ k ha hk) hc.lines.orderly
    fun e he hid => by
      rcases he with he | he | ⟨inner, hinner, he⟩
      · exact hlaid.eq_of_id hlevel hq (hlaid.input hlevel hnode he) hch hid
      · exact hlaid.eq_of_id hlevel hq (hlaid.output hlevel hnode he) hch hid
      · exact hlaid.eq_of_id (Pipeline.level?_cons hlevel hpost.node hinner) hq he hch hid
  have hbefore := h.flow path q c hq hch
  -- a value that is taken now comes after all that were taken before
  have horder : gainedFrom ds c ++ takenFrom es c = takenFrom es c ++ gainedFrom ds c := by
    rcases hdo.takenFrom_eq c with hnil | ⟨got, rest, hs⟩
    · rw [hnil, List.append_nil, List.nil_append]
    · have hin : c ∈ k.node.inputs := by
        have hsuits := hc.tree.suits _ k ha hk
        rw [hs] at hsuits
        exact hsuits.2.subset List.mem_cons_self
      obtain rfl := hlaid.apart _ _ _ _ _ _ hlevel hq (hlaid.input hlevel hnode hin) hch rfl
      rw [h.gainedFrom_of_gathering hlaid hc hq hch hk hs, List.append_nil, List.nil_append]
  rw [hseeds, sentTo_append, takenFrom_append, gainedFrom_append, ← List.append_assoc, hbefore]
  calc takenFrom ds c ++ gainedFrom ds c ++ (v.conduit c).queue ++ sentTo es c
    _ = takenFrom ds c ++ gainedFrom ds c ++ ((v.conduit c).queue ++ sentTo es c) := by
        rw [List.append_assoc]
    _ = takenFrom ds c ++ (gainedFrom ds c ++ takenFrom es c) ++ gainedFrom es c ++
          (u.conduit c).queue := by
        rw [hflow]
        simp only [List.append_assoc]
    _ = takenFrom ds c ++ takenFrom es c ++ (gainedFrom ds c ++ gainedFrom es c) ++
          (u.conduit c).queue := by
        rw [horder]
        simp only [List.append_assoc]

/-- Until a composite goes inside, nothing has been done on the channels there. -/
lemma Ledger.untouched (h : w.Ledger v r p seeds ds) (hlaid : p.Laid) (hc : v.Course r p) {i : Nat}
    (hk : v.workers (i :: (path ++ r)) = some k) {inputs : Payload}
    (hs : k.stage = .entering inner inputs) (hq : p.level? (i :: path) = some inner)
    (hch : c ∈ inner.channels) : sentTo ds c = [] ∧ takenFrom ds c = [] ∧ gainedFrom ds c = [] := by
  have ha : Below r (i :: (path ++ r)) := below_cons.2 (List.suffix_append path r)
  have hworkers := hc.tree.workers_of_runs_none ha.suffix (hc.tree.runs_of_entering ha hk hs)
  refine ⟨List.eq_nil_iff_forall_not_mem.2 fun x hx => ?_,
    List.eq_nil_iff_forall_not_mem.2 fun x hx => ?_,
    List.eq_nil_iff_forall_not_mem.2 fun x hx => ?_⟩
  · obtain ⟨b, hmem⟩ := mem_sentTo.1 hx
    obtain ⟨j, kb, rfl, hkb, -⟩ := h.sender hlaid hc.tree hq hch hmem
    rw [List.cons_append, hworkers j] at hkb
    cases hkb
  · obtain ⟨b, hmem⟩ := mem_takenFrom.1 hx
    obtain ⟨j, kb, rfl, hkb, -⟩ := h.taker hlaid hc.tree hq hch hmem
    rw [List.cons_append, hworkers j] at hkb
    cases hkb
  · obtain ⟨b, hmem⟩ := mem_gainedFrom.1 hx
    obtain ⟨rfl, -, -, -, hgain⟩ := h.gainer hlaid hc.tree hq hch hmem
    have hpage := h.page _ k ha hk
    rw [hs] at hpage
    obtain ⟨taken, hd, -⟩ := hpage
    rw [List.cons_append, hd] at hgain
    cases hgain

/-- The seeds of a level are what the composite around it went inside with, and nobody else. -/
lemma seedsOf_entered_of_ne {path' : Address} {i : Nat} {inputs : Payload}
    (h : path ≠ i :: path') :
    seedsOf r seeds (ds ++ [.entered (i :: (path' ++ r)) inputs]) path =
      seedsOf r seeds ds path := by
  cases path with
  | nil => rfl
  | cons j path =>
    have hother : diary [.entered (i :: (path' ++ r)) inputs] (j :: (path ++ r)) = {} := by
      refine diary_of_actors fun d hd => ?_
      rw [List.mem_singleton.1 hd]
      intro heq
      obtain ⟨rfl, htail⟩ := List.cons.inj heq
      exact h (by rw [List.append_cancel_right htail])
    rw [seedsOf, seedsOf, diary_append, hother, Diary.append_empty]

/-- The ledger after a composite has started the run inside it. -/
lemma Ledger.entered (h : w.Ledger v r p seeds ds) (hlaid : p.Laid) (hc : v.Course r p)
    (ha : Below r a) (hk : v.workers a = some k) {inputs : Payload} {id : Nat}
    (hs : k.stage = .entering inner inputs) (he : v.Entered u a k inner id inputs)
    (hq : p.level? path = some q) (hch : c ∈ q.channels) :
    (w.conduit c).queue ++
        ((seedsOf r seeds (ds ++ [.entered a inputs]) path).get? c.name).toList ++
        sentTo (ds ++ [.entered a inputs]) c =
      takenFrom (ds ++ [.entered a inputs]) c ++ gainedFrom (ds ++ [.entered a inputs]) c ++
        (u.conduit c).queue := by
  obtain ⟨i, path', run, rfl, -, hpost, hlevel⟩ := hc.tree.place ha hk
  have hinner := hc.tree.inner_of_entering ha hk hs
  have hbelow := Pipeline.level?_cons hlevel hpost.node hinner
  have hbefore := h.flow path q c hq hch
  have hsent : sentTo [.entered (i :: (path' ++ r)) inputs] c = [] := rfl
  have htaken : takenFrom [.entered (i :: (path' ++ r)) inputs] c = [] := rfl
  have hgained : gainedFrom [.entered (i :: (path' ++ r)) inputs] c = [] := rfl
  rw [sentTo_append, takenFrom_append, gainedFrom_append, hsent, htaken, hgained, List.append_nil,
    List.append_nil, List.append_nil]
  by_cases hpath : path = i :: path'
  · -- the seeds are the first deed that concerns this level
    subst hpath
    obtain rfl := Option.some.inj (hbelow.symm.trans hq)
    have hpage := h.page _ k ha hk
    rw [hs] at hpage
    obtain ⟨taken, hd, -⟩ := hpage
    obtain ⟨hnosent, hnotaken, hnogain⟩ := h.untouched hlaid hc hk hs hbelow hch
    have hold : seedsOf r seeds ds (i :: path') = .empty := by
      rw [seedsOf, hd]
      rfl
    have hnew : seedsOf r seeds (ds ++ [.entered (i :: (path' ++ r)) inputs]) (i :: path') =
        inputs := by
      rw [seedsOf, diary_append, hd, diary_entered]
      rfl
    have hqueue : (u.conduit c).queue = (v.conduit c).queue ++ (inputs.get? c.name).toList := by
      rw [conduit, he.conduits, (hlaid.sound _ _ hbelow).queue_sow hch, Payload.values_eq]
      rfl
    rw [hold, hnosent, hnotaken, hnogain] at hbefore
    rw [hnew, hnosent, hnotaken, hnogain, hqueue]
    simpa using hbefore
  · have hqueue : u.conduit c = v.conduit c := by
      rw [conduit, he.conduits]
      refine Pipeline.sow_of_forall_ne (fun d hd hid => hpath ?_) _ _
      exact hlaid.apart _ _ _ _ _ _ hq hbelow hch hd hid.symm
    rw [seedsOf_entered_of_ne hpath, hqueue, hbefore]

theorem Ledger.work (h : w.Ledger v r p seeds ds) (hlaid : p.Laid) (hc : v.Course r p)
    (ha : Below r a) {expired : Bool} (hs : v.work? a expired = some u) :
    w.Ledger u r p seeds (ds ++ v.workDeeds a expired) := by
  obtain ⟨k, hk, -⟩ := stride_of_work? hs
  have hpages := h.pages.work hlaid hc ha hs
  have hdo := doing_of_work? hk hs
  refine ⟨fun path q c hq hch => ?_, hpages.page, hpages.blank, fun d hd => ?_⟩
  · generalize v.workDeeds a expired = es at hdo
    rcases hdo.entry with ⟨inner, inputs, id, hstage, rfl, he⟩ | ⟨hne, hentered⟩
    · exact h.entered hlaid hc ha hk hstage he hq hch
    · exact h.moved hlaid hc ha hk hdo hne hentered hq hch
  · rcases List.mem_append.1 hd with hd | hd
    · exact h.own d hd
    · rw [hdo.actor d hd]
      exact ha

/-- Whatever leaves the workers of the run and the queues of its channels leaves the ledger. -/
lemma Ledger.same (h : w.Ledger v r p seeds ds) (hw : ∀ a, Below r a → u.workers a = v.workers a)
    (hq : ∀ path q c, p.level? path = some q → c ∈ q.channels → u.conduit c = v.conduit c) :
    w.Ledger u r p seeds ds where
  flow path q c hlevel hc := by
    rw [hq path q c hlevel hc]
    exact h.flow path q c hlevel hc
  page := (h.pages.same hw).page
  blank := (h.pages.same hw).blank
  own := h.own

theorem Ledger.step (h : w.Ledger v r p seeds ds) (hlaid : p.Laid) (hc : v.Course r p) {m : Move}
    (hm : m.Of r) (hs : v.step? m = some u) : w.Ledger u r p seeds (ds ++ v.deeds m) := by
  have turned : ∀ {x : Address} {run : Run}, v.Turned u x run → w.Ledger u r p seeds (ds ++ []) :=
    fun ht => by
      rw [List.append_nil]
      exact h.same (fun _ _ => by rw [ht.workers]) fun _ _ _ _ _ => by
        rw [conduit, ht.conduits]
        rfl
  cases m with
  | work a => exact h.work hlaid hc hm hs
  | expire a => exact h.work hlaid hc hm hs
  | collect x =>
    cases collected_of_collect? hs with
    | success _ _ _ _ ht => exact turned ht
    | failure _ _ _ _ _ ht => exact turned ht
  | conclude x =>
    obtain ⟨_, _, _, hcon⟩ := concluded_of_conclude? hs
    exact turned hcon.turned
  | cancel t => exact hm.elim

/-- When a run has just started, its channels hold what they held and the seeds. -/
lemma ledger_of_launched {token : Token} (hlaid : p.Laid) (hv : w.Vacant r)
    (hl : w.Launched v r p seeds token) : w.Ledger v r p seeds [] where
  flow path q c hq hch := by
    cases path with
    | nil =>
      obtain rfl := Option.some.inj hq
      rw [seedsOf, conduit, conduit, hl.conduits, (hlaid.sound _ _ hq).queue_sow hch,
        Payload.values_eq]
      simp
    | cons i path =>
      have hqueue : v.conduit c = w.conduit c := by
        rw [conduit, hl.conduits]
        refine Pipeline.sow_of_forall_ne (fun d hd hid => ?_) _ _
        have := hlaid.apart _ _ _ _ _ _ hq (Pipeline.level?_nil p) hch hd hid.symm
        cases this
      rw [hqueue, seedsOf]
      simp
  page := (pages_of_launched hv hl).page
  blank := (pages_of_launched hv hl).blank
  own d hd := by cases hd

/-- The ledger is kept through every play. -/
theorem ledger_of_chronicle {token : Token} {runtime : Bool} {w₁ : World} {ms : List Move}
    (hlaid : p.Laid) (hv : w.Vacant r) (ho : ∀ x, (w.conduits x).Orderly)
    (hstart : w.start r p seeds token runtime = .ok w₁)
    (h : w₁.Chronicle r (HandsOff p r) ms ds v) : v.Course r p ∧ w.Ledger v r p seeds ds := by
  have course : ∀ {ms ds v}, w₁.Chronicle r (HandsOff p r) ms ds v → v.Course r p :=
    fun h => course_of_plays hv ho hstart (fun _ _ hact => hact.outside) h.plays
  refine ⟨course h, ?_⟩
  induction h with
  | start => exact ledger_of_launched hlaid hv (start_eq_ok hstart).2.2
  | move before own step ih => exact ih.step hlaid (course before) own step
  | await before ih =>
    obtain ⟨hw, hc, -⟩ := await_others _ r
    exact ih.same (fun _ _ => by rw [hw]) fun _ _ _ _ _ => by
      rw [conduit, hc]
      rfl
  | others before act ih => exact ih.same act.outside.workers act.channels

/-- What the deeds `ds` and the queues of `w` before and of `v` now have to do with each other. -/
structure Balances (w v : World) (r : Address) (p : Pipeline) (seeds : Payload) (ds : List Deed) :
    Prop where
  /-- What was queued, the seed of the level, and what was published are what was taken, what the
  composite around the level has collected, and what is queued, all in this order. -/
  flow : ∀ path q c, p.level? path = some q → c ∈ q.channels →
    (w.conduit c).queue ++ ((seedsOf r seeds ds path).get? c.name).toList ++ sentTo ds c =
      takenFrom ds c ++ gainedFrom ds c ++ (v.conduit c).queue
  /-- Nothing is collected from the whole run, nor from a level whose run somebody waits for. -/
  uncollected : ∀ path q c, p.level? path = some q → c ∈ q.channels →
    path = [] ∨ (∃ k inner, v.workers (path ++ r) = some k ∧ k.stage = .inside inner) →
    gainedFrom ds c = []
  readers : ∀ path q c a x, p.level? path = some q → c ∈ q.channels → .took a c x ∈ ds →
    ∃ i n, a = i :: (path ++ r) ∧ q.nodes[i]? = some n ∧ c ∈ n.inputs
  writers : ∀ path q c a x, p.level? path = some q → c ∈ q.channels → .sent a c x ∈ ds →
    ∃ i n, a = i :: (path ++ r) ∧ q.nodes[i]? = some n ∧ c ∈ n.outputs
  /-- A worker takes at most one value from a channel and publishes at most one to it. -/
  once : ∀ a k, Below r a → v.workers a = some k →
    ((diary ds a).taken.map Prod.fst).Nodup ∧ ((diary ds a).sent.map Prod.fst).Nodup
  /-- Whoever succeeded has one value from each input, and has published what its body made of
  them, restricted to its outputs. -/
  succeeded : ∀ a k, Below r a → v.workers a = some k → k.Ended (.ok ()) →
    (diary ds a).taken.map Prod.fst = k.node.inputs ∧
      ∃ result, Worked k.node (diary ds a) result ∧ (diary ds a).sent = k.node.restrict result
  failed : ∀ a k e, Below r a → v.workers a = some k → k.Ended (.error e) → (diary ds a).sent = []

/-- **The ledger balances** after any play of a run whose channels only its own workers touch,
however it fares and whoever is cancelled. -/
theorem ledger_balances {token : Token} {runtime : Bool} {w₁ : World} {ms : List Move}
    (hlaid : p.Laid) (hv : w.Vacant r) (ho : ∀ x, (w.conduits x).Orderly)
    (hstart : w.start r p seeds token runtime = .ok w₁)
    (h : w₁.Chronicle r (HandsOff p r) ms ds v) : w.Balances v r p seeds ds := by
  obtain ⟨hc, hledger⟩ := ledger_of_chronicle hlaid hv ho hstart h
  have closed : ∀ {a k result}, Below r a → v.workers a = some k → k.Ended result →
      Closed k.node (diary ds a) result := by
    intro a k result ha hk hended
    have hpage := hledger.page a k ha hk
    rcases hended with hs | hs <;> rw [hs] at hpage <;> exact hpage.1
  refine ⟨hledger.flow, fun path q c hq hch hinside => ?_, fun path q c a x hq hch hx => ?_,
    fun path q c a x hq hch hx => ?_, fun a k ha hk => ?_, fun a k ha hk hended => ?_,
    fun a k e ha hk hended => (closed ha hk hended).2⟩
  · refine List.eq_nil_iff_forall_not_mem.2 fun x hx => ?_
    obtain ⟨b, hmem⟩ := mem_gainedFrom.1 hx
    obtain ⟨rfl, hb, k, hk, hgain⟩ := hledger.gainer hlaid hc.tree hq hch hmem
    rcases hinside with rfl | ⟨k', inner, hk', hs⟩
    · exact hb.ne rfl
    · obtain rfl := Option.some.inj (hk.symm.trans hk')
      have hpage := hledger.page _ k hb hk
      rw [hs] at hpage
      obtain ⟨_, _, hd, -⟩ := hpage
      simp [hd] at hgain
  · obtain ⟨i, k, ha, -, hn, hin⟩ := hledger.taker hlaid hc.tree hq hch hx
    exact ⟨i, k.node, ha, hn, hin⟩
  · obtain ⟨i, k, ha, -, hn, hout⟩ := hledger.sender hlaid hc.tree hq hch hx
    exact ⟨i, k.node, ha, hn, hout⟩
  · obtain ⟨i, path, run, rfl, -, hpost, hlevel⟩ := hc.tree.place ha hk
    have hwired := (hlaid.sound _ _ hlevel).wired _ (List.mem_of_getElem? hpost.node)
    obtain ⟨hins, houts⟩ := Node.nodup_of_wiringFault? hwired
    have hproper := (hledger.page _ k ha hk).proper
    exact ⟨(List.Nodup.of_map _ hins).sublist hproper.taken.sublist,
      (List.Nodup.of_map _ houts).sublist hproper.sent⟩
  · obtain ⟨result, hworked, hsent⟩ := closed ha hk hended
    obtain ⟨inputs, hgathered⟩ := hworked.gathered'
    exact ⟨hgathered.channels, result, hworked, hsent⟩

/-- The line of a source, a composite and a sink can be played to its end, and its ledger
balances. -/
theorem line_balances : ∃ w₁ ms ds v, ({ initial with fresh := 6 } : World).start [6] line .empty
    [6] true = .ok w₁ ∧ w₁.Chronicle [6] (HandsOff line [6]) ms ds v ∧ v.Still [6] ∧
      ({ initial with fresh := 6 } : World).Balances v [6] line .empty ds := by
  have hvalid : ({ initial with fresh := 6 } : World).validate line .empty = .ok () :=
    validate_eq_ok.2 ⟨rfl, fun _ => by cbv⟩
  obtain ⟨w₁, hw⟩ := exists_start [6] [6] rfl hvalid
  have ho := outset_of_workshop workshop_line List.mem_cons_self hw fun path q hq => by
    rcases level?_line hq with rfl | rfl <;> rfl
  obtain ⟨ms, v, hplay, hstill⟩ := ho.exists_still
  obtain ⟨ds, htold⟩ := exists_chronicle (hplay.mono fun _ _ h => h.elim)
  exact ⟨w₁, ms, ds, v, hw, htold, hstill,
    ledger_balances ho.ready.laid ho.vacant ho.orderly hw htold⟩

end

end World

end Dataflow
