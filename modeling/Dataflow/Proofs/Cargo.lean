import Dataflow.Proofs.Built
import Dataflow.Run.Publish

/-!
What payloads carry. A payload that holds its channels has exactly one fitting value under each of
their names. Seeds bring one value each; what a node yields is sent in full; and a composite gets
an output from inside wherever a value is left over there.
-/

namespace Dataflow

namespace Payload

lemma lookup_filter_ne (entries : List (String × Value)) (key x : String) :
    (entries.filter fun e => e.1 ≠ key).lookup x =
      if x = key then none else entries.lookup x := by
  induction entries with
  | nil => simp
  | cons e rest ih =>
    obtain ⟨name, v⟩ := e
    by_cases hname : name = key
    · subst hname
      rw [List.filter_cons_of_neg (by simp), ih]
      by_cases hx : x = name
      · simp [hx]
      · have : (x == name) = false := by simpa using hx
        simp [hx, List.lookup_cons, this]
    · rw [List.filter_cons_of_pos (by simpa using hname), List.lookup_cons, List.lookup_cons, ih]
      by_cases hx : x = name
      · subst hx
        simp [hname]
      · have : (x == name) = false := by simpa using hx
        simp [this]

lemma get?_insert (p : Payload) (key x : String) (v : Value) :
    (p.insert key v).get? x = if x = key then some v else p.get? x := by
  have herase : (p.erase key).entries.lookup x = if x = key then none else p.get? x :=
    lookup_filter_ne p.entries key x
  rw [get?, entries_insert, List.lookup_append, herase]
  by_cases hx : x = key
  · simp [hx]
  · have : (x == key) = false := by simpa using hx
    simp [hx, List.lookup_cons, this]

lemma keys_insert {p : Payload} {key : String} (h : key ∉ p.keys) (v : Value) :
    (p.insert key v).keys = p.keys ++ [key] := by
  have hfilter : (p.entries.filter fun e => e.1 ≠ key) = p.entries :=
    List.filter_eq_self.2 fun e he => by
      have : e.1 ≠ key := fun heq => h (heq ▸ List.mem_map_of_mem he)
      simpa using this
  rw [keys, entries_insert, entries_erase, hfilter, List.map_append]
  rfl

lemma Yields.insert {got : Payload} {cs : List Channel} {c : Channel} {v : Value}
    (h : got.Yields cs) (hv : c.type.accepts v = true) (hc : ∀ d ∈ cs, d.name ≠ c.name) :
    (got.insert c.name v).Yields (c :: cs) := by
  rintro d (_ | ⟨_, hd⟩)
  · exact ⟨v, by rw [get?_insert, if_pos rfl], hv⟩
  · obtain ⟨x, hx, hacc⟩ := h d hd
    exact ⟨x, by rw [get?_insert, if_neg (hc d hd), hx], hacc⟩

lemma get?_ofList_map (names : List String) (v : Value) (x : String) :
    (ofList (names.map fun name => (name, v))).get? x = if x ∈ names then some v else none := by
  have hfold : ∀ p : Payload, ((names.map fun name => (name, v)).foldl
      (fun p e => p.insert e.1 e.2) p).get? x = if x ∈ names then some v else p.get? x := by
    induction names with
    | nil => intro p; simp
    | cons name rest ih =>
      intro p
      rw [List.map_cons, List.foldl_cons, ih, get?_insert]
      by_cases hx : x = name <;> by_cases hr : x ∈ rest <;> simp [hx, hr]
  exact hfold .empty

/-- The payload has exactly these names as its keys, in this order, each with a fitting value. -/
structure Holds (got : Payload) (cs : List Channel) : Prop where
  keys : got.keys = cs.map (·.name)
  yields : got.Yields cs

lemma holds_empty : empty.Holds [] := ⟨rfl, by simp [Yields]⟩

lemma Holds.insert {got : Payload} {cs : List Channel} {c : Channel} {v : Value}
    (h : got.Holds cs) (hv : c.type.accepts v = true) (hc : c.name ∉ cs.map (·.name)) :
    (got.insert c.name v).Holds (cs ++ [c]) where
  keys := by
    rw [keys_insert (h.keys ▸ hc), h.keys, List.map_append]
    rfl
  yields := by
    have hins := h.yields.insert hv fun d hd heq => hc (heq ▸ List.mem_map_of_mem hd)
    intro d hd
    rw [List.mem_append, List.mem_singleton] at hd
    exact hins d (List.mem_cons.2 hd.symm)

lemma lookup_of_mem_nodup {entries : List (String × Value)}
    (h : (entries.map Prod.fst).Nodup) {e : String × Value} (he : e ∈ entries) :
    entries.lookup e.1 = some e.2 := by
  induction entries with
  | nil => cases he
  | cons e' rest ih =>
    obtain ⟨name, v⟩ := e'
    rw [List.map_cons, List.nodup_cons] at h
    rcases List.mem_cons.1 he with rfl | he
    · simp
    · have hmem : e.1 ∈ rest.map Prod.fst := List.mem_map_of_mem he
      have hne : (e.1 == name) = false := by
        have : e.1 ≠ name := fun heq => h.1 (heq ▸ hmem)
        simpa using this
      rw [List.lookup_cons, hne]
      exact ih h.2 he

/-- Every entry of a payload that holds its channels fits the channel of its name. -/
lemma Holds.entry {got : Payload} {cs : List Channel} (h : got.Holds cs) {e : String × Value}
    (he : e ∈ got.entries) : ∃ c ∈ cs, c.name = e.1 ∧ c.type.accepts e.2 = true := by
  have hkey : e.1 ∈ got.keys := List.mem_map_of_mem he
  rw [h.keys] at hkey
  obtain ⟨c, hc, hname⟩ := List.mem_map.1 hkey
  obtain ⟨v, hv, hacc⟩ := h.yields c hc
  rw [hname, get?, lookup_of_mem_nodup got.nodup_keys he] at hv
  obtain rfl := Option.some.inj hv
  exact ⟨c, hc, hname, hacc⟩

end Payload

/-! ### Publishing -/

lemma Node.pair_of_yields {n : Node} {produced : Payload} {outs : List Channel}
    (h : produced.Yields outs) : ∃ ready, (n.pair produced outs).2 = .ok ready ∧
      ready.map Prod.fst = outs ∧ ∀ e ∈ ready, e.1.type.accepts e.2 = true := by
  induction outs with
  | nil => exact ⟨[], rfl, rfl, by simp⟩
  | cons c rest ih =>
    obtain ⟨v, hv, hacc⟩ := h c List.mem_cons_self
    obtain ⟨ready, hready, hmap, hall⟩ := ih fun d hd => h d (List.mem_cons_of_mem _ hd)
    refine ⟨(c, v) :: ready, ?_, by simp [hmap], ?_⟩
    · simp [Node.pair, hv, Channel.check_eq_ok_iff.2 hacc, hready, Except.map]
    · rintro e (_ | ⟨_, he⟩)
      · exact hacc
      · exact hall e he

/-- A node that has a fitting value for each output will send all of them. -/
lemma Node.prepare_of_yields {n : Node} {produced : Payload} (h : produced.Yields n.outputs) :
    ∃ ready, (n.prepare produced).2 = .ok ready ∧ ready.map Prod.fst = n.outputs ∧
      ∀ e ∈ ready, e.1.type.accepts e.2 = true := by
  obtain ⟨ready, hready, hmap, hall⟩ := pair_of_yields (n := n) h
  refine ⟨ready, ?_, hmap, hall⟩
  unfold prepare
  rcases hp : n.pair produced n.outputs with ⟨notices, e | ready'⟩ <;> rw [hp] at hready
  · cases hready
  · exact hready

/-! ### Seeds -/

lemma Conduit.queue_foldl_send {ι : Type} (values : List Value) (k : Conduit ι) :
    (values.foldl send k).queue = k.queue ++ values := by
  induction values generalizing k with
  | nil => simp
  | cons x rest ih => simp [ih]

namespace Pipeline

variable {q : Pipeline}

/-- A channel is sent the seeds of its own name, in their order. -/
lemma Sound.sow_eq (h : q.Sound) {c : Channel} (hc : c ∈ q.channels)
    (entries : List (String × Value)) (f : Nat → Conduit Address) :
    q.sow entries f c.id =
      ((entries.filter fun e => e.1 = c.name).map Prod.snd).foldl Conduit.send (f c.id) := by
  induction entries generalizing f with
  | nil => rfl
  | cons e rest ih =>
    obtain ⟨name, v⟩ := e
    cases hd : q.channel? name with
    | none =>
      have hne : name ≠ c.name := by
        rintro rfl
        rw [h.channel?_self hc] at hd
        cases hd
      rw [sow, hd, List.filter_cons_of_neg (by simpa using hne)]
      exact ih f
    | some d =>
      obtain ⟨hmem, rfl⟩ := mem_of_channel? hd
      simp only [sow, hd]
      rw [ih]
      by_cases hdc : d = c
      · subst hdc
        rw [update_same, List.filter_cons_of_pos (by simp)]
        rfl
      · have hid : c.id ≠ d.id := fun heq => hdc (h.eq_of_id hc hmem heq).symm
        have hname : d.name ≠ c.name := fun heq => hdc (h.eq_of_name hmem hc heq)
        rw [update_of_ne hid, List.filter_cons_of_neg (by simpa using hname)]

/-- The seeds of its own name come to the end of a channel. -/
lemma Sound.queue_sow (h : q.Sound) {c : Channel} (hc : c ∈ q.channels)
    (entries : List (String × Value)) (f : Nat → Conduit Address) :
    (q.sow entries f c.id).queue =
      (f c.id).queue ++ (entries.filter fun e => e.1 = c.name).map Prod.snd := by
  rw [h.sow_eq hc, Conduit.queue_foldl_send]

lemma length_filter_keys (seeds : Payload) (x : String) :
    (seeds.entries.filter fun e => e.1 = x).length = if x ∈ seeds.keys then 1 else 0 := by
  have hcount : (seeds.entries.filter fun e => e.1 = x).length = seeds.keys.count x := by
    rw [Payload.keys, List.count, List.countP_map, List.countP_eq_length_filter]
    rfl
  rw [hcount]
  split
  · next hx => exact List.count_eq_one_of_mem seeds.nodup_keys hx
  · next hx => exact List.count_eq_zero_of_not_mem hx

/-- Each seed brings its channel one value more. -/
lemma Sound.length_queue_sow (h : q.Sound) {c : Channel} (hc : c ∈ q.channels) (seeds : Payload)
    (f : Nat → Conduit Address) : (q.sow seeds.entries f c.id).queue.length =
      (f c.id).queue.length + if c.name ∈ seeds.keys then 1 else 0 := by
  rw [h.queue_sow hc, List.length_append, List.length_map, length_filter_keys]

end Pipeline

namespace World

/-! ### Taking outputs -/

lemma tryReceive_of_queue {w : World} {c : Channel} (ho : (w.conduit c).Orderly)
    (hline : (w.conduit c).line = []) (hq : (w.conduit c).queue ≠ []) :
    ∃ v q, w.tryReceive c = (some v, w.setConduit c q) ∧ (w.conduit c).queue = v :: q.queue := by
  rcases (w.conduit c).tryReceive_cases ho with ⟨hf, -⟩ | ⟨v, q, hrec, hqueue, -⟩
  · have htally := ho.tally
    have hg : (w.conduit c).granted = [] := (List.append_eq_nil_iff.1 hline).2
    have hpos := List.length_pos_iff.2 hq
    simp only [hf, hg, List.length_nil] at htally
    omega
  · exact ⟨v, q, by simp [tryReceive, hrec], hqueue⟩

/-- A composite gets all its outputs if each of them has a value left inside that nobody else was
promised. -/
lemma takeOutputs_of_queues {inner : Pipeline} (hs : inner.Sound) (outs : List Channel)
    (hnd : (outs.map (·.name)).Nodup) (w : World) (got : Payload)
    (hleft : ∀ o ∈ outs, ∃ c, inner.channel? o.name = some c ∧ (w.conduit c).Orderly ∧
      (w.conduit c).line = [] ∧ (w.conduit c).queue ≠ []) :
    ∃ produced, (w.takeOutputs inner got outs).1 = .ok produced ∧
      (∀ x, x ∉ outs.map (·.name) → produced.get? x = got.get? x) ∧
      ∀ o ∈ outs, ∀ c, inner.channel? o.name = some c →
        ∃ v ∈ (w.conduit c).queue, produced.get? o.name = some v := by
  induction outs generalizing w got with
  | nil => exact ⟨got, rfl, fun _ _ => rfl, by simp⟩
  | cons o rest ih =>
    rw [List.map_cons, List.nodup_cons] at hnd
    obtain ⟨c, hc, ho, hline, hq⟩ := hleft o List.mem_cons_self
    obtain ⟨v, q, hrec, hqueue⟩ := tryReceive_of_queue ho hline hq
    have hother : ∀ o' ∈ rest, ∀ d, inner.channel? o'.name = some d →
        (w.setConduit c q).conduit d = w.conduit d := by
      intro o' ho' d hd
      refine conduit_setConduit_of_ne fun hid => hnd.1 ?_
      have heq := hs.eq_of_id (Pipeline.mem_of_channel? hd).1 (Pipeline.mem_of_channel? hc).1 hid
      rw [← (Pipeline.mem_of_channel? hc).2, ← heq, (Pipeline.mem_of_channel? hd).2]
      exact List.mem_map_of_mem ho'
    obtain ⟨produced, hok, hsame, hall⟩ := ih hnd.2 (w.setConduit c q) (got.insert o.name v)
      fun o' ho' => by
        obtain ⟨d, hd, hrest⟩ := hleft o' (List.mem_cons_of_mem _ ho')
        exact ⟨d, hd, by rwa [hother o' ho' d hd]⟩
    refine ⟨produced, ?_, fun x hx => ?_, ?_⟩
    · simp only [takeOutputs, hc, hrec]
      exact hok
    · rw [List.map_cons, List.mem_cons, not_or] at hx
      rw [hsame x hx.2, Payload.get?_insert, if_neg hx.1]
    · rintro o' (_ | ⟨_, ho'⟩) d hd
      · obtain rfl := Option.some.inj (hc.symm.trans hd)
        refine ⟨v, hqueue ▸ List.mem_cons_self, ?_⟩
        rw [hsame _ hnd.1, Payload.get?_insert, if_pos rfl]
      · obtain ⟨x, hx, hget⟩ := hall o' ho' d hd
        exact ⟨x, hother o' ho' d hd ▸ hx, hget⟩

/-- Taking outputs leaves no value behind that was not there before. -/
lemma queue_takeOutputs (inner : Pipeline) (outs : List Channel) (w : World) (got : Payload)
    (ho : ∀ x, (w.conduits x).Orderly) (x : Nat) :
    ((w.takeOutputs inner got outs).2.conduits x).queue <:+ (w.conduits x).queue := by
  induction outs generalizing w got with
  | nil => exact List.suffix_rfl
  | cons o rest ih =>
    rw [takeOutputs]
    split
    · exact List.suffix_rfl
    · next c _ =>
      have hstep : ((w.setConduit c (w.conduit c).tryReceive.2).conduits x).queue <:+
          (w.conduits x).queue := by
        by_cases hx : x = c.id
        · subst hx
          simp only [setConduit, update_same]
          rcases (w.conduit c).tryReceive_cases (ho _) with ⟨-, hrec⟩ | ⟨v, q, hrec, hqueue, -⟩
          · rw [hrec]
            exact List.suffix_rfl
          · rw [hrec]
            exact hqueue ▸ List.suffix_cons v _
        · simp only [setConduit, update_of_ne hx]
          exact List.suffix_rfl
      have horderly : ∀ y, ((w.setConduit c (w.conduit c).tryReceive.2).conduits y).Orderly :=
        fun y => (aside_update (Conduit.aside_tryReceive [] _) y (ho y)).1
      rcases hrec : w.tryReceive c with ⟨_ | v, w₁⟩ <;>
        obtain rfl : w.setConduit c (w.conduit c).tryReceive.2 = w₁ := congrArg Prod.snd hrec
      · exact hstep
      · exact (ih _ _ horderly).trans hstep

end World

end Dataflow
