import Dataflow.Proofs.Smooth
import Mathlib.Data.List.Flatten

/-!
Where ready pipelines come from. Whatever a program has built step by step, with values sent and
taken in between, is sound on every level, and every pipeline that it still has at hand is ready
to be run.
-/

namespace Dataflow

/-! ### Single steps -/

namespace Pipeline

variable {p p' : Pipeline} {n : Node} {c : Channel}

lemma sound_new (id : Nat) (name : String) (options : RunOptions) :
    (new id name options).Sound := by
  refine ⟨?_, ?_, ?_, ?_, ?_⟩ <;> simp

lemma declare_eq_ok {id : Nat} {name : String} {type : ValueType}
    (h : p.declare id name type = .ok (p', c)) :
    p.channel? name = none ∧ c = ⟨id, name, type⟩ ∧
      p' = { p with channels := p.channels ++ [c] } := by
  unfold declare at h
  cases hn : p.channel? name with
  | some d => simp [hn] at h
  | none =>
    simp only [hn, Option.isSome_none, Bool.false_eq_true, if_false, Except.ok.injEq,
      Prod.mk.injEq] at h
    obtain ⟨rfl, rfl⟩ := h
    exact ⟨rfl, rfl, rfl⟩

lemma addNode_eq_ok (h : p.addNode n = .ok p') :
    p.node? n.name = none ∧ p.foreign? n = none ∧ p' = { p with nodes := p.nodes ++ [n] } := by
  unfold addNode at h
  cases hn : p.node? n.name with
  | some m => simp [hn] at h
  | none =>
    cases hf : p.foreign? n with
    | some c => simp [hn, hf] at h
    | none =>
      simp only [hn, hf, Option.isSome_none, Bool.false_eq_true, if_false, Except.ok.injEq] at h
      exact ⟨rfl, rfl, h.symm⟩

lemma Sound.declare (hs : p.Sound) (hname : p.channel? c.name = none)
    (hid : c.id ∉ p.channels.map (·.id)) : Sound { p with channels := p.channels ++ [c] } where
  names := by
    rw [List.map_append, List.map_singleton, List.nodup_append_comm, List.singleton_append,
      List.nodup_cons]
    refine ⟨fun hmem => ?_, hs.names⟩
    obtain ⟨d, hd, heq⟩ := List.mem_map.1 hmem
    have := List.find?_eq_none.1 hname d hd
    simp [heq] at this
  ids := by
    rw [List.map_append, List.map_singleton, List.nodup_append_comm, List.singleton_append,
      List.nodup_cons]
    exact ⟨hid, hs.ids⟩
  labels := hs.labels
  wired := hs.wired
  native m hm := by
    refine List.find?_eq_none.2 fun d hd => ?_
    have hold : p.channel? d.name = some d := hs.channel? hm hd
    simp only [Pipeline.channel?] at hold
    simp [Pipeline.channel?, List.find?_append, hold]

lemma Sound.addNode (hs : p.Sound) (hname : p.node? n.name = none) (hforeign : p.foreign? n = none)
    (hwired : n.wiringFault? = none) : Sound { p with nodes := p.nodes ++ [n] } where
  names := hs.names
  ids := hs.ids
  labels := by
    rw [List.map_append, List.map_singleton, List.nodup_append_comm, List.singleton_append,
      List.nodup_cons]
    refine ⟨fun hmem => ?_, hs.labels⟩
    obtain ⟨m, hm, heq⟩ := List.mem_map.1 hmem
    have := List.find?_eq_none.1 hname m hm
    simp [heq] at this
  wired m hm := by
    rcases List.mem_append.1 hm with hm | hm
    · exact hs.wired m hm
    · rwa [List.mem_singleton.1 hm]
  native m hm := by
    rcases List.mem_append.1 hm with hm | hm
    · exact hs.native m hm
    · rw [List.mem_singleton.1 hm]
      exact hforeign

/-- The identities that the pipeline has on all its levels. -/
def identities (p : Pipeline) : List Nat :=
  p.tiers.flatMap fun t => t.2.id :: t.2.channels.map (·.id)

end Pipeline

namespace Node

variable {n : Node}

lemma ofLogic_eq_ok {kind : NodeKind} {name : String} {inputs outputs : List Channel}
    {logic : Logic} (h : ofLogic kind name inputs outputs logic = .ok n) :
    n.wiringFault? = none ∧ n.inner? = none := by
  unfold ofLogic at h
  cases hb : bodyOf kind logic with
  | error fault => simp [hb] at h
  | ok body =>
    simp only [hb] at h
    obtain ⟨hw, rfl⟩ := checked_iff.1 h
    refine ⟨hw, ?_⟩
    unfold bodyOf at hb
    split at hb <;> simp at hb <;> subst hb <;> rfl

lemma composite_eq_ok {name : String} {inputs outputs : List Channel} {inner : Pipeline}
    {queued : Channel → Nat} {started : Bool}
    (h : composite name inputs outputs inner queued started = .ok n) :
    n = ⟨name, inputs, outputs, .composite inner⟩ ∧ n.wiringFault? = none ∧
      inner.boundaryFault? queued started inputs outputs = none := by
  obtain ⟨hfault, hw, rfl⟩ := composite_iff.1 h
  exact ⟨rfl, hw, hfault⟩

end Node

/-- A value that is listed once is listed for one member only. -/
lemma eq_of_mem_flatMap {α β : Type} {l : List α} {f : α → List β} (h : (l.flatMap f).Nodup)
    {a b : α} {x : β} (ha : a ∈ l) (hb : b ∈ l) (hxa : x ∈ f a) (hxb : x ∈ f b) : a = b := by
  induction l with
  | nil => cases ha
  | cons y rest ih =>
    rw [List.flatMap_cons, List.nodup_append] at h
    obtain ⟨-, hrest, hdisj⟩ := h
    rcases List.mem_cons.1 ha with rfl | ha' <;> rcases List.mem_cons.1 hb with rfl | hb'
    · rfl
    · exact absurd rfl (hdisj x hxa x (List.mem_flatMap.2 ⟨b, hb', hxb⟩))
    · exact absurd rfl (hdisj x hxb x (List.mem_flatMap.2 ⟨a, ha', hxa⟩))
    · exact ih hrest ha' hb'

/-! ### Levels of what was built -/

lemma tiersFrom_append {nodes : List Node} {n : Node} (i : Nat) :
    tiersFrom i (nodes ++ [n]) =
      tiersFrom i nodes ++ n.tiers.map fun t => (t.1 ++ [i + nodes.length], t.2) := by
  induction nodes generalizing i with
  | nil => simp [tiersFrom]
  | cons m rest ih =>
    rw [List.cons_append, tiersFrom, ih, tiersFrom, List.append_assoc, List.length_cons,
      show i + 1 + rest.length = i + (rest.length + 1) by omega]

namespace Pipeline

variable {p q : Pipeline} {n : Node}

lemma node_tiers (n : Node) : n.tiers = n.inner?.toList.flatMap tiers := by
  obtain ⟨_, _, _, body⟩ := n
  cases body with
  | composite inner => exact (List.append_nil _).symm
  | _ => rfl

lemma identities_eq (p : Pipeline) : p.identities = p.id :: (p.channels.map (·.id) ++
    (tiersFrom 0 p.nodes).flatMap fun t => t.2.id :: t.2.channels.map (·.id)) := by
  rw [identities, tiers_eq]
  rfl

lemma identities_declare (p : Pipeline) (c : Channel) :
    ({ p with channels := p.channels ++ [c] } : Pipeline).identities.Perm
      (c.id :: p.identities) := by
  rw [identities_eq, identities_eq, List.map_append, List.append_assoc]
  exact (List.perm_middle.cons _).trans (List.Perm.swap _ _ _)

lemma identities_addNode (p : Pipeline) (n : Node) :
    ({ p with nodes := p.nodes ++ [n] } : Pipeline).identities =
      p.identities ++ n.inner?.toList.flatMap identities := by
  rw [identities_eq, identities_eq, tiersFrom_append, List.flatMap_append, List.flatMap_map,
    node_tiers, List.flatMap_assoc, List.cons_append, List.append_assoc]
  rfl

lemma level?_declare {cs : List Channel} {path : Address}
    (h : ({ p with channels := cs } : Pipeline).level? path = some q) :
    q = { p with channels := cs } ∨ p.level? path = some q := by
  rcases List.eq_nil_or_concat path with rfl | ⟨init, i, rfl⟩
  · exact .inl (Option.some.inj h).symm
  · rw [List.concat_eq_append, level?_append_singleton] at h ⊢
    exact .inr h

lemma level?_addNode {path : Address}
    (h : ({ p with nodes := p.nodes ++ [n] } : Pipeline).level? path = some q) :
    q = { p with nodes := p.nodes ++ [n] } ∨ p.level? path = some q ∨
      ∃ inner path', n.inner? = some inner ∧ inner.level? path' = some q := by
  rcases List.eq_nil_or_concat path with rfl | ⟨init, i, rfl⟩
  · exact .inl (Option.some.inj h).symm
  · rw [List.concat_eq_append, level?_append_singleton] at h ⊢
    rcases Nat.lt_trichotomy i p.nodes.length with hi | hi | hi
    · rw [List.getElem?_append_left hi] at h
      exact .inr (.inl h)
    · rw [hi, List.getElem?_concat_length] at h
      obtain ⟨inner, hin, hq⟩ := Option.bind_eq_some_iff.1 h
      exact .inr (.inr ⟨inner, init, hin, hq⟩)
    · rw [List.getElem?_eq_none (by simp; omega)] at h
      cases h

/-- The pipelines own what they are made of. No identity is used twice on any level of any of them,
and none is still to be given out; and every level is sound. -/
structure Owned (fresh : Nat) (ps : List Pipeline) : Prop where
  distinct : (ps.flatMap identities).Nodup
  used : ∀ i ∈ ps.flatMap identities, i < fresh
  sound : ∀ p ∈ ps, ∀ path q, p.level? path = some q → q.Sound

namespace Owned

variable {p' : Pipeline} {ps qs : List Pipeline} {fresh m : Nat}

lemma empty (fresh : Nat) : Owned fresh [] where
  distinct := List.nodup_nil
  used _ hi := by cases hi
  sound _ hp := by cases hp

lemma later (h : Owned fresh ps) (hm : fresh ≤ m) : Owned m ps :=
  ⟨h.distinct, fun i hi => Nat.lt_of_lt_of_le (h.used i hi) hm, h.sound⟩

lemma subperm (h : Owned fresh ps) (hsub : List.Subperm qs ps) : Owned fresh qs where
  distinct := by
    obtain ⟨l, hl, hls⟩ := hsub
    rw [← (hl.flatMap_right _).nodup_iff]
    exact h.distinct.sublist (hls.flatMap _)
  used i hi := by
    obtain ⟨p, hp, hi⟩ := List.mem_flatMap.1 hi
    exact h.used i (List.mem_flatMap.2 ⟨p, hsub.subset hp, hi⟩)
  sound p hp := h.sound p (hsub.subset hp)

lemma pipeline (h : Owned fresh ps) (name : String) (options : RunOptions) :
    Owned (fresh + 1) (Pipeline.new fresh name options :: ps) := by
  have hids : (Pipeline.new fresh name options).identities = [fresh] := by
    simp [identities_eq, tiersFrom, Pipeline.new]
  refine ⟨?_, fun i hi => ?_, fun p hp path q hq => ?_⟩
  · rw [List.flatMap_cons, hids, List.singleton_append, List.nodup_cons]
    exact ⟨fun hi => Nat.lt_irrefl _ (h.used _ hi), h.distinct⟩
  · rw [List.flatMap_cons, hids, List.singleton_append, List.mem_cons] at hi
    rcases hi with rfl | hi
    · exact Nat.lt_succ_self _
    · exact Nat.lt_succ_of_lt (h.used i hi)
  · rcases List.mem_cons.1 hp with rfl | hp
    · obtain ⟨-, rfl⟩ := Flat.level? (fun _ hn => by cases hn) hq
      exact sound_new _ _ _
    · exact h.sound p hp path q hq

lemma declare {name : String} {type : ValueType} {c : Channel} (h : Owned fresh (p :: ps))
    (hd : p.declare fresh name type = .ok (p', c)) : Owned (fresh + 1) (p' :: ps) := by
  obtain ⟨hname, rfl, rfl⟩ := declare_eq_ok hd
  have hids := (p.identities_declare ⟨fresh, name, type⟩).append_right (ps.flatMap identities)
  have hnew : fresh ∉ p.identities ++ ps.flatMap identities := fun hi =>
    Nat.lt_irrefl _ (h.used _ hi)
  refine ⟨?_, fun i hi => ?_, fun p' hp' path q hq => ?_⟩
  · rw [List.flatMap_cons, hids.nodup_iff, List.cons_append, List.nodup_cons]
    exact ⟨hnew, h.distinct⟩
  · rcases List.mem_cons.1 (hids.subset hi) with rfl | hi
    · exact Nat.lt_succ_self _
    · exact Nat.lt_succ_of_lt (h.used i hi)
  · rcases List.mem_cons.1 hp' with rfl | hp'
    · rcases level?_declare hq with rfl | hq
      · refine (h.sound p List.mem_cons_self [] p rfl).declare hname fun hmem => hnew ?_
        rw [p.identities_eq]
        exact List.mem_append_left _ (List.mem_cons_of_mem _ (List.mem_append_left _ hmem))
      · exact h.sound p List.mem_cons_self path q hq
    · exact h.sound p' (List.mem_cons_of_mem _ hp') path q hq

/-- What was inside a node goes with it. -/
lemma addNode (h : Owned fresh (p :: (n.inner?.toList ++ ps))) (hwired : n.wiringFault? = none)
    (hadd : p.addNode n = .ok p') : Owned fresh (p' :: ps) := by
  obtain ⟨hname, hforeign, rfl⟩ := addNode_eq_ok hadd
  have hids : ({ p with nodes := p.nodes ++ [n] } :: ps).flatMap identities =
      (p :: (n.inner?.toList ++ ps)).flatMap identities := by
    rw [List.flatMap_cons, identities_addNode, List.flatMap_cons, List.flatMap_append,
      List.append_assoc]
  refine ⟨hids ▸ h.distinct, fun i hi => h.used i (hids ▸ hi), fun p' hp' path q hq => ?_⟩
  rcases List.mem_cons.1 hp' with rfl | hp'
  · rcases level?_addNode hq with rfl | hq | ⟨inner, path', hin, hq⟩
    · exact (h.sound p List.mem_cons_self [] p rfl).addNode hname hforeign hwired
    · exact h.sound p List.mem_cons_self path q hq
    · exact h.sound inner (by simp [hin]) path' q hq
  · exact h.sound p' (by simp [hp']) path q hq

/-- Identities tell all the levels apart. -/
lemma level_eq {path path' : Address} {q q' : Pipeline} (h : Owned fresh ps) (hp : p ∈ ps)
    (hp' : p' ∈ ps) (hq : p.level? path = some q) (hq' : p'.level? path' = some q') {i : Nat}
    (hi : i = q.id ∨ i ∈ q.channels.map (·.id)) (hi' : i = q'.id ∨ i ∈ q'.channels.map (·.id)) :
    p = p' ∧ path = path' := by
  have hmem := List.mem_cons.2 hi
  have hmem' := List.mem_cons.2 hi'
  have ht := mem_tiers.2 hq
  have ht' := mem_tiers.2 hq'
  obtain rfl := eq_of_mem_flatMap h.distinct hp hp' (List.mem_flatMap.2 ⟨_, ht, hmem⟩)
    (List.mem_flatMap.2 ⟨_, ht', hmem'⟩)
  have hnd := (List.nodup_flatMap.1 h.distinct).1 p hp
  exact ⟨rfl, (Prod.mk.inj (eq_of_mem_flatMap hnd ht ht' hmem hmem')).1⟩

end Owned

end Pipeline

namespace World

variable {w w' : World} {p p' q inner : Pipeline} {ps qs : List Pipeline} {n : Node} {c : Channel}
  {path : Address}

/-- What a program can come to by building: a world, and the pipelines that it has at hand. A
pipeline that was made a node of another is at hand no more. -/
inductive Workshop : World → List Pipeline → Prop where
  | empty : Workshop initial []
  | pipeline {w : World} {ps : List Pipeline} (before : Workshop w ps) (name : String)
      (options : RunOptions) :
      Workshop (w.newPipeline name options).2 ((w.newPipeline name options).1 :: ps)
  | declare {w w' : World} {p p' : Pipeline} {ps : List Pipeline} {c : Channel} {name : String}
      {type : ValueType} (before : Workshop w (p :: ps))
      (declared : w.declare p name type = .ok (p', c, w')) : Workshop w' (p' :: ps)
  | node {w : World} {p p' : Pipeline} {ps : List Pipeline} {kind : NodeKind} {name : String}
      {inputs outputs : List Channel} {logic : Logic} {n : Node} (before : Workshop w (p :: ps))
      (made : Node.ofLogic kind name inputs outputs logic = .ok n) (added : p.addNode n = .ok p') :
      Workshop w (p' :: ps)
  | composite {w : World} {p p' inner : Pipeline} {ps : List Pipeline} {name : String}
      {inputs outputs : List Channel} {n : Node} (before : Workshop w (inner :: p :: ps))
      (made : w.composite name inputs outputs inner = .ok n) (added : p.addNode n = .ok p') :
      Workshop w (p' :: ps)
  | send {w w' : World} {ps : List Pipeline} {p q : Pipeline} {path : Address} {c : Channel}
      {v : Value} (before : Workshop w ps) (hand : p ∈ ps) (level : p.level? path = some q)
      (channel : c ∈ q.channels) (sent : w.send c v = .ok w') : Workshop w' ps
  | take {w : World} {ps : List Pipeline} {p : Pipeline} {c : Channel} (before : Workshop w ps)
      (hand : p ∈ ps) (channel : c ∈ p.channels) : Workshop (w.tryReceive c).2 ps
  | sort {w : World} {ps qs : List Pipeline} (before : Workshop w ps) (order : qs.Perm ps) :
      Workshop w qs
  | discard {w : World} {p : Pipeline} {ps : List Pipeline} (before : Workshop w (p :: ps)) :
      Workshop w ps

/-- The state of a workshop: no identity is used twice on any level of anything at hand, and
everything is as `Ready` asks. -/
structure Tidy (w : World) (ps : List Pipeline) : Prop where
  distinct : (ps.flatMap Pipeline.identities).Nodup
  used : ∀ i ∈ ps.flatMap Pipeline.identities, i < w.fresh
  sound : ∀ p ∈ ps, ∀ path q, p.level? path = some q → q.Sound
  fitting : ∀ p ∈ ps, ∀ path q n inner, p.level? path = some q → n ∈ q.nodes →
    n.inner? = some inner → ∃ queued, (∀ c ∈ inner.channels, queued c ≤ w.queued c) ∧
      inner.boundaryFault? queued false n.inputs n.outputs = none
  typed : ∀ p ∈ ps, ∀ path q c, p.level? path = some q → c ∈ q.channels →
    ∀ v ∈ (w.conduit c).queue, c.type.accepts v = true
  calm : ∀ x, (w.conduits x).Calm
  blank : ∀ x, w.fresh ≤ x → (w.conduits x).queue = []
  unstarted : ∀ i, w.started i = false
  vacant : (∀ r, w.runs r = none) ∧ (∀ a, w.workers a = none) ∧ w.cancelled = []

lemma Tidy.owned (h : w.Tidy ps) : Pipeline.Owned w.fresh ps := ⟨h.distinct, h.used, h.sound⟩

lemma Tidy.ready (h : w.Tidy ps) (hp : p ∈ ps) : w.Ready p where
  sound := h.sound p hp
  fitting path q n inner hq hn hi := ⟨h.unstarted _, h.fitting p hp path q n inner hq hn hi⟩
  apart path path' q q' hq hq' hne := by
    refine ⟨fun heq => hne ?_, fun c hc d hd heq => hne ?_⟩
    · exact (h.owned.level_eq hp hp hq hq' (.inl rfl) (.inl heq)).2
    · exact (h.owned.level_eq hp hp hq hq' (.inr (List.mem_map_of_mem hc))
        (.inr (heq ▸ List.mem_map_of_mem hd))).2
  calm _ _ c _ _ := h.calm c.id
  typed := h.typed p hp

/-! ### What building preserves -/

lemma tidy_empty : initial.Tidy [] where
  distinct := List.nodup_nil
  used _ hi := by cases hi
  sound _ hp := by cases hp
  fitting _ hp := by cases hp
  typed _ hp := by cases hp
  calm _ := ⟨rfl, rfl⟩
  blank _ _ := rfl
  unstarted _ := rfl
  vacant := ⟨fun _ => rfl, fun _ => rfl, rfl⟩

/-- Building something changes nothing but what is built. -/
lemma Tidy.rebuild (h : w.Tidy qs) {m : Nat} (hm : w.fresh ≤ m) (hsub : ps ⊆ qs)
    (howned : Pipeline.Owned m (p' :: ps))
    (hfitting : ∀ path q n inner, p'.level? path = some q → n ∈ q.nodes →
      n.inner? = some inner → ∃ queued, (∀ c ∈ inner.channels, queued c ≤ w.queued c) ∧
        inner.boundaryFault? queued false n.inputs n.outputs = none)
    (htyped : ∀ path q c, p'.level? path = some q → c ∈ q.channels →
      ∀ v ∈ (w.conduit c).queue, c.type.accepts v = true) :
    ({ w with fresh := m } : World).Tidy (p' :: ps) where
  distinct := howned.distinct
  used := howned.used
  sound := howned.sound
  fitting p hp := by
    rcases List.mem_cons.1 hp with rfl | hp
    · exact hfitting
    · exact h.fitting p (hsub hp)
  typed p hp := by
    rcases List.mem_cons.1 hp with rfl | hp
    · exact htyped
    · exact h.typed p (hsub hp)
  calm := h.calm
  blank x hx := h.blank x (Nat.le_trans hm hx)
  unstarted := h.unstarted
  vacant := h.vacant

lemma Tidy.pipeline (h : w.Tidy ps) (name : String) (options : RunOptions) :
    (w.newPipeline name options).2.Tidy ((w.newPipeline name options).1 :: ps) := by
  change ({ w with fresh := w.fresh + 1 } : World).Tidy (Pipeline.new w.fresh name options :: ps)
  have hlevel : ∀ {path q}, (Pipeline.new w.fresh name options).level? path = some q →
      q = Pipeline.new w.fresh name options := fun hq =>
    (Pipeline.Flat.level? (fun _ hn => by cases hn) hq).2
  refine h.rebuild (Nat.le_succ _) (List.Subset.refl _) (h.owned.pipeline name options)
    (fun path q n inner hq hn => ?_) (fun path q c hq hc => ?_)
  · rw [hlevel hq] at hn
    cases hn
  · rw [hlevel hq] at hc
    cases hc

lemma declare_eq_ok {name : String} {type : ValueType}
    (h : w.declare p name type = .ok (p', c, w')) :
    p.declare w.fresh name type = .ok (p', c) ∧ w' = { w with fresh := w.fresh + 1 } := by
  simp only [World.declare, takeFresh] at h
  cases hd : p.declare w.fresh name type with
  | error e => simp [hd, bind, Except.bind] at h
  | ok r =>
    simp only [hd, bind, Except.bind, pure, Except.pure, Except.ok.injEq, Prod.mk.injEq] at h
    obtain ⟨rfl, rfl, rfl⟩ := h
    exact ⟨rfl, rfl⟩

lemma Tidy.declare {name : String} {type : ValueType} (h : w.Tidy (p :: ps))
    (hd : w.declare p name type = .ok (p', c, w')) : w'.Tidy (p' :: ps) := by
  obtain ⟨hd', rfl⟩ := declare_eq_ok hd
  have howned := h.owned.declare hd'
  obtain ⟨-, rfl, rfl⟩ := Pipeline.declare_eq_ok hd'
  have hp : p ∈ p :: ps := List.mem_cons_self
  refine h.rebuild (Nat.le_succ _) (List.subset_cons_self _ _) howned
    (fun path q n inner hq hn hi => ?_) (fun path q c hq hc => ?_)
  · rcases Pipeline.level?_declare hq with rfl | hq
    · exact h.fitting p hp [] p n inner rfl hn hi
    · exact h.fitting p hp path q n inner hq hn hi
  · rcases Pipeline.level?_declare hq with rfl | hq
    · rcases List.mem_append.1 hc with hc | hc
      · exact h.typed p hp [] p c rfl hc
      · -- nothing has been sent to a channel that is new
        obtain rfl := List.mem_singleton.1 hc
        intro v hv
        rw [conduit, h.blank _ (Nat.le_refl _)] at hv
        cases hv
    · exact h.typed p hp path q c hq hc

lemma Tidy.addNode (h : w.Tidy (p :: (n.inner?.toList ++ ps))) (hwired : n.wiringFault? = none)
    (hadd : p.addNode n = .ok p') (hfault : ∀ inner, n.inner? = some inner →
      inner.boundaryFault? w.queued false n.inputs n.outputs = none) : w.Tidy (p' :: ps) := by
  have howned := h.owned.addNode hwired hadd
  obtain ⟨-, -, rfl⟩ := Pipeline.addNode_eq_ok hadd
  have hp : p ∈ p :: (n.inner?.toList ++ ps) := List.mem_cons_self
  have hinner : ∀ {inner}, n.inner? = some inner → inner ∈ p :: (n.inner?.toList ++ ps) :=
    fun hin => by simp [hin]
  refine h.rebuild (Nat.le_refl _) (fun q hq => by simp [hq]) howned
    (fun path q m inner hq hm hi => ?_) (fun path q c hq hc => ?_)
  · rcases Pipeline.level?_addNode hq with rfl | hq | ⟨inner', path', hin, hq⟩
    · rcases List.mem_append.1 hm with hm | hm
      · exact h.fitting p hp [] p m inner rfl hm hi
      · obtain rfl := List.mem_singleton.1 hm
        exact ⟨w.queued, fun _ _ => Nat.le_refl _, hfault inner hi⟩
    · exact h.fitting p hp path q m inner hq hm hi
    · exact h.fitting inner' (hinner hin) path' q m inner hq hm hi
  · rcases Pipeline.level?_addNode hq with rfl | hq | ⟨inner, path', hin, hq⟩
    · exact h.typed p hp [] p c rfl hc
    · exact h.typed p hp path q c hq hc
    · exact h.typed inner (hinner hin) path' q c hq hc

lemma Tidy.subperm (h : w.Tidy ps) (hsub : List.Subperm qs ps) : w.Tidy qs := by
  have hmem : qs ⊆ ps := hsub.subset
  have howned := h.owned.subperm hsub
  exact ⟨howned.distinct, howned.used, howned.sound, fun p hp => h.fitting p (hmem hp),
    fun p hp => h.typed p (hmem hp), h.calm, h.blank, h.unstarted, h.vacant⟩

lemma Tidy.node {kind : NodeKind} {name : String} {inputs outputs : List Channel} {logic : Logic}
    (h : w.Tidy (p :: ps)) (made : Node.ofLogic kind name inputs outputs logic = .ok n)
    (hadd : p.addNode n = .ok p') : w.Tidy (p' :: ps) := by
  obtain ⟨hwired, hnone⟩ := Node.ofLogic_eq_ok made
  refine Tidy.addNode ?_ hwired hadd fun inner hi => ?_
  · rwa [hnone]
  · rw [hnone] at hi
    cases hi

lemma Tidy.composite {name : String} {inputs outputs : List Channel}
    (h : w.Tidy (inner :: p :: ps)) (made : w.composite name inputs outputs inner = .ok n)
    (hadd : p.addNode n = .ok p') : w.Tidy (p' :: ps) := by
  obtain ⟨rfl, hwired, hfault⟩ := Node.composite_eq_ok made
  refine Tidy.addNode (h.subperm (List.Perm.swap _ _ _).subperm) hwired hadd fun inner' hi => ?_
  obtain rfl : inner = inner' := Option.some.inj hi
  rwa [h.unstarted] at hfault

/-- Dealing with one channel of what is at hand, with nobody in line for it. -/
lemma Tidy.deal (h : w.Tidy ps) (hp : p ∈ ps) (hq : p.level? path = some q)
    (hc : c ∈ q.channels) {d : Conduit Address} (hcalm : d.Calm)
    (htyped : ∀ v ∈ d.queue, c.type.accepts v = true)
    (hfewer : path = [] ∨ (w.conduit c).queue.length ≤ d.queue.length) :
    (w.setConduit c d).Tidy ps := by
  have hid : ∀ {p' path' q' e}, p' ∈ ps → p'.level? path' = some q' → e ∈ q'.channels →
      e.id = c.id → path' = path ∧ e = c := by
    intro p' path' q' e hp' hq' he heq
    obtain ⟨rfl, rfl⟩ := h.owned.level_eq hp' hp hq' hq (.inr (List.mem_map_of_mem he))
      (.inr (heq ▸ List.mem_map_of_mem hc))
    obtain rfl := Option.some.inj (hq'.symm.trans hq)
    exact ⟨rfl, (h.sound p' hp path' q' hq').eq_of_id he hc heq⟩
  refine ⟨h.distinct, h.used, h.sound, fun p' hp' path' q' n inner hq' hn hi => ?_,
    fun p' hp' path' q' e hq' he v hv => ?_, fun x => ?_, fun x hx => ?_, h.unstarted, h.vacant⟩
  · obtain ⟨count, hle, hfault⟩ := h.fitting p' hp' path' q' n inner hq' hn hi
    refine ⟨count, fun e he => (hle e he).trans ?_, hfault⟩
    by_cases heq : e.id = c.id
    · obtain ⟨i, hi'⟩ := List.mem_iff_getElem?.1 hn
      obtain ⟨hpath, rfl⟩ := hid hp' (Pipeline.level?_cons hq' hi' hi) he heq
      rw [queued, queued, conduit_setConduit_same]
      exact hfewer.resolve_left (hpath ▸ List.cons_ne_nil _ _)
    · rw [queued, queued, conduit_setConduit_of_ne heq]
  · by_cases heq : e.id = c.id
    · obtain ⟨-, rfl⟩ := hid hp' hq' he heq
      rw [conduit_setConduit_same] at hv
      exact htyped v hv
    · rw [conduit_setConduit_of_ne heq] at hv
      exact h.typed p' hp' path' q' e hq' he v hv
  · change (update w.conduits c.id d x).Calm
    by_cases hx : x = c.id
    · rw [hx, update_same]
      exact hcalm
    · rw [update_of_ne hx]
      exact h.calm x
  · have hlt := h.used c.id (List.mem_flatMap.2 ⟨p, hp, List.mem_flatMap.2
      ⟨_, Pipeline.mem_tiers.2 hq, List.mem_cons_of_mem _ (List.mem_map_of_mem hc)⟩⟩)
    have hne : x ≠ c.id := by
      rintro rfl
      exact Nat.lt_irrefl _ (Nat.lt_of_lt_of_le hlt hx)
    change (update w.conduits c.id d x).queue = []
    rw [update_of_ne hne]
    exact h.blank x hx

lemma Tidy.send (h : w.Tidy ps) (hp : p ∈ ps) (hq : p.level? path = some q)
    (hc : c ∈ q.channels) {v : Value} (hs : w.send c v = .ok w') : w'.Tidy ps := by
  unfold World.send at hs
  cases hv : c.check v with
  | error e => simp [hv, bind, Except.bind] at hs
  | ok u =>
    simp only [hv, bind, Except.bind, pure, Except.pure, Except.ok.injEq] at hs
    subst hs
    refine h.deal hp hq hc ((h.calm c.id).send v) (fun x hx => ?_) (.inr ?_)
    · rw [Conduit.queue_send, List.mem_append, List.mem_singleton] at hx
      rcases hx with hx | rfl
      · exact h.typed p hp path q c hq hc x hx
      · exact Channel.check_eq_ok_iff.1 hv
    · rw [Conduit.queue_send, List.length_append]
      exact Nat.le_add_right _ _

lemma Tidy.take (h : w.Tidy ps) (hp : p ∈ ps) (hc : c ∈ p.channels) :
    (w.tryReceive c).2.Tidy ps := by
  obtain ⟨hcalm, hsub⟩ := (h.calm c.id).tryReceive
  exact h.deal hp (Pipeline.level?_nil p) hc hcalm
    (fun v hv => h.typed p hp [] p c rfl hc v (hsub hv)) (.inl rfl)

theorem tidy_of_workshop (h : Workshop w ps) : w.Tidy ps := by
  induction h with
  | empty => exact tidy_empty
  | pipeline _ name options ih => exact ih.pipeline name options
  | declare _ declared ih => exact ih.declare declared
  | node _ made added ih => exact ih.node made added
  | composite _ made added ih => exact ih.composite made added
  | send _ hand level channel sent ih => exact ih.send hand level channel sent
  | take _ hand channel ih => exact ih.take hand channel
  | sort _ order ih => exact ih.subperm order.subperm
  | discard _ ih => exact ih.subperm (List.sublist_cons_self _ _).subperm

/-- **Whatever was built is ready.** A run of a pipeline that is at hand, without time limits on any
level, has all that it takes to go smoothly. -/
theorem outset_of_workshop {w₁ : World} {r : Address} {seeds : Payload} {token : Token}
    (h : Workshop w ps) (hp : p ∈ ps) (hstart : w.start r p seeds token true = .ok w₁)
    (hpatient : ∀ path q, p.level? path = some q → q.options.receiveTimeout = none) :
    w.Outset w₁ r p seeds token := by
  have ht := tidy_of_workshop h
  obtain ⟨hruns, hworkers, hcancelled⟩ := ht.vacant
  refine ⟨⟨fun b _ => hruns b, fun a _ => hworkers a, fun x a ha => ?_⟩,
    fun x => (ht.calm x).orderly, ht.ready hp, hstart, hpatient, fun t hmem => ?_⟩
  · rw [(ht.calm x).line] at ha
    cases ha
  · rw [hcancelled] at hmem
    cases hmem

end World

end Dataflow
