import Dataflow.Proofs.Determinacy

/-!
A composite can be written out: the nodes that it wraps take its place, wired to the channels
around it where they were wired to its boundary, and its other channels join those of the pipeline.
-/

namespace Dataflow

namespace Node

variable {k m : Node} {c d : Channel}

/-- The channel of `k` with the name of a channel inside. A channel of another name stays. -/
def outward (k : Node) (c : Channel) : Channel :=
  (k.channels.find? fun d => d.name = c.name).getD c

/-- A node from inside `k`, wired to what is outside. -/
def raised (k m : Node) : Node :=
  { m with inputs := m.inputs.map k.outward, outputs := m.outputs.map k.outward }

lemma outward_cases (k : Node) (c : Channel) :
    (∃ d ∈ k.channels, d.name = c.name ∧ k.outward c = d) ∨
      (∀ d ∈ k.channels, d.name ≠ c.name) ∧ k.outward c = c := by
  unfold outward
  cases h : k.channels.find? fun d => d.name = c.name with
  | none => exact .inr ⟨by simpa using h, rfl⟩
  | some d =>
    exact .inl ⟨d, List.mem_of_find?_eq_some h, by simpa using List.find?_some h, rfl⟩

lemma outward_of_notMem (h : c.name ∉ k.channels.map (·.name)) : k.outward c = c := by
  rcases k.outward_cases c with ⟨d, hd, hname, -⟩ | ⟨-, heq⟩
  · exact absurd (List.mem_map.2 ⟨d, hd, hname⟩) h
  · exact heq

@[simp] lemma name_outward (k : Node) (c : Channel) : (k.outward c).name = c.name := by
  rcases k.outward_cases c with ⟨d, -, hname, heq⟩ | ⟨-, heq⟩
  · rw [heq, hname]
  · rw [heq]

lemma names_outward (k : Node) (cs : List Channel) :
    (cs.map k.outward).map (·.name) = cs.map (·.name) := by
  simp

@[simp] lemma name_raised (k m : Node) : (k.raised m).name = m.name := rfl

@[simp] lemma inner?_raised (k m : Node) : (k.raised m).inner? = m.inner? := rfl

@[simp] lemma logic?_raised (k m : Node) : (k.raised m).logic? = m.logic? := rfl

@[simp] lemma ins_raised (k m : Node) : (k.raised m).ins = m.ins := k.names_outward m.inputs

@[simp] lemma outs_raised (k m : Node) : (k.raised m).outs = m.outs := k.names_outward m.outputs

lemma wiringFault?_raised : (k.raised m).wiringFault? = none ↔ m.wiringFault? = none := by
  rw [wiringFault?_eq_none, wiringFault?_eq_none, ins_raised, outs_raised]
  rfl

end Node

namespace Pipeline

lemma perm_around {α : Type} (xs ys zs : List α) : (xs ++ ys ++ zs).Perm (ys ++ (xs ++ zs)) := by
  rw [← List.append_assoc]
  exact List.perm_append_comm.append_right zs

/-- The pipeline with the nodes of `q`, which its `i`-th node `k` wraps, in place of `k`. -/
def inline (p : Pipeline) (i : Nat) (k : Node) (q : Pipeline) : Pipeline :=
  { p with
    channels := p.channels ++ q.channels.filter fun c => c.name ∉ k.channels.map (·.name)
    nodes := p.nodes.take i ++ q.nodes.map k.raised ++ p.nodes.drop (i + 1) }

/-- The `i`-th node `k` of `p` wraps `q`, and what `q` names inside, `p` does not name. -/
structure Embeds (p : Pipeline) (i : Nat) (k : Node) (q : Pipeline) : Prop where
  node : p.nodes[i]? = some k
  inner : k.inner? = some q
  channels : ∀ c ∈ q.channels, c.name ∉ k.channels.map (·.name) →
    c.name ∉ p.channels.map (·.name)
  labels : ∀ m ∈ q.nodes, m.name ∉ p.nodes.map (·.name)

end Pipeline

/-- Where the node at an address comes from, when the `len` nodes inside the `i`-th node have taken
its place. -/
def origin (i len : Nat) : Address → Address
  | [] => []
  | [j] => if j < i then [j] else if j < i + len then [j - i, i] else [j + 1 - len]
  | a :: b :: path => a :: origin i len (b :: path)

/-- Nothing comes from the composite itself, nor from outside. -/
lemma origin_ne (i len a : Nat) (path : Address) :
    origin i len (a :: path) ≠ [] ∧ origin i len (a :: path) ≠ [i] := by
  induction path generalizing a with
  | nil =>
    unfold origin
    split_ifs
    · exact ⟨by simp, by simp; omega⟩
    · exact ⟨by simp, by simp⟩
    · exact ⟨by simp, by simp; omega⟩
  | cons b path ih => exact ⟨by simp [origin], by simp [origin, (ih b).1]⟩

lemma origin_injective (i len : Nat) : Function.Injective (origin i len) := by
  intro path
  induction path with
  | nil =>
    rintro (_ | ⟨b, path'⟩) h
    · rfl
    · exact absurd h.symm (origin_ne i len b path').1
  | cons a path ih =>
    rintro (_ | ⟨b, path'⟩) h
    · exact absurd h (origin_ne i len a path).1
    · cases path with
      | nil =>
        cases path' with
        | nil =>
          unfold origin at h
          split_ifs at h <;> simp at h <;> simp <;> omega
        | cons b' path' =>
          have hne := origin_ne i len b' path'
          unfold origin at h
          split_ifs at h <;> simp_all [eq_comm]
      | cons a' path =>
        cases path' with
        | nil =>
          have hne := origin_ne i len a' path
          unfold origin at h
          split_ifs at h <;> simp_all [eq_comm]
        | cons b' path' =>
          obtain ⟨rfl, hrest⟩ := List.cons.inj h
          rw [ih hrest]

namespace Pipeline

variable {p q inner : Pipeline} {i j : Nat} {k m n : Node} {c d : Channel} {w : World}
  {path : Address}

/-- What the check of a boundary says of a composite and what it wraps. -/
structure Border (k : Node) (q : Pipeline) : Prop where
  inputs : ∀ x, x ∈ k.ins ↔ x ∈ reads q.nodes ∧ x ∉ writes q.nodes
  outputs : ∀ x ∈ k.outs, x ∈ writes q.nodes ∧ x ∉ reads q.nodes
  types : ∀ c ∈ k.channels, ∀ d, q.channel? c.name = some d → d.type = c.type

lemma border_of_ready (hr : w.Ready p) (hp : p.level? path = some q) (hn : n ∈ q.nodes)
    (hi : n.inner? = some inner) : Border n inner := by
  obtain ⟨-, queued, -, hfault⟩ := hr.fitting path q n inner hp hn hi
  obtain ⟨hins, houts, htypes, -⟩ := boundaryFault?_eq_none.1 hfault
  exact ⟨hins, houts, htypes⟩

namespace Embeds

lemma level (h : p.Embeds i k q) : p.level? [i] = some q := level?_cons rfl h.node h.inner

lemma mem (h : p.Embeds i k q) : k ∈ p.nodes := List.mem_of_getElem? h.node

lemma border (h : p.Embeds i k q) (hr : w.Ready p) : Border k q :=
  border_of_ready hr (level?_nil p) h.mem h.inner

lemma sound (h : p.Embeds i k q) (hr : w.Ready p) : p.Sound ∧ q.Sound :=
  ⟨hr.sound [] p rfl, hr.sound [i] q h.level⟩

/-- The nodes of the pipeline, before and after the composite. -/
lemma split (h : p.Embeds i k q) : ∃ pre post, p.nodes = pre ++ k :: post ∧ pre.length = i ∧
    (p.inline i k q).nodes = pre ++ q.nodes.map k.raised ++ post := by
  obtain ⟨hi, hk⟩ := List.getElem?_eq_some_iff.1 h.node
  refine ⟨p.nodes.take i, p.nodes.drop (i + 1), ?_, by simp; omega, rfl⟩
  rw [← hk, List.getElem_cons_drop, List.take_append_drop]

/-- A node of the pipeline after the composite is written out, and where it comes from. -/
lemma getElem?_inline (h : p.Embeds i k q) : (p.inline i k q).nodes[j]? =
    if j < i then p.nodes[j]?
    else if j < i + q.nodes.length then (q.nodes[j - i]?).map k.raised
    else p.nodes[j + 1 - q.nodes.length]? := by
  obtain ⟨pre, post, hp, rfl, hnodes⟩ := h.split
  rw [hnodes, hp]
  split_ifs with h₁ h₂
  · rw [List.append_assoc, List.getElem?_append_left h₁, List.getElem?_append_left h₁]
  · rw [List.append_assoc, List.getElem?_append_right (by omega),
      List.getElem?_append_left (by simp; omega), List.getElem?_map]
  · rw [List.getElem?_append_right (by simp; omega), List.getElem?_append_right (by omega)]
    obtain ⟨t, rfl⟩ := Nat.exists_eq_add_of_le (Nat.not_lt.1 h₂)
    rw [show pre.length + q.nodes.length + t + 1 - q.nodes.length - pre.length = t + 1 by omega,
      List.getElem?_cons_succ]
    congr 1
    simp

lemma mem_inline (h : p.Embeds i k q) (hr : w.Ready p) : n ∈ (p.inline i k q).nodes ↔
    n ∈ p.nodes ∧ n ≠ k ∨ ∃ m ∈ q.nodes, n = k.raised m := by
  have hnd := (h.sound hr).1.nodup_nodes
  obtain ⟨pre, post, hp, -, hnodes⟩ := h.split
  rw [hp] at hnd
  rw [hnodes, hp]
  have hk : k ∉ pre ∧ k ∉ post := by
    obtain ⟨-, hpost, hdisj⟩ := List.nodup_append.1 hnd
    exact ⟨fun hmem => hdisj k hmem k List.mem_cons_self rfl, (List.nodup_cons.1 hpost).1⟩
  simp only [List.mem_append, List.mem_map, List.mem_cons]
  constructor
  · rintro ((hn | ⟨m, hm, rfl⟩) | hn)
    · exact .inl ⟨.inl hn, fun heq => hk.1 (heq ▸ hn)⟩
    · exact .inr ⟨m, hm, rfl⟩
    · exact .inl ⟨.inr (.inr hn), fun heq => hk.2 (heq ▸ hn)⟩
  · rintro (⟨hn | rfl | hn, hne⟩ | ⟨m, hm, rfl⟩)
    · exact .inl (.inl hn)
    · exact absurd rfl hne
    · exact .inr hn
    · exact .inl (.inr ⟨m, hm, rfl⟩)

/-- The levels of the written-out pipeline below the outermost are levels of `p`. -/
lemma level?_inline (h : p.Embeds i k q) (a : Nat) (path : Address) :
    (p.inline i k q).level? (a :: path) = p.level? (origin i q.nodes.length (a :: path)) := by
  induction path generalizing a with
  | nil =>
    have hq : p.level? [i] = some q := h.level
    simp only [level?, Option.bind_some, h.getElem?_inline, origin]
    split_ifs
    · rfl
    · rw [level?, hq]
      cases hm : q.nodes[a - i]? <;> simp [hm]
    · rfl
  | cons b path ih =>
    rw [level?, ih b]
    rfl

lemma channel_of_mem (h : p.Embeds i k q) (hr : w.Ready p) (hc : c ∈ k.channels) :
    p.channel? c.name = some c := (h.sound hr).1.channel? h.mem hc

/-- Outside, a channel of the composite stands under its own name. -/
lemma outward_eq (h : p.Embeds i k q) (hr : w.Ready p) (hd : d ∈ k.channels)
    (hname : d.name = c.name) : k.outward c = d := by
  rcases k.outward_cases c with ⟨e, he, hename, heq⟩ | ⟨hnone, -⟩
  · rw [heq]
    have hfound := h.channel_of_mem hr he
    rw [hename, ← hname, h.channel_of_mem hr hd] at hfound
    exact (Option.some.inj hfound).symm
  · exact absurd hname (hnone d hd)

lemma mem_channels_inline : c ∈ (p.inline i k q).channels ↔
    c ∈ p.channels ∨ c ∈ q.channels ∧ c.name ∉ k.channels.map (·.name) := by
  simp [inline]

/-- Each channel of the composite has one inside, which stands for it. -/
lemma inside (h : p.Embeds i k q) (hr : w.Ready p) (hc : c ∈ k.channels) :
    ∃ d ∈ q.channels, d.name = c.name ∧ k.outward d = c ∧ d.type = c.type := by
  have hborder := h.border hr
  have hused : c.name ∈ reads q.nodes ∨ c.name ∈ writes q.nodes := by
    rcases List.mem_append.1 hc with hc | hc
    · exact .inl ((hborder.inputs _).1 (List.mem_map_of_mem hc)).1
    · exact .inr (hborder.outputs _ (List.mem_map_of_mem hc)).1
  obtain ⟨d, hd, hname, hfound⟩ := (h.sound hr).2.declared hused
  exact ⟨d, hd, hname, h.outward_eq hr hc hname.symm, hborder.types c hc d hfound⟩

/-- What stands outside for a channel inside has the same type. -/
lemma type_outward (h : p.Embeds i k q) (hr : w.Ready p) (hc : c ∈ q.channels) :
    (k.outward c).type = c.type := by
  rcases k.outward_cases c with ⟨d, hd, hname, heq⟩ | ⟨-, heq⟩
  · rw [heq, (h.border hr).types d hd c (by rw [hname, (h.sound hr).2.channel?_self hc])]
  · rw [heq]

lemma outward_mem (h : p.Embeds i k q) (hr : w.Ready p) (hc : c ∈ q.channels) :
    k.outward c ∈ (p.inline i k q).channels := by
  rcases k.outward_cases c with ⟨d, hd, -, heq⟩ | ⟨hnone, heq⟩
  · rw [heq]
    exact mem_channels_inline.2 (.inl (mem_of_channel? (h.channel_of_mem hr hd)).1)
  · rw [heq]
    exact mem_channels_inline.2 (.inr ⟨hc, by simpa using hnone⟩)

lemma channel?_inline_of_mem (hp : p.channel? c.name = some c) :
    (p.inline i k q).channel? c.name = some c := by
  simp only [channel?] at hp
  simp [channel?, inline, List.find?_append, hp]

lemma sound_inline (h : p.Embeds i k q) (hr : w.Ready p) : (p.inline i k q).Sound := by
  obtain ⟨hp, hq⟩ := h.sound hr
  have hsub : (q.channels.filter fun c => c.name ∉ k.channels.map (·.name)).Sublist q.channels :=
    List.filter_sublist
  have hnames : ((p.inline i k q).channels.map (·.name)).Nodup := by
    rw [inline, List.map_append]
    refine List.nodup_append.2 ⟨hp.names, (hsub.map _).nodup hq.names, ?_⟩
    rintro x hx y hy rfl
    obtain ⟨c, hc, rfl⟩ := List.mem_map.1 hy
    obtain ⟨hc, hnot⟩ := List.mem_filter.1 hc
    exact h.channels c hc (by simpa using hnot) hx
  refine ⟨hnames, ?_, ?_, fun n hn => ?_, fun n hn => ?_⟩
  · rw [inline, List.map_append]
    refine List.nodup_append.2 ⟨hp.ids, (hsub.map _).nodup hq.ids, ?_⟩
    rintro x hx y hy rfl
    obtain ⟨c, hc, hid⟩ := List.mem_map.1 hx
    obtain ⟨d, hd, rfl⟩ := List.mem_map.1 hy
    exact absurd (hr.level_eq (level?_nil p) h.level hc (hsub.subset hd) hid) (by simp)
  · obtain ⟨pre, post, hnodes, -, hinline⟩ := h.split
    have hrest : ((pre ++ post).map (·.name)).Nodup := by
      have hsublist : (pre ++ post).Sublist (pre ++ k :: post) :=
        (List.sublist_cons_self k post).append_left pre
      exact (hsublist.map _).nodup (hnodes ▸ hp.labels)
    rw [hinline, ((perm_around _ _ _).map _).nodup_iff, List.map_append]
    have hraised : (q.nodes.map k.raised).map (·.name) = q.nodes.map (·.name) := by
      rw [List.map_map]
      rfl
    refine List.nodup_append.2 ⟨hraised ▸ hq.labels, hrest, ?_⟩
    rintro x hx y hy rfl
    obtain ⟨m, hm, rfl⟩ : ∃ m ∈ q.nodes, m.name = x := by simpa using hx
    refine h.labels m hm ?_
    rw [hnodes]
    simp only [List.map_append, List.map_cons, List.mem_append, List.mem_cons] at hy ⊢
    exact hy.imp_right .inr
  · rcases (h.mem_inline hr).1 hn with ⟨hn, -⟩ | ⟨m, hm, rfl⟩
    · exact hp.wired n hn
    · exact Node.wiringFault?_raised.2 (hq.wired m hm)
  · refine List.find?_eq_none.2 fun c hc => ?_
    rcases (h.mem_inline hr).1 hn with ⟨hn, -⟩ | ⟨m, hm, rfl⟩
    · simpa using channel?_inline_of_mem (hp.channel? hn hc)
    · obtain ⟨d, hd, rfl⟩ : ∃ d ∈ m.channels, k.outward d = c := by
        simpa [Node.channels, Node.raised, or_and_right, exists_or] using hc
      have hmem := (mem_of_channel? (hq.channel? hm hd)).1
      simpa using channel?_of_mem hnames (h.outward_mem hr hmem)

lemma boundaryFault?_raised (h : p.Embeds i k q) (hr : w.Ready p) (hm : m ∈ q.nodes)
    {queued : Channel → Nat} :
    inner.boundaryFault? queued false (k.raised m).inputs (k.raised m).outputs =
      none ↔ inner.boundaryFault? queued false m.inputs m.outputs = none := by
  have hmem : ∀ c ∈ m.inputs ++ m.outputs, c ∈ q.channels := fun c hc =>
    (mem_of_channel? ((h.sound hr).2.channel? hm hc)).1
  have htypes : (∀ c ∈ (k.raised m).inputs ++ (k.raised m).outputs, ∀ d,
      inner.channel? c.name = some d → d.type = c.type) ↔
      ∀ c ∈ m.inputs ++ m.outputs, ∀ d, inner.channel? c.name = some d → d.type = c.type := by
    rw [Node.raised, ← List.map_append, List.forall_mem_map]
    refine forall₂_congr fun c hc => ?_
    rw [k.name_outward, h.type_outward hr (hmem c hc)]
  rw [boundaryFault?_eq_none, boundaryFault?_eq_none, htypes]
  simp only [Node.raised, k.names_outward]

/-- Writing out a composite of a pipeline as built leaves a pipeline as built. -/
theorem ready_inline (h : p.Embeds i k q) (hr : w.Ready p) : w.Ready (p.inline i k q) where
  sound path q' hq' := by
    cases path with
    | nil =>
      obtain rfl := Option.some.inj hq'
      exact h.sound_inline hr
    | cons a path => exact hr.sound _ _ (h.level?_inline a path ▸ hq')
  fitting path q' n inner hq' hn hi := by
    cases path with
    | nil =>
      obtain rfl := Option.some.inj hq'
      rcases (h.mem_inline hr).1 hn with ⟨hn, -⟩ | ⟨m, hm, rfl⟩
      · exact hr.fitting [] p n inner rfl hn hi
      · obtain ⟨hnew, queued, hle, hfault⟩ := hr.fitting [i] q m inner h.level hm hi
        exact ⟨hnew, queued, hle, (h.boundaryFault?_raised hr hm).2 hfault⟩
    | cons a path => exact hr.fitting _ _ _ _ (h.level?_inline a path ▸ hq') hn hi
  apart path path' q₁ q₂ hq₁ hq₂ hne := by
    have outer : ∀ {a : Nat} {path : Address} {q' : Pipeline},
        (p.inline i k q).level? (a :: path) = some q' → p.id ≠ q'.id ∧
          ∀ c ∈ (p.inline i k q).channels, ∀ d ∈ q'.channels, c.id ≠ d.id := by
      intro a path q' hq'
      rw [h.level?_inline] at hq'
      obtain ⟨hnil, hself⟩ := origin_ne i q.nodes.length a path
      obtain ⟨hid, hp⟩ := hr.apart [] _ p q' rfl hq' hnil.symm
      refine ⟨hid, fun c hc d hd => ?_⟩
      rcases mem_channels_inline.1 hc with hc | ⟨hc, -⟩
      · exact hp c hc d hd
      · exact (hr.apart [i] _ q q' h.level hq' hself.symm).2 c hc d hd
    cases path with
    | nil =>
      obtain rfl := Option.some.inj hq₁
      cases path' with
      | nil => exact absurd rfl hne
      | cons a path' => exact outer hq₂
    | cons a path =>
      cases path' with
      | nil =>
        obtain rfl := Option.some.inj hq₂
        obtain ⟨hid, hch⟩ := outer hq₁
        exact ⟨hid.symm, fun c hc d hd => (hch d hd c hc).symm⟩
      | cons b path' =>
        rw [h.level?_inline] at hq₁ hq₂
        exact hr.apart _ _ q₁ q₂ hq₁ hq₂ fun heq => hne (origin_injective _ _ heq)
  calm path q' c hq' hc := by
    cases path with
    | nil =>
      obtain rfl := Option.some.inj hq'
      rcases mem_channels_inline.1 hc with hc | ⟨hc, -⟩
      · exact hr.calm [] p c rfl hc
      · exact hr.calm [i] q c h.level hc
    | cons a path => exact hr.calm _ _ _ (h.level?_inline a path ▸ hq') hc
  typed path q' c hq' hc := by
    cases path with
    | nil =>
      obtain rfl := Option.some.inj hq'
      rcases mem_channels_inline.1 hc with hc | ⟨hc, -⟩
      · exact hr.typed [] p c rfl hc
      · exact hr.typed [i] q c h.level hc
    | cons a path => exact hr.typed _ _ _ (h.level?_inline a path ▸ hq') hc

/-! ### Readers and writers -/

/-- Whoever reads inside what the composite reads, reads it outside when written out. -/
lemma exists_reader (h : p.Embeds i k q) (hr : w.Ready p) (hc : c ∈ k.inputs) :
    ∃ m ∈ q.nodes, ∃ d ∈ m.inputs, d.name = c.name ∧ k.outward d = c := by
  obtain ⟨m, hm, hx⟩ := List.mem_flatMap.1 (((h.border hr).inputs _).1 (List.mem_map_of_mem hc)).1
  obtain ⟨d, hd, hname⟩ := List.mem_map.1 hx
  exact ⟨m, hm, d, hd, hname, h.outward_eq hr (List.mem_append_left _ hc) hname.symm⟩

lemma exists_writer (h : p.Embeds i k q) (hr : w.Ready p) (hc : c ∈ k.outputs) :
    ∃ m ∈ q.nodes, ∃ d ∈ m.outputs, d.name = c.name ∧ k.outward d = c := by
  obtain ⟨m, hm, hx⟩ := List.mem_flatMap.1 ((h.border hr).outputs _ (List.mem_map_of_mem hc)).1
  obtain ⟨d, hd, hname⟩ := List.mem_map.1 hx
  exact ⟨m, hm, d, hd, hname, h.outward_eq hr (List.mem_append_right _ hc) hname.symm⟩

/-- What nobody reads when the composite is written out, nobody read before. -/
lemma unread (h : p.Embeds i k q) (hr : w.Ready p)
    (hno : ∀ n ∈ (p.inline i k q).nodes, c ∉ n.inputs) : (∀ n ∈ p.nodes, c ∉ n.inputs) ∧
      (c.name ∉ k.channels.map (·.name) → ∀ m ∈ q.nodes, c ∉ m.inputs) := by
  have raised : ∀ m ∈ q.nodes, c ∉ (k.raised m).inputs := fun m hm =>
    hno _ ((h.mem_inline hr).2 (.inr ⟨m, hm, rfl⟩))
  refine ⟨fun n hn hcn => ?_, fun hown m hm hcm => raised m hm ?_⟩
  · by_cases hnk : n = k
    · subst hnk
      obtain ⟨m, hm, d, hdm, -, rfl⟩ := h.exists_reader hr hcn
      exact raised m hm (List.mem_map_of_mem hdm)
    · exact hno n ((h.mem_inline hr).2 (.inl ⟨hn, hnk⟩)) hcn
  · exact List.mem_map.2 ⟨c, hcm, Node.outward_of_notMem hown⟩

lemma raised_inj (h : p.Embeds i k q) (hr : w.Ready p) {m m' : Node} (hm : m ∈ q.nodes)
    (hm' : m' ∈ q.nodes) (heq : k.raised m = k.raised m') : m = m' :=
  List.inj_on_of_nodup_map (h.sound hr).2.labels hm hm' <| by
    simpa using congrArg Node.name heq

lemma raised_ne (h : p.Embeds i k q) (hm : m ∈ q.nodes) (hn : n ∈ p.nodes) : k.raised m ≠ n :=
  fun heq => h.labels m hm (List.mem_map.2 ⟨n, hn, heq ▸ rfl⟩)

/-- If channels go from one node to one after the composite is written out, they did before. -/
lemma direct (h : p.Embeds i k q) (hr : w.Ready p) (hd : (p.inline i k q).Direct) :
    p.Direct ∧ q.Direct := by
  have kept : ∀ {n}, n ∈ p.nodes → n ≠ k → n ∈ (p.inline i k q).nodes := fun hn hne =>
    (h.mem_inline hr).2 (.inl ⟨hn, hne⟩)
  have raised : ∀ {m}, m ∈ q.nodes → k.raised m ∈ (p.inline i k q).nodes := fun hm =>
    (h.mem_inline hr).2 (.inr ⟨_, hm, rfl⟩)
  -- the composite shares a channel with nobody, for the node inside would share it
  have alone : ∀ {n c}, n ∈ p.nodes → c ∈ k.inputs → c ∈ n.inputs → n = k := by
    intro n c hn hck hcn
    by_contra hne
    obtain ⟨m, hm, d, hdm, -, rfl⟩ := h.exists_reader hr hck
    exact h.raised_ne hm hn (hd.readers _ (raised hm) _ (kept hn hne) _
      (List.mem_map_of_mem hdm) hcn)
  have alone' : ∀ {n c}, n ∈ p.nodes → c ∈ k.outputs → c ∈ n.outputs → n = k := by
    intro n c hn hck hcn
    by_contra hne
    obtain ⟨m, hm, d, hdm, -, rfl⟩ := h.exists_writer hr hck
    exact h.raised_ne hm hn (hd.writers _ (raised hm) _ (kept hn hne) _
      (List.mem_map_of_mem hdm) hcn)
  refine ⟨⟨fun n hn m hm c hcn hcm => ?_, fun n hn m hm c hcn hcm => ?_⟩,
    ⟨fun n hn m hm c hcn hcm => ?_, fun n hn m hm c hcn hcm => ?_⟩⟩
  · by_cases hnk : n = k
    · subst hnk
      exact (alone hm hcn hcm).symm
    · by_cases hmk : m = k
      · subst hmk
        exact alone hn hcm hcn
      · exact hd.readers n (kept hn hnk) m (kept hm hmk) c hcn hcm
  · by_cases hnk : n = k
    · subst hnk
      exact (alone' hm hcn hcm).symm
    · by_cases hmk : m = k
      · subst hmk
        exact alone' hn hcm hcn
      · exact hd.writers n (kept hn hnk) m (kept hm hmk) c hcn hcm
  · exact h.raised_inj hr hn hm (hd.readers _ (raised hn) _ (raised hm) _
      (List.mem_map_of_mem hcn) (List.mem_map_of_mem hcm))
  · exact h.raised_inj hr hn hm (hd.writers _ (raised hn) _ (raised hm) _
      (List.mem_map_of_mem hcn) (List.mem_map_of_mem hcm))

end Embeds

/-! ### Acceptance -/

/-- Each node of the list has each of its inputs from outside, or from a node before it. -/
def Served (has : Channel → Prop) (order : List Node) : Prop :=
  ∀ pre n post, order = pre ++ n :: post → ∀ c ∈ n.inputs, has c ∨ ∃ m ∈ pre, c ∈ m.outputs

variable {queued : Channel → Nat} {seeded : List String} {order : List Node}

/-- Names that a list of nodes writes are channels that it writes. -/
lemma Sound.mem_writes (hs : q.Sound) (hsub : order ⊆ q.nodes) (hc : c ∈ q.channels) :
    c.name ∈ writes order ↔ ∃ m ∈ order, c ∈ m.outputs := by
  constructor
  · intro hx
    obtain ⟨m, hm, hx⟩ := List.mem_flatMap.1 hx
    obtain ⟨d, hd, hname⟩ := List.mem_map.1 hx
    obtain rfl := hs.eq_of_name (hs.mem_output (hsub hm) hd) hc hname
    exact ⟨m, hm, hd⟩
  · rintro ⟨m, hm, hcm⟩
    exact name_mem_writes hm hcm

lemma Sound.served_of_feasible (hs : q.Sound) (hsub : order ⊆ q.nodes)
    (h : q.Feasible queued seeded order) :
    Served (fun c => 0 < queued c ∨ c.name ∈ seeded) order := by
  rintro pre n post rfl c hc
  have hn : n ∈ q.nodes := hsub (by simp)
  have hch := hs.mem_input hn hc
  have hshort := h pre n post rfl c hc
  rw [Short, hs.supply hch] at hshort
  have hread : 0 < (reads q.nodes).count c.name :=
    List.count_pos_iff.2 (name_mem_reads hn hc)
  by_cases hw : c.name ∈ writes pre
  · exact .inr ((hs.mem_writes (fun x hx => hsub (List.mem_append_left _ hx)) hch).1 hw)
  · rw [List.count_eq_zero_of_not_mem hw] at hshort
    by_cases hseed : c.name ∈ seeded
    · exact .inl (.inr hseed)
    · rw [if_neg hseed] at hshort
      exact .inl (.inl (by omega))

/-- An accepted pipeline has its nodes in an order in which each is served. -/
lemma Sound.exists_served (hs : q.Sound) (hok : q.checkSatisfiable queued seeded = .ok ()) :
    ∃ order, order.Perm q.nodes ∧ Served (fun c => 0 < queued c ∨ c.name ∈ seeded) order := by
  obtain ⟨fired, hplayed⟩ := q.exists_played queued seeded
  have hperm := hplayed.perm
  rw [checkSatisfiable_eq_ok.1 hok, List.append_nil] at hperm
  exact ⟨fired, hperm, hs.served_of_feasible hperm.subset hplayed.feasible⟩

lemma Served.mono {has has' : Channel → Prop} (h : Served has order)
    (hle : ∀ n ∈ order, ∀ c ∈ n.inputs, has c → has' c) : Served has' order := by
  rintro pre n post rfl c hc
  exact (h pre n post rfl c hc).imp_left (hle n (by simp) c hc)

end Pipeline

end Dataflow
