import Dataflow.Definition.Load
import Dataflow.Proofs.Replica
import Dataflow.Proofs.Seclusion
import Dataflow.Proofs.Starting

/-!
What is interpreted is ready to run. A build goes through the same steps as a program that builds
by hand, so it leaves everything as tidy; its seeds have been checked against the channels that
they are for; and as each build takes new identities only, no two of them have any in common.

Main statement: `interpreted_ready`.
-/

namespace Dataflow

/-! ### Building is tidy -/

namespace World

variable {ps : List Pipeline} {p p' q : Pipeline} {n : Node} {fresh m : Nat}

/-- Nothing has happened yet, but some identities were given out. -/
def untouched (fresh : Nat) : World := { initial with fresh := fresh }

lemma Tidy.advance (h : (untouched fresh).Tidy ps) (hm : fresh ≤ m) : (untouched m).Tidy ps :=
  { h with
    used := fun i hi => Nat.lt_of_lt_of_le (h.used i hi) hm
    blank := fun _ _ => rfl }

lemma tidy_untouched (fresh : Nat) : (untouched fresh).Tidy [] :=
  (show (untouched 0).Tidy [] from tidy_empty).advance (Nat.zero_le _)

end World

open World

lemma ChannelDefinition.tidy_of_declareAllIn {ps : List Pipeline} {p q : Pipeline}
    {fresh fresh₁ position : Nat} {cs : List ChannelDefinition}
    (ht : (untouched fresh).Tidy (p :: ps))
    (h : declareAllIn p fresh position cs = .ok (q, fresh₁)) :
    (untouched fresh₁).Tidy (q :: ps) := by
  induction cs generalizing p fresh position with
  | nil =>
    simp only [declareAllIn, Except.ok.injEq, Prod.mk.injEq] at h
    obtain ⟨rfl, rfl⟩ := h
    exact ht
  | cons c cs ih =>
    simp only [declareAllIn, Except.bind_eq_ok, Prod.exists] at h
    obtain ⟨_, _, hdeclared, h⟩ := h
    obtain ⟨name, type, -, hfree, rfl, rfl⟩ := declareIn_eq_ok.1 hdeclared
    have hmade : (untouched fresh).declare p name type =
        .ok ({ p with channels := p.channels ++ [⟨fresh, name, type⟩] }, ⟨fresh, name, type⟩,
          untouched (fresh + 1)) := by
      simp only [World.declare, takeFresh, untouched, Pipeline.declare,
        Pipeline.channel?_eq_none.2 hfree]
      rfl
    exact ih (ht.declare hmade) h

namespace NodeDefinition

variable {registry : Registry} {n : NodeDefinition} {ns : List NodeDefinition} {name : String}
  {ps : List Pipeline} {p p' q : Pipeline} {m : Node} {fresh fresh₁ position : Nat}

lemma tidy_of_build (ih : ∀ inner, n.pipeline = some inner → ∀ item fresh q fresh₁ ps,
      (untouched fresh).Tidy ps → inner.build registry item fresh = .ok (q, fresh₁) →
      (untouched fresh₁).Tidy (q :: ps))
    (ht : (untouched fresh).Tidy (p :: ps)) (h : n.build registry p name fresh = .ok (m, fresh₁))
    (hadd : p.addNode m = .ok p') : (untouched fresh₁).Tidy (p' :: ps) := by
  obtain ⟨inputs, outputs, kind, -, -, -, hbody⟩ := (build_eq_ok rfl).1 h
  rcases hbody with ⟨key, logic, -, -, -, -, -, hm, rfl⟩ | ⟨inner, q, -, hinner, -, -, hq, hm⟩
  · exact ht.node hm hadd
  · exact (ih inner hinner _ _ _ _ _ ht hq).composite hm hadd

lemma tidy_of_addAllTo (ih : ∀ n ∈ ns, ∀ inner, n.pipeline = some inner →
      ∀ item fresh q fresh₁ ps, (untouched fresh).Tidy ps →
      inner.build registry item fresh = .ok (q, fresh₁) → (untouched fresh₁).Tidy (q :: ps))
    (ht : (untouched fresh).Tidy (p :: ps))
    (h : addAllTo registry p fresh position ns = .ok (q, fresh₁)) :
    (untouched fresh₁).Tidy (q :: ps) := by
  induction ns generalizing p fresh position with
  | nil =>
    simp only [addAllTo, Except.ok.injEq, Prod.mk.injEq] at h
    obtain ⟨rfl, rfl⟩ := h
    exact ht
  | cons n ns ihns =>
    obtain ⟨ihn, ih⟩ := List.forall_mem_cons.1 ih
    simp only [addAllTo, Except.bind_eq_ok, Except.mapError_eq_ok, Prod.exists] at h
    obtain ⟨name, -, m, fresh₂, hm, p₂, hp₂, h⟩ := h
    exact ihns ih (tidy_of_build ihn ht hm hp₂) h

end NodeDefinition

namespace PipelineDefinition

variable {registry : Registry} {d : PipelineDefinition} {item : String} {ps : List Pipeline}
  {p : Pipeline} {fresh fresh₁ : Nat}

lemma tidy_of_build (ht : (untouched fresh).Tidy ps)
    (h : d.build registry item fresh = .ok (p, fresh₁)) : (untouched fresh₁).Tidy (p :: ps) := by
  induction d using nested_induction generalizing item fresh p fresh₁ ps with
  | step d ih =>
    obtain ⟨name, channels, nodes, q, fresh₂, -, -, hnodes, hq, h⟩ := build_eq_ok.1 h
    have hnew := ChannelDefinition.tidy_of_declareAllIn (ht.pipeline _ _) hq
    exact NodeDefinition.tidy_of_addAllTo (fun n hn inner hinner _ _ _ _ _ hb hbuilt =>
      ih nodes hnodes n hn inner hinner hb hbuilt) hnew h

/-- A build uses the identities that it takes, and no others. -/
lemma identities_of_build (h : d.build registry item fresh = .ok (p, fresh₁)) {i : Nat}
    (hi : i ∈ p.identities) : fresh ≤ i ∧ i < fresh₁ := by
  constructor
  · by_contra hlt
    have hold : (untouched (i + 1)).Tidy [Pipeline.new i "" {}] := (tidy_untouched i).pipeline "" {}
    have hdistinct := (tidy_of_build (hold.advance (by omega)) h).distinct
    rw [List.flatMap_cons, List.nodup_append] at hdistinct
    exact hdistinct.2.2 i hi i (List.mem_flatMap.2 ⟨_, List.mem_singleton_self _,
      Pipeline.id_mem_identities (Pipeline.level?_nil _)⟩) rfl
  · exact (tidy_of_build (tidy_untouched fresh) h).used i (by simpa using hi)

lemma le_of_build (h : d.build registry item fresh = .ok (p, fresh₁)) : fresh ≤ fresh₁ := by
  obtain ⟨hle, hlt⟩ := identities_of_build h (Pipeline.id_mem_identities (Pipeline.level?_nil p))
  exact Nat.le_of_lt (Nat.lt_of_le_of_lt hle hlt)

end PipelineDefinition

/-! ### Seeds -/

lemma Payload.mem_keys_insert {got : Payload} {key x : String} {v : Value} :
    x ∈ (got.insert key v).keys ↔ x = key ∨ x ∈ got.keys := by
  rw [← not_iff_not, ← get?_eq_none, get?_insert, not_or, ← get?_eq_none]
  by_cases hx : x = key <;> simp [hx]

namespace Literal

variable {p : Pipeline} {entries : List (String × Literal)} {acc seeds : Payload}

lemma admits_of_seeds (hacc : p.Admits acc.entries)
    (h : Literal.seeds p entries acc = .ok seeds) : p.Admits seeds.entries := by
  induction entries generalizing acc with
  | nil =>
    obtain rfl := Except.ok.inj h
    exact hacc
  | cons e entries ih =>
    obtain ⟨name, l⟩ := e
    unfold Literal.seeds at h
    cases hc : p.channel? name with
    | none => simp [hc] at h
    | some c =>
      simp only [hc, Except.bind_eq_ok] at h
      obtain ⟨v, hv, h⟩ := h
      refine ih (fun e he => ?_) h
      rcases List.mem_append.1 he with he | he
      · exact hacc e (List.mem_of_mem_filter he)
      · obtain rfl := List.mem_singleton.1 he
        exact ⟨c, hc, (forChannel_eq_ok.1 hv).2⟩

lemma mem_keys_of_seeds (h : Literal.seeds p entries acc = .ok seeds) (x : String) :
    x ∈ seeds.keys ↔ x ∈ acc.keys ∨ x ∈ entries.map Prod.fst := by
  induction entries generalizing acc with
  | nil =>
    obtain rfl := Except.ok.inj h
    simp
  | cons e entries ih =>
    obtain ⟨name, l⟩ := e
    unfold Literal.seeds at h
    cases hc : p.channel? name with
    | none => simp [hc] at h
    | some c =>
      simp only [hc, Except.bind_eq_ok] at h
      obtain ⟨v, -, h⟩ := h
      rw [ih h, Payload.mem_keys_insert, List.map_cons, List.mem_cons, or_assoc, or_left_comm]

/-- What the seeds are does not depend on identities. -/
lemma seeds_renumber (f : Nat → Nat) (p : Pipeline) (entries : List (String × Literal))
    (acc : Payload) : Literal.seeds (p.renumber f) entries acc = Literal.seeds p entries acc := by
  induction entries generalizing acc with
  | nil => rfl
  | cons e entries ih =>
    obtain ⟨name, l⟩ := e
    unfold Literal.seeds
    rw [p.channel?_renumber]
    cases p.channel? name with
    | none => rw [p.renumber_eq]; rfl
    | some c => exact bind_congr fun v => ih _

end Literal

/-! ### Readiness -/

lemma Conduit.Calm.eq_empty {ι : Type} {c : Conduit ι} (h : c.Calm) (hq : c.queue = []) :
    c = {} := by
  have hfree : c.free = 0 := by rw [h.free, hq, List.length_nil]
  have hwaiting := h.waiting
  have hgranted := h.granted
  cases c
  simp_all

namespace World

variable {w w' v u : World} {registry : Registry} {d : PipelineDefinition} {p q : Pipeline}
  {ps : List Pipeline} {seeds : Payload} {fresh : Nat} {r : Address} {token : Token}
  {e : GraphError}

/-- The identities that are still to be given out have not been used. -/
def Unused (w : World) : Prop := ∀ i, w.fresh ≤ i → w.conduits i = {} ∧ w.started i = false

/-- Whatever was built, it was built with identities that were given out. -/
lemma unused_of_workshop (h : Workshop w ps) : w.Unused := by
  have ht := tidy_of_workshop h
  exact fun i hi => ⟨(ht.calm i).eq_empty (ht.blank i hi), ht.unstarted i⟩

/-- Nobody has touched the pipeline on any level: nothing was sent, and nothing was started. -/
def Pristine (w : World) (p : Pipeline) : Prop :=
  ∀ i ∈ p.identities, w.conduits i = {} ∧ w.started i = false

lemma Tidy.ready_of_pristine (ht : (untouched fresh).Tidy ps) (hp : p ∈ ps)
    (h : w.Pristine p) : w.Ready p where
  sound := ht.sound p hp
  fitting path q n inner hq hn hi := by
    obtain ⟨i, hi'⟩ := List.mem_iff_getElem?.1 hn
    have hid := Pipeline.id_mem_identities (Pipeline.level?_cons hq hi' hi)
    obtain ⟨queued, hle, hfault⟩ := ht.fitting p hp path q n inner hq hn hi
    exact ⟨(h _ hid).2, queued, fun c hc => (hle c hc).trans (Nat.zero_le _), hfault⟩
  apart := (ht.ready hp).apart
  calm path q c hq hc := by
    rw [conduit, (h _ (Pipeline.channel_mem_identities hq hc)).1]
    exact ⟨rfl, rfl⟩
  typed path q c hq hc x hx := by
    rw [conduit, (h _ (Pipeline.channel_mem_identities hq hc)).1] at hx
    cases hx

lemma Tidy.snug (ht : (untouched fresh).Tidy ps) (hp : p ∈ ps) : p.Snug :=
  fun _ _ _ _ hq hn hi => ((ht.ready hp).fits hq hn hi).2

/-- Seeds that suit their channels leave only one reason to refuse a start. -/
lemma checkSatisfiable_of_start (hseeds : p.Admits seeds.entries) (hnew : w.started p.id = false)
    (h : w.start r p seeds token true = .error e) :
    p.options.validateInputs = true ∧ p.checkSatisfiable w.queued seeds.keys = .error e := by
  have hvalid : w.validate p seeds =
      if p.options.validateInputs then p.checkSatisfiable w.queued seeds.keys else .ok () := by
    unfold validate
    rw [checkSeeds_eq_ok.2 hseeds]
    rfl
  cases hv : w.validate p seeds with
  | ok _ =>
    obtain ⟨w', hs⟩ := exists_start r token hnew hv
    rw [hs] at h
    cases h
  | error e' =>
    obtain rfl : e' = e := by simpa [start, hnew, hv, bind, Except.bind] using h
    rw [hvalid] at hv
    split_ifs at hv with hon
    exact ⟨hon, hv⟩

lemma unsatisfiableInput_of_checkSatisfiable {queued : Channel → Nat} {seeded : List String}
    (h : p.checkSatisfiable queued seeded = .error e) :
    ∃ node input, e = .unsatisfiableInput node input := by
  unfold Pipeline.checkSatisfiable at h
  split at h
  · exact ⟨_, _, (Except.error.inj h).symm⟩
  · cases h

end World

/-- How runs of the pipeline with these seeds start, and how composites go in them. -/
structure Pipeline.Runnable (p : Pipeline) (seeds : Payload) : Prop where
  refused : ∀ (w : World) r token e, w.started p.id = false →
    w.start r p seeds token true = .error e → ∃ node input, e = .unsatisfiableInput node input
  unchecked : p.options.validateInputs = false → ∀ (w : World) r token, w.started p.id = false →
    ∃ v, w.start r p seeds token true = .ok v
  /-- Others may do what they like, if only they keep away from the pipeline. -/
  admitted : ∀ (w v u : World) r token runtime env ms, w.Pristine p → w.Vacant r →
    (∀ x, (w.conduits x).Orderly) → w.start r p seeds token runtime = .ok v →
    (∀ x y, env x y → x.Outside r y ∧ Unmoved p.identities x y) → v.Plays r env ms u →
    u.Admitted r

/-- Whatever runs of `p` do, they leave `q` as it is on all its levels. -/
def Pipeline.Leaves (p q : Pipeline) : Prop :=
  ∀ (w v u : World) r seeds token runtime env ms, w.Vacant r → (∀ x, (w.conduits x).Orderly) →
    w.start r p seeds token runtime = .ok v →
    (∀ x y, env x y → x.Outside r y ∧ Unmoved q.identities x y) → v.Plays r env ms u →
    Unmoved q.identities w u

namespace World

variable {w w' v u : World} {registry : Registry} {d : PipelineDefinition} {p q : Pipeline}
  {ps : List Pipeline} {seeds : Payload} {fresh : Nat}

lemma Tidy.runnable (ht : (untouched fresh).Tidy ps) (hp : p ∈ ps)
    (hseeds : p.Admits seeds.entries) : p.Runnable seeds where
  refused _ _ _ _ hnew h :=
    unsatisfiableInput_of_checkSatisfiable (checkSatisfiable_of_start hseeds hnew h).2
  unchecked hoff _ r token hnew :=
    exists_start r token hnew (validate_iff.2 ⟨hseeds, fun hon => by simp [hoff] at hon⟩)
  admitted _ _ _ _ _ _ _ _ hpristine hv ho hstart henv hplay :=
    no_setup_failure (ht.ready_of_pristine hp hpristine) (ht.snug hp) hv ho hstart henv hplay

lemma Tidy.leaves (ht : (untouched fresh).Tidy ps) (hp : p ∈ ps)
    (hdisj : p.identities.Disjoint q.identities) : p.Leaves q :=
  fun _ _ _ _ _ _ _ _ _ hv ho hstart henv hplay =>
    unmoved_of_plays (ht.ready hp).laid hv ho hstart (fun _ hi hi' => hdisj hi' hi) henv hplay

lemma interpret_eq_ok : w.interpret registry d = .ok (p, seeds, w') ↔
    ∃ fresh, d.build registry "pipeline" w.fresh = .ok (p, fresh) ∧
      Literal.seeds p (d.initialData.getD []) .empty = .ok seeds ∧
      w' = { w with fresh := fresh }.say (.definitionInterpreted p.name p.channels.length
        p.nodes.length seeds.keys.length) := by
  simp only [interpret, PipelineDefinition.interpret, Except.bind_eq_ok, Except.pure_eq_ok,
    Prod.exists, Prod.mk.injEq]
  constructor
  · rintro ⟨_, _, _, ⟨_, fresh, hbuilt, _, hseeds, rfl, rfl, rfl⟩, rfl, rfl, rfl⟩
    exact ⟨fresh, hbuilt, hseeds, rfl⟩
  · rintro ⟨fresh, hbuilt, hseeds, rfl⟩
    exact ⟨_, _, _, ⟨_, fresh, hbuilt, _, hseeds, rfl, rfl, rfl⟩, rfl, rfl, rfl⟩

/-- **What is interpreted is ready to run.** Its seeds are those of the definition, and a start with
them is refused only if an input may be lacking, if at all. No composite fails at the start inside
it. Another interpretation, at any time later, gives the same but for the identities. The two have
no channel and no pipeline in common, so runs of the one do not concern the other. -/
theorem interpreted_ready (h : w.interpret registry d = .ok (p, seeds, w')) :
    (∀ x, x ∈ seeds.keys ↔ x ∈ (d.initialData.getD []).map Prod.fst) ∧ p.Runnable seeds ∧
      (w.Unused → w'.Pristine p ∧ w'.Unused) ∧
      ∀ v : World, w'.fresh ≤ v.fresh → ∃ q v', v.interpret registry d = .ok (q, seeds, v') ∧
        q = p.renumber (· + (v.fresh - w.fresh)) ∧ p.identities.Disjoint q.identities ∧
        p.Leaves q ∧ q.Leaves p := by
  obtain ⟨fresh, hbuilt, hseeds, rfl⟩ := interpret_eq_ok.1 h
  have hle := PipelineDefinition.le_of_build hbuilt
  have ht := PipelineDefinition.tidy_of_build (tidy_untouched w.fresh) hbuilt
  have hadmits := Literal.admits_of_seeds (fun e he => by cases he) hseeds
  refine ⟨fun x => ?_, ht.runnable List.mem_cons_self hadmits,
    fun hw => ⟨fun i hi => ?_, fun i hi => ?_⟩, fun v hv => ?_⟩
  · simp [Literal.mem_keys_of_seeds hseeds]
  · exact hw i (PipelineDefinition.identities_of_build hbuilt hi).1
  · exact hw i (hle.trans hi)
  have hlater : w.fresh + (v.fresh - w.fresh) = v.fresh := Nat.add_sub_cancel' (hle.trans hv)
  obtain ⟨⟨q, fresh'⟩, hbuilt'⟩ : ∃ r, d.build registry "pipeline" v.fresh = .ok r :=
    PipelineDefinition.build_isOk.2 (PipelineDefinition.build_isOk.1 ⟨_, hbuilt⟩)
  obtain ⟨rfl, -⟩ := PipelineDefinition.build_shifted hbuilt (hlater.symm ▸ hbuilt')
  have hdisj : p.identities.Disjoint (p.renumber (· + (v.fresh - w.fresh))).identities := by
    intro i hi hi'
    have hlt := (PipelineDefinition.identities_of_build hbuilt hi).2
    have hge := (PipelineDefinition.identities_of_build hbuilt' hi').1
    exact Nat.lt_irrefl _ (hlt.trans_le (hv.trans hge))
  have ht' := PipelineDefinition.tidy_of_build (tidy_untouched v.fresh) hbuilt'
  exact ⟨_, _, interpret_eq_ok.2 ⟨fresh', hbuilt', (Literal.seeds_renumber _ p _ _).trans hseeds,
    rfl⟩, rfl, hdisj, ht.leaves List.mem_cons_self hdisj, ht'.leaves List.mem_cons_self
      fun _ hi' hi => hdisj hi hi'⟩

/-- A number that is handed through a box. -/
def boxed : PipelineDefinition where
  name := some "boxed"
  channels := some [⟨some "in", some "integer"⟩, ⟨some "out", some "integer"⟩]
  nodes := some [{
    name := some "box"
    inputs := ["in"]
    outputs := ["out"]
    pipeline := some {
      name := some "inside"
      channels := some [⟨some "in", some "integer"⟩, ⟨some "out", some "integer"⟩]
      nodes := some [{
        name := some "hand", inputs := ["in"], outputs := ["out"], logic := some "hand" }] } }]
  initialData := some [("in", .integer 7)]

def handing : Registry := .ofList [("hand", .pure .function fun got => .returned
  ((got.get? "in").elim .empty (Payload.singleton "out")))]

theorem boxed_ready :
    ∃ p seeds w, initial.interpret handing boxed = .ok (p, seeds, w) ∧
      (∀ x, x ∈ seeds.keys ↔ x = "in") ∧ p.Runnable seeds ∧ w.Pristine p ∧
      ∃ q v, w.interpret handing boxed = .ok (q, seeds, v) ∧ q = p.renumber (· + 6) ∧
        p.identities.Disjoint q.identities ∧ p.Leaves q ∧ q.Leaves p := by
  have hfresh : (initial.interpret handing boxed).toOption.map (·.2.2.fresh) = some 6 := by
    decide +kernel
  cases h : initial.interpret handing boxed with
  | error e => simp [h, Except.toOption] at hfresh
  | ok result =>
    obtain ⟨p, seeds, w⟩ := result
    obtain ⟨hkeys, hrunnable, hunused, hagain⟩ := interpreted_ready h
    obtain ⟨hpristine, -⟩ := hunused (unused_of_workshop .empty)
    obtain ⟨q, v, hq, hshifted, hdisj, hleaves, hleft⟩ := hagain w (Nat.le_refl _)
    have hw : w.fresh = 6 := by simpa [h, Except.toOption] using hfresh
    rw [hw] at hshifted
    exact ⟨p, seeds, w, rfl, fun x => by simpa [boxed] using hkeys x, hrunnable, hpristine,
      q, v, hq, hshifted, hdisj, hleaves, hleft⟩

end World

end Dataflow
