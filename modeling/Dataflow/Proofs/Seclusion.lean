import Dataflow.Proofs.Boundary
import Dataflow.Proofs.Conformity

/-!
A run keeps to what its pipeline is made of: to the channels of its levels, and to the marks that
say which of its levels were started. And if others keep away from these, no composite fails when
it starts the pipeline inside it: nobody has started that pipeline before, and the seeds are what
was checked when the composite was made.

Main statements: `unmoved_of_plays` and `no_setup_failure`.
-/

namespace Dataflow

namespace Pipeline

variable {p q : Pipeline} {path : Address} {c : Channel}

lemma id_mem_identities (hq : p.level? path = some q) : q.id ∈ p.identities :=
  List.mem_flatMap.2 ⟨_, mem_tiers.2 hq, List.mem_cons_self⟩

lemma channel_mem_identities (hq : p.level? path = some q) (hc : c ∈ q.channels) :
    c.id ∈ p.identities :=
  List.mem_flatMap.2 ⟨_, mem_tiers.2 hq, List.mem_cons_of_mem _ (List.mem_map_of_mem hc)⟩

/-- Each composite on each level was checked when nothing waited inside. -/
def Snug (p : Pipeline) : Prop :=
  ∀ path q n inner, p.level? path = some q → n ∈ q.nodes → n.inner? = some inner →
    inner.Fits (fun _ => 0) n.inputs n.outputs

/-- No two levels are the same pipeline. -/
def Unrepeated (p : Pipeline) : Prop :=
  ∀ path path' q q', p.level? path = some q → p.level? path' = some q' → q.id = q'.id → path = path'

end Pipeline

namespace World

variable {w w₁ v u : World} {r a : Address} {p q inner : Pipeline} {k k' : Worker} {n : Node}
  {ds : List Deed} {seeds inputs : Payload} {token : Token} {m : Move} {ms : List Move}
  {is : List Nat} {env : World → World → Prop} {expired runtime : Bool} {name : String}
  {e : GraphError}

/-! ### What a run does not touch -/

/-- The channels and the pipelines with these identities are as they were. -/
def Unmoved (is : List Nat) (v u : World) : Prop :=
  ∀ i ∈ is, u.conduits i = v.conduits i ∧ u.started i = v.started i

lemma Unmoved.trans (h : Unmoved is w v) (h' : Unmoved is v u) : Unmoved is w u := fun i hi =>
  ⟨(h' i hi).1.trans (h i hi).1, (h' i hi).2.trans (h i hi).2⟩

/-- Only a composite that goes inside marks a pipeline. -/
lemma Stride.started_cases (hst : v.Stride u a k expired) (hs : k.node.Suits k.stage) :
    u.started = v.started ∨
      ∃ inner, k.node.inner? = some inner ∧ u.started = update v.started inner.id true := by
  rcases hst.kinds with ⟨inner, inputs, id, hstage, he⟩ | ⟨_, -, told⟩ | ⟨_, _, hsh, -, -⟩
  · rw [hstage] at hs
    exact .inr ⟨inner, hs, he.started⟩
  · exact .inl told.started
  · exact .inl hsh.started

theorem unmoved_of_step (hlaid : p.Laid) (hc : v.Course r p) (hpages : v.Pages r ds)
    (hdisj : ∀ i ∈ is, i ∉ p.identities) (hm : m.Of r) (hs : v.step? m = some u) :
    Unmoved is v u := by
  intro i hi
  have hnot := hdisj i hi
  constructor
  · rcases hc.conduit_cases hlaid hpages.page hm hs i with hsame | ⟨path, q, c, hq, hmem, rfl⟩
    · exact hsame
    · exact absurd (Pipeline.channel_mem_identities hq hmem) hnot
  · rcases below_cases hm hs with ⟨a, k, expired, ha, hk, hstep, -⟩ | ⟨-, -, -, hst⟩
    · obtain ⟨j, path, run, -, -, hpost, hlevel⟩ := hc.tree.place ha hk
      rcases (stride_of_worker hk hstep).started_cases (hc.tree.suits a k ha hk) with
        hsame | ⟨inner, hinner, hmark⟩
      · rw [hsame]
      · rw [hmark, update_of_ne]
        rintro rfl
        exact hnot (Pipeline.id_mem_identities (Pipeline.level?_cons hlevel hpost.node hinner))
    · exact congrFun hst i

lemma unmoved_of_launched (hdisj : ∀ i ∈ is, i ∉ p.identities)
    (hl : w.Launched w₁ r p seeds token) : Unmoved is w w₁ := by
  intro i hi
  have hroot := Pipeline.level?_nil p
  constructor
  · rw [hl.conduits]
    refine Pipeline.sow_of_forall_ne (fun c hc heq => hdisj i hi ?_) _ _
    exact heq ▸ Pipeline.channel_mem_identities hroot hc
  · rw [hl.started, update_of_ne]
    rintro rfl
    exact hdisj _ hi (Pipeline.id_mem_identities hroot)

/-- **A run keeps to itself.** It leaves all channels and pipelines as they are that are on none of
its levels, if only others do. -/
theorem unmoved_of_plays (hlaid : p.Laid) (hv : w.Vacant r) (ho : ∀ x, (w.conduits x).Orderly)
    (hstart : w.start r p seeds token runtime = .ok w₁) (hdisj : ∀ i ∈ is, i ∉ p.identities)
    (henv : ∀ x y, env x y → x.Outside r y ∧ Unmoved is x y) (hplay : w₁.Plays r env ms v) :
    Unmoved is w v := by
  obtain ⟨-, -, hl⟩ := start_eq_ok hstart
  have houtside : ∀ x y, env x y → x.Outside r y := fun x y h => (henv x y h).1
  have hcourse : w₁.Course r p := course_of_plays hv ho hstart houtside .start
  obtain ⟨ds, h⟩ := exists_chronicle hplay
  clear hplay
  induction h with
  | start => exact unmoved_of_launched hdisj hl
  | move before own step ih =>
    obtain ⟨hc, hpages⟩ := (pages_of_launched hv hl).chronicle hlaid hcourse houtside before
    exact ih.trans (unmoved_of_step hlaid hc hpages hdisj own step)
  | await before ih =>
    obtain ⟨-, hconduits, hstarted, -⟩ := await_others _ r
    exact ih.trans fun i _ => ⟨by rw [hconduits], by rw [hstarted]⟩
  | others before act ih => exact ih.trans (henv _ _ act).2

/-! ### Starting the pipeline inside -/

/-- What has come of the inputs of a composite suits the pipeline inside. -/
lemma validate_of_holds (hfits : inner.Fits (fun _ => 0) n.inputs n.outputs)
    (hsound : inner.Sound) (hholds : inputs.Holds n.inputs) (v : World) :
    v.validate inner inputs = .ok () := by
  refine validate_eq_ok.2 ⟨checkSeeds_eq_ok.2 fun e he => ?_, fun _ => ?_⟩
  · obtain ⟨c, hmem, hname, hacc⟩ := hholds.entry he
    obtain ⟨d, -, -, hd⟩ := hsound.declared (.inl (hfits.consumed c hmem))
    refine ⟨d, hname ▸ hd, ?_⟩
    rw [hfits.types c (List.mem_append_left _ hmem) d hd]
    exact hacc
  · rw [hholds.keys]
    exact Pipeline.checkSatisfiable_mono hsound.nodup_nodes (fun _ _ => Nat.zero_le _)
      hfits.accepted

/-- A start inside that failed was refused just now, or before. -/
lemma refused_of_work? (hk : v.workers a = some k) (h : v.work? a expired = some u)
    (hk' : u.workers a = some k') (hended : k'.Ended (.error (.innerSetup name e))) :
    k.Ended (.error (.innerSetup name e)) ∨ ∃ inner inputs, k.stage = .entering inner inputs ∧
      (v.started inner.id = true ∨ v.validate inner inputs ≠ .ok ()) := by
  have never : ∀ {s : Stage} {f : Nat → Conduit Address}, v.Shift u a k s f →
      ¬ Worker.Ended { k with stage := s } (.error (.innerSetup name e)) →
      k.Ended (.error (.innerSetup name e)) ∨ ∃ inner inputs, k.stage = .entering inner inputs ∧
        (v.started inner.id = true ∨ v.validate inner inputs ≠ .ok ()) := fun hsh hne => by
    rw [hsh.stage_eq hk'] at hended
    exact absurd hended hne
  have hst := stride_of_worker hk h
  cases hst with
  | linedUp stage _ _ _ hsh => exact never hsh (by simp [Worker.Ended, stage])
  | took stage _ _ _ hsh =>
    refine never hsh ?_
    rcases k.node.gather_cases (Payload.insert _ _ _) _ with
      ⟨c, cs, -, hg⟩ | ⟨-, ⟨logic, -, hg⟩ | ⟨inner, -, hg⟩⟩ <;> rw [hg] <;> simp [Worker.Ended]
  | foundNothing _ _ _ hsh => exact never hsh (by simp [Worker.Ended])
  | gaveUp _ _ hsh => exact never hsh (by simp [Worker.Ended])
  | called _ _ hsh => exact never hsh (by simp [Worker.Ended])
  | @crashed logic inputs _ stage reply hsh =>
    have hstep : v.callStep a k logic inputs = u := by simpa [work?, hk, stage] using h
    rw [← hstep] at hk'
    unfold callStep at hk'
    dsimp only at hk'
    split at hk' <;> simp only [fail, goTo, setWorker, update_same, Option.some.injEq] at hk' <;>
      subst hk' <;> simp [Worker.Ended] at hended
  | entered _ _ entry =>
    rw [entry.worker_self] at hk'
    obtain rfl := Option.some.inj hk'
    simp [Worker.Ended] at hended
  | refused stage why _ => exact .inr ⟨_, _, stage, why⟩
  | innerFailed _ _ _ hsh => exact never hsh (by simp [Worker.Ended])
  | left _ _ _ _ hsh => exact never hsh (by simp [Worker.Ended])
  | missed _ _ _ _ hsh => exact never hsh (by simp [Worker.Ended])
  | checked _ _ hsh => exact never hsh (by simp [Worker.Ended])
  | rejected _ _ hsh => exact never hsh (by simp [Worker.Ended])
  | sent _ _ hsh => exact never hsh (by simp [Worker.Ended])
  | unsent _ _ hsh => exact never hsh (by simp [Worker.Ended])
  | finished _ hsh => exact never hsh (by simp [Worker.Ended])
  | told stage told =>
    rw [told.workers, update_same] at hk'
    obtain rfl := Option.some.inj hk'
    simp only [Worker.Ended, reduceCtorEq, false_or, Stage.reported.injEq] at hended
    exact .inl (.inl (hended ▸ stage))

/-- Where no run stands yet, the pipeline of the level has not been started. -/
def Unopened (v : World) (r : Address) (p : Pipeline) : Prop :=
  ∀ path q, path ≠ [] → p.level? path = some q → v.runs (path ++ r) = none →
    v.started q.id = false

lemma Unopened.same (h : v.Unopened r p) (hruns : ∀ b, r <:+ b → u.runs b = none → v.runs b = none)
    (hstarted : ∀ path q, p.level? path = some q → u.started q.id = v.started q.id) :
    u.Unopened r p := fun path q hne hq hnone =>
  (hstarted path q hq).trans (h path q hne hq (hruns _ (List.suffix_append _ _) hnone))

/-- A run that stands goes on standing. -/
lemma Onward.runs_none (h : v.Onward u r) {b : Address} (hb : r <:+ b) (hnone : u.runs b = none) :
    v.runs b = none := by
  cases hrun : v.runs b with
  | none => rfl
  | some run =>
    obtain ⟨run', hrun', -⟩ := h.runs b run hb hrun
    rw [hnone] at hrun'
    cases hrun'

lemma Unopened.step (hunrepeated : p.Unrepeated) (hc : v.Course r p) (h : v.Unopened r p)
    (hm : m.Of r) (hs : v.step? m = some u) : u.Unopened r p := by
  have honward : v.Onward u r := onward_of_step hc.tree hm hs
  have hruns : ∀ b, r <:+ b → u.runs b = none → v.runs b = none := fun _ => honward.runs_none
  rcases below_cases hm hs with ⟨a, k, expired, ha, hk, hstep, -⟩ | ⟨-, -, -, hst⟩
  · have hst := stride_of_worker hk hstep
    rcases hst.kinds with ⟨inner, inputs, id, hstage, he⟩ | ⟨_, -, told⟩ | ⟨_, _, hsh, -, -⟩
    · -- the run that is made now stands on the one level whose pipeline is marked
      obtain ⟨i, path, run, rfl, -, hpost, hlevel⟩ := hc.tree.place ha hk
      have hinner := Pipeline.level?_cons hlevel hpost.node (hc.tree.inner_of_entering ha hk hstage)
      intro path' q hne hq hnone
      have hid : q.id ≠ inner.id := by
        intro heq
        obtain rfl := hunrepeated _ _ _ _ hq hinner heq
        have hself := he.run_self
        rw [List.cons_append] at hnone
        rw [hnone] at hself
        cases hself
      rw [he.started, update_of_ne hid]
      exact h path' q hne hq (hruns _ (List.suffix_append _ _) hnone)
    · exact h.same hruns fun _ _ _ => by rw [told.started]
    · exact h.same hruns fun _ _ _ => by rw [hsh.started]
  · exact h.same hruns fun _ _ _ => by rw [hst]

lemma unopened_of_launched (hready : w.Ready p) (hunrepeated : p.Unrepeated)
    (hl : w.Launched w₁ r p seeds token) : w₁.Unopened r p := by
  intro path q hne hq _
  have hid : q.id ≠ p.id := fun heq =>
    hne (hunrepeated _ _ _ _ hq (Pipeline.level?_nil p) heq)
  obtain ⟨i, path, rfl⟩ := List.exists_cons_of_ne_nil hne
  obtain ⟨around, n, haround, hn, hinner⟩ := Pipeline.level?_cons_inv hq
  rw [hl.started, update_of_ne hid]
  exact (hready.fitting path around n q haround (List.mem_of_getElem? hn) hinner).1

/-- No worker of the run has failed at the start of the pipeline inside it. -/
def Admitted (v : World) (r : Address) : Prop :=
  ∀ a k name e, Below r a → v.workers a = some k → ¬ k.Ended (.error (.innerSetup name e))

lemma Admitted.same (h : v.Admitted r) (hw : ∀ a, Below r a → u.workers a = v.workers a) :
    u.Admitted r := fun a k name e ha hk => h a k name e ha (hw a ha ▸ hk)

lemma Admitted.step (hlaid : p.Laid) (hsnug : p.Snug) (hc : v.Course r p)
    (htyping : v.Typing r p ds) (hunopened : v.Unopened r p) (h : v.Admitted r)
    (hm : m.Of r) (hs : v.step? m = some u) : u.Admitted r := by
  rcases below_cases hm hs with ⟨a, k, expired, ha, hk, hstep, -⟩ | ⟨-, hws, -, -⟩
  · have hst := stride_of_worker hk hstep
    intro b k' name e hb hk' hended
    by_cases hba : b = a
    · subst hba
      rcases refused_of_work? hk hstep hk' hended with hold | ⟨inner, inputs, hstage, hwhy⟩
      · exact h b k name e hb hk hold
      obtain ⟨i, path, run, rfl, -, hpost, hlevel⟩ := hc.tree.place ha hk
      have hinner := hc.tree.inner_of_entering ha hk hstage
      have hbelow := Pipeline.level?_cons hlevel hpost.node hinner
      have hholds := htyping.held _ k ha hk
      rw [Worker.Fitting, hstage] at hholds
      rcases hwhy with hstarted | hinvalid
      · have hnew := hunopened _ _ (by simp) hbelow (hc.tree.runs_of_entering ha hk hstage)
        rw [hnew] at hstarted
        cases hstarted
      · exact hinvalid (validate_of_holds
          (hsnug _ _ _ _ hlevel (List.mem_of_getElem? hpost.node) hinner)
          (hlaid.sound _ _ hbelow) hholds v)
    · rcases hc.tree.worker_of_ne ha hk hst hba with hsame | ⟨-, n, token, limit, hnew⟩
      · exact h b k' name e hb (hsame ▸ hk') hended
      · rw [hnew] at hk'
        exact new_not_ended (Option.some.inj hk' ▸ hended)
  · exact h.same fun a _ => by rw [hws]

lemma admitted_of_launched (hv : w.Vacant r) (hl : w.Launched w₁ r p seeds token) :
    w₁.Admitted r := fun _ _ _ _ ha hk =>
  open_of_launched hv hl ha hk

/-- **No composite fails at the start inside it**, on any level, if others keep away from the
channels and pipelines of the run. -/
theorem no_setup_failure (hready : w.Ready p) (hsnug : p.Snug)
    (hv : w.Vacant r) (ho : ∀ x, (w.conduits x).Orderly)
    (hstart : w.start r p seeds token runtime = .ok w₁)
    (henv : ∀ x y, env x y → x.Outside r y ∧ Unmoved p.identities x y)
    (hplay : w₁.Plays r env ms v) : v.Admitted r := by
  obtain ⟨-, -, hl⟩ := start_eq_ok hstart
  have hlaid := hready.laid
  have hunrepeated : p.Unrepeated := fun path path' q q' hq hq' heq =>
    by_contra fun hne => (hready.apart path path' q q' hq hq' hne).1 heq
  have hguarded : ∀ x y, env x y → Guarded p r x y := fun x y hact =>
    ⟨(henv x y hact).1, fun path q c hq hc z hz => .inl (by
      have hsame := ((henv x y hact).2 c.id (Pipeline.channel_mem_identities hq hc)).1
      rwa [conduit, hsame] at hz)⟩
  obtain ⟨ds, h⟩ := exists_chronicle hplay
  clear hplay
  suffices v.Unopened r p ∧ v.Admitted r from this.2
  have course : ∀ {ms ds v}, w₁.Chronicle r env ms ds v → v.Course r p :=
    fun h => course_of_plays hv ho hstart (fun x y hact => (henv x y hact).1) h.plays
  induction h with
  | start => exact ⟨unopened_of_launched hready hunrepeated hl, admitted_of_launched hv hl⟩
  | move before own step ih =>
    have hc := course before
    have htyping := typing_of_chronicle hlaid hv ho hready.typed hstart (before.mono hguarded)
    exact ⟨ih.1.step hunrepeated hc own step,
      ih.2.step hlaid hsnug hc htyping ih.1 own step⟩
  | @await _ _ x before ih =>
    obtain ⟨hworkers, -, hstarted, -⟩ := await_others x r
    exact ⟨ih.1.same (fun b => (onward_await x r).runs_none) fun _ _ _ => by rw [hstarted],
      ih.2.same fun _ _ => by rw [hworkers]⟩
  | others before act ih =>
    obtain ⟨hout, hunmoved⟩ := henv _ _ act
    exact ⟨ih.1.same (fun b hb hnone => (hout.runs b hb) ▸ hnone) fun path q hq =>
        (hunmoved q.id (Pipeline.id_mem_identities hq)).2,
      ih.2.same hout.workers⟩

end World

end Dataflow
