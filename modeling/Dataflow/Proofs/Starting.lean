import Dataflow.Proofs.Ledger
import Mathlib.Logic.Relation

/-!
Starting a run step by step, with others at work in between. A call looks at the mark whether the
pipeline has been started, validates its seeds, looks for a runtime, and sets the mark if nobody
has set it meanwhile. Only then does it send its seeds, one by one, and make its workers.

A call that was to be refused has changed nothing, and whoever has set the mark does not fail any
more, since its seeds were validated before. So of several calls at most one succeeds, and it is
the only one that sends anything (`start_atomic`).
-/

namespace Dataflow

/-- A call that is to start a run at `address`. -/
structure Call where
  address : Address
  seeds : Payload
  token : Token
  runtime : Bool

/-- How far a call has come, and what it does next. -/
inductive Attempt where
  /-- Looks whether the pipeline has been started. -/
  | looking
  | validating
  /-- Looks for a runtime. -/
  | locating
  /-- Sets the mark, unless it was set meanwhile. -/
  | claiming
  /-- Has set the mark, and sends the seeds that are left. -/
  | seeding (rest : List (String × Value))
  | opening
  /-- Makes the workers that are left, the first of them with number `i`. -/
  | hiring (i : Nat) (rest : List Node)
  | returned (result : Except GraphError Unit)

namespace Attempt

/-- The call has set the mark. -/
def Claimed : Attempt → Prop
  | seeding _ | opening | hiring _ _ | returned (.ok ()) => True
  | _ => False

/-- The seeds of the call were validated, and it was not refused since. -/
def Checked : Attempt → Prop
  | locating | claiming => True
  | a => a.Claimed

/-- The seeds that are still to be sent. -/
def left : Attempt → List (String × Value)
  | seeding rest => rest
  | _ => []

lemma Claimed.checked {a : Attempt} (h : a.Claimed) : a.Checked := by
  cases a <;> first | exact h | exact h.elim

end Attempt

/-- The next step of a call. -/
def Call.step? (call : Call) (p : Pipeline) (w : World) : Attempt → Option (Attempt × World)
  | .looking =>
    some (if w.started p.id then .returned (.error (.alreadyStarted p.name)) else .validating, w)
  | .validating =>
    match w.validate p call.seeds with
    | .error e => some (.returned (.error e), w)
    | .ok () => some (.locating, w)
  | .locating =>
    some (if call.runtime then .claiming else .returned (.error (.noRuntime p.name)), w)
  | .claiming =>
    if w.started p.id then some (.returned (.error (.alreadyStarted p.name)), w)
    else some (.seeding call.seeds.entries, w.markStarted p)
  | .seeding [] => some (.opening, w)
  | .seeding ((name, x) :: rest) =>
    match p.channel? name with
    | none => some (.seeding rest, w)
    | some c =>
      match w.send c x with
      | .error e => some (.returned (.error (.channel e)), w)
      | .ok w' => some (.seeding rest, w'.say (.initialValueSeeded p.name name))
  | .opening =>
    let w := w.say (.pipelineStarted p.name p.nodes.length p.channels.length)
    some (.hiring 0 p.nodes, w.setRun call.address ⟨p, call.token, [], .idle⟩)
  | .hiring _ [] => some (.returned (.ok ()), w)
  | .hiring i (n :: rest) =>
    some (.hiring (i + 1) rest,
      w.spawn (i :: call.address) n call.token p.options.receiveTimeout)
  | .returned _ => none

/-- What a call sends with its next step. -/
def Attempt.sent? (p : Pipeline) (w : World) : Attempt → Option (String × Value)
  | seeding ((name, x) :: _) => (p.channel? name).bind fun c =>
      match w.send c x with
      | .ok _ => some (c.name, x)
      | .error _ => none
  | _ => none

/-- The call goes on with nobody in between. -/
def Call.Goes (call : Call) (p : Pipeline) (s t : Attempt × World) : Prop :=
  call.step? p s.2 s.1 = some t

/-- One step of a call, with what it found, what it left and what it sent. -/
structure Act (ι : Type) where
  caller : ι
  before : World
  after : World
  sent : Option (String × Value)

/-- The seed that was sent, and who sent it. -/
def Act.seed? {ι : Type} (act : Act ι) : Option (ι × String × Value) :=
  act.sent.map fun e => (act.caller, e)

/-- Several calls are to start the pipeline. Their steps come in any order, and in between others
act as `env` allows. -/
inductive Rush {ι : Type} [DecidableEq ι] (p : Pipeline) (calls : ι → Call)
    (env : World → World → Prop) (w : World) :
    List (Act ι) → World → (ι → Attempt) → Prop where
  | start : Rush p calls env w [] w fun _ => .looking
  | step {acts : List (Act ι)} {v u : World} {now : ι → Attempt} {a : Attempt} (i : ι)
      (before : Rush p calls env w acts v now) (step : (calls i).step? p v (now i) = some (a, u)) :
      Rush p calls env w (acts ++ [⟨i, v, u, (now i).sent? p v⟩]) u (update now i a)
  | others {acts : List (Act ι)} {v u : World} {now : ι → Attempt}
      (before : Rush p calls env w acts v now) (act : env v u) : Rush p calls env w acts u now

/-- Each of these entries is for a channel of the pipeline that accepts it. -/
def Pipeline.Admits (p : Pipeline) (entries : List (String × Value)) : Prop :=
  ∀ e ∈ entries, ∃ c, p.channel? e.1 = some c ∧ c.type.accepts e.2 = true

variable {w w' v u : World} {p : Pipeline} {call : Call} {a b : Attempt}
  {entries : List (String × Value)}

lemma World.validate_iff {seeds : Payload} : w.validate p seeds = .ok () ↔
    p.Admits seeds.entries ∧
      (p.options.validateInputs = true → p.checkSatisfiable w.queued seeds.keys = .ok ()) := by
  rw [validate_eq_ok, checkSeeds_eq_ok]
  rfl

lemma World.send_of_accepts {c : Channel} {x : Value} (h : c.type.accepts x = true) :
    w.send c x = .ok (w.setConduit c ((w.conduit c).send x)) := by
  simp [send, Channel.check_eq_ok_iff.2 h, bind, Except.bind, pure, Except.pure]

/-! ### One call by itself -/

namespace Call

open Relation

/-- Seeds that were checked are all sent. -/
lemma goes_seeding (h : p.Admits entries) (hseed : w.seed p entries = .ok w') :
    ReflTransGen (call.Goes p) (.seeding entries, w) (.opening, w') := by
  induction entries generalizing w with
  | nil => exact .single (by rw [← Except.ok.inj hseed]; rfl)
  | cons e rest ih =>
    obtain ⟨name, x⟩ := e
    obtain ⟨⟨c, hc, hx⟩, hrest⟩ := List.forall_mem_cons.1 h
    simp only [World.seed, hc, World.send_of_accepts hx] at hseed
    refine .head ?_ (ih hrest hseed)
    simp only [Goes, step?, hc, World.send_of_accepts hx]

lemma goes_hiring (w : World) (i : Nat) (nodes : List Node) :
    ReflTransGen (call.Goes p) (.hiring i nodes, w) (.returned (.ok ()),
      w.spawnAll call.address call.token p.options.receiveTimeout i nodes) := by
  induction nodes generalizing w i with
  | nil => exact .single rfl
  | cons n rest ih => exact .head rfl (ih _ _)

/-- Where a start leads, with what it returns. -/
def outcome (call : Call) (p : Pipeline) (w : World) : Attempt × World :=
  match w.start call.address p call.seeds call.token call.runtime with
  | .ok w' => (.returned (.ok ()), w')
  | .error e => (.returned (.error e), w)

/-- **With nobody in between, the steps of a call are a start.** If it is refused, then each of
them has left the world as it was. -/
theorem goes_outcome (call : Call) (p : Pipeline) (w : World) :
    ReflTransGen (call.Goes p) (.looking, w) (call.outcome p w) := by
  unfold outcome World.start
  cases hnew : w.started p.id with
  | true => exact .single (by simp [Goes, step?, hnew])
  | false =>
    have looked : call.Goes p (.looking, w) (.validating, w) := by simp [Goes, step?, hnew]
    cases hvalid : w.validate p call.seeds with
    | error e => exact .tail (.single looked) (by simp [Goes, step?, hvalid, bind, Except.bind])
    | ok _ =>
      have checked : call.Goes p (.validating, w) (.locating, w) := by simp [Goes, step?, hvalid]
      refine .head looked (.head checked ?_)
      cases hr : call.runtime with
      | false =>
        exact .single (by
          simp [Goes, step?, hr, bind, Except.bind, throw, throwThe, MonadExceptOf.throw])
      | true =>
        obtain ⟨x, hseed, -⟩ :=
          World.seed_of_checkSeeds (World.validate_eq_ok.1 hvalid).1 (w.markStarted p)
        have found : call.Goes p (.locating, w) (.claiming, w) := by simp [Goes, step?, hr]
        have marked : call.Goes p (.claiming, w)
            (.seeding call.seeds.entries, w.markStarted p) := by
          simp [Goes, step?, hnew]
        refine .head found (.head marked ?_)
        simp only [hseed, bind, Except.bind, pure, Except.pure, Bool.not_true, Bool.false_eq_true,
          if_false]
        exact (goes_seeding (World.validate_iff.1 hvalid).1 hseed).trans
          (.head rfl (goes_hiring _ _ _))

end Call

/-! ### Payloads with the same entries -/

lemma Payload.get?_of_perm {seeds seeds' : Payload} (h : seeds'.entries.Perm seeds.entries)
    (x : String) : seeds'.get? x = seeds.get? x := by
  have hperm := (h.filter fun e => e.1 = x).map Prod.snd
  rw [seeds.values_eq, seeds'.values_eq] at hperm
  cases hs : seeds.get? x <;> cases hs' : seeds'.get? x <;> simp_all

namespace Pipeline

lemma Sound.sow_seeds (hs : p.Sound) {c : Channel} (hc : c ∈ p.channels) (seeds : Payload)
    (f : Nat → Conduit Address) :
    p.sow seeds.entries f c.id = (seeds.get? c.name).elim (f c.id) (f c.id).send := by
  rw [hs.sow_eq hc, seeds.values_eq]
  cases seeds.get? c.name <;> rfl

/-- The order of the seeds is of no account for what becomes of the conduits. -/
lemma Sound.sow_of_perm (hs : p.Sound) {seeds seeds' : Payload}
    (h : seeds'.entries.Perm seeds.entries) (f : Nat → Conduit Address) :
    p.sow seeds'.entries f = p.sow seeds.entries f := by
  funext x
  by_cases hx : ∃ c ∈ p.channels, c.id = x
  · obtain ⟨c, hc, rfl⟩ := hx
    rw [hs.sow_seeds hc, hs.sow_seeds hc, Payload.get?_of_perm h]
  · have hx : ∀ c ∈ p.channels, c.id ≠ x := fun c hc heq => hx ⟨c, hc, heq⟩
    rw [sow_of_forall_ne hx, sow_of_forall_ne hx]

/-- The analysis asks only whether a name is seeded. -/
lemma checkSatisfiable_congr {queued : Channel → Nat} {seeded seeded' : List String}
    (h : ∀ x, x ∈ seeded' ↔ x ∈ seeded) :
    p.checkSatisfiable queued seeded' = p.checkSatisfiable queued seeded := by
  have hcounts : p.counts queued seeded' = p.counts queued seeded := by
    simp only [counts, h]
  rw [checkSatisfiable, checkSatisfiable, starved?, starved?, hcounts]

end Pipeline

namespace World

variable {r : Address} {seeds seeds' : Payload} {token : Token} {runtime : Bool} {c : Channel}

/-! ### What a start does -/

lemma start_isOk : (w.start r p seeds token runtime).isOk = true ↔ w.started p.id = false ∧
    p.Admits seeds.entries ∧
    (p.options.validateInputs = true → p.checkSatisfiable w.queued seeds.keys = .ok ()) ∧
    runtime = true := by
  rw [← and_assoc (a := p.Admits _), ← validate_iff]
  constructor
  · intro h
    cases hs : w.start r p seeds token runtime with
    | error e =>
      rw [hs] at h
      cases h
    | ok w' =>
      obtain ⟨hnew, hvalid, -⟩ := start_eq_ok hs
      refine ⟨hnew, hvalid, ?_⟩
      cases runtime with
      | true => rfl
      | false =>
        simp [start, hnew, hvalid, bind, Except.bind, throw, throwThe, MonadExceptOf.throw] at hs
  · rintro ⟨hnew, hvalid, rfl⟩
    obtain ⟨w', hs⟩ := exists_start r token hnew hvalid
    rw [hs]
    rfl

/-- What a start has done: the mark is set, each seed has come to the end of its channel, and one
worker for each node is to take its first step. Nothing else has changed. -/
structure Begun (w w' : World) (p : Pipeline) (call : Call) : Prop where
  marked : w'.started = update w.started p.id true
  seeded : ∀ c ∈ p.channels,
    w'.conduit c = (call.seeds.get? c.name).elim (w.conduit c) (w.conduit c).send
  untouched : ∀ x, (∀ c ∈ p.channels, c.id ≠ x) → w'.conduits x = w.conduits x
  hired : ∀ i n, p.nodes[i]? = some n →
    w'.workers (i :: call.address) = some (.new n call.token p.options.receiveTimeout)
  others : ∀ a, (∀ i n, p.nodes[i]? = some n → a ≠ i :: call.address) →
    w'.workers a = w.workers a

lemma begun_of_start (hs : p.Sound)
    (h : w.start call.address p call.seeds call.token call.runtime = .ok w') :
    w.Begun w' p call := by
  obtain ⟨-, -, hl⟩ := start_eq_ok h
  refine ⟨hl.started, fun c hc => ?_, fun x hx => ?_, fun i n hn => ?_, fun a ha => ?_⟩
  · rw [conduit, hl.conduits, hs.sow_seeds hc]
    rfl
  · rw [hl.conduits, Pipeline.sow_of_forall_ne hx]
  · rw [hl.workers, staff_cons_same, hn]
    rfl
  · rw [hl.workers]
    by_cases hi : ∃ i, a = i :: call.address
    · obtain ⟨i, rfl⟩ := hi
      cases hn : p.nodes[i]? with
      | none =>
        rw [staff_cons_same, hn]
        rfl
      | some n => exact absurd rfl (ha i n hn)
    · exact staff_of_tail_ne fun i heq => hi ⟨i, heq⟩

/-- **The order of the seeds is of no account**, neither for whether a start succeeds nor for what
it leaves. -/
theorem start_of_perm (hs : p.Sound) (hseeds : seeds'.entries.Perm seeds.entries) :
    (w.start r p seeds' token runtime).isOk = (w.start r p seeds token runtime).isOk ∧
      ∀ v u, w.start r p seeds token runtime = .ok v → w.start r p seeds' token runtime = .ok u →
        u.conduits = v.conduits ∧ u.workers = v.workers ∧ u.runs = v.runs ∧
          u.started = v.started := by
  refine ⟨?_, fun v u hv hu => ?_⟩
  · have hkeys : ∀ x, x ∈ seeds'.keys ↔ x ∈ seeds.keys := fun x => (hseeds.map Prod.fst).mem_iff
    rw [Bool.eq_iff_iff, start_isOk, start_isOk, Pipeline.checkSatisfiable_congr hkeys]
    exact and_congr_right fun _ => and_congr_left fun _ =>
      forall_congr' fun _ => imp_congr_left hseeds.mem_iff
  · obtain ⟨-, -, hl⟩ := start_eq_ok hv
    obtain ⟨-, -, hl'⟩ := start_eq_ok hu
    exact ⟨by rw [hl.conduits, hl'.conduits, hs.sow_of_perm hseeds],
      by rw [hl.workers, hl'.workers], by rw [hl.runs, hl'.runs], by rw [hl.started, hl'.started]⟩

end World

/-! ### What one step of a call does -/

/-- The step of a call from `a` to `b`, which leads from `v` to `u`. -/
inductive Call.Went (call : Call) (p : Pipeline) (v u : World) (a b : Attempt) : Prop where
  | refrained (before : ¬ a.Claimed) (after : ¬ b.Claimed) (same : u = v)
      (unsent : a.sent? p v = none) (checked : b.Checked → p.Admits call.seeds.entries)
  | claimed (stage : a = .claiming) (unmarked : v.started p.id = false)
      (next : b = .seeding call.seeds.entries) (marked : u = v.markStarted p)
  | sent {c : Channel} {x : Value} {rest : List (String × Value)}
      (stage : a = .seeding ((c.name, x) :: rest)) (next : b = .seeding rest)
      (channel : c ∈ p.channels) (sent : a.sent? p v = some (c.name, x))
      (started : u.started = v.started)
      (conduits : u.conduits = update v.conduits c.id ((v.conduit c).send x))
  | went (before : a.Claimed) (after : b.Claimed) (left : b.left = a.left)
      (unsent : a.sent? p v = none) (started : u.started = v.started)
      (conduits : u.conduits = v.conduits)

/-- Whoever has had its seeds validated is refused only before it sets the mark. -/
lemma Call.went_of_step (hchecked : a.Checked → p.Admits call.seeds.entries)
    (hleft : a.left ⊆ call.seeds.entries) (h : call.step? p v a = some (b, u)) :
    call.Went p v u a b := by
  cases a with
  | looking =>
    simp only [step?, Option.some.injEq, Prod.mk.injEq] at h
    obtain ⟨rfl, rfl⟩ := h
    split <;> exact .refrained id id rfl rfl (by simp [Attempt.Checked, Attempt.Claimed])
  | validating =>
    cases hv : v.validate p call.seeds with
    | error e =>
      simp only [step?, hv, Option.some.injEq, Prod.mk.injEq] at h
      obtain ⟨rfl, rfl⟩ := h
      exact .refrained id id rfl rfl (by simp [Attempt.Checked, Attempt.Claimed])
    | ok _ =>
      simp only [step?, hv, Option.some.injEq, Prod.mk.injEq] at h
      obtain ⟨rfl, rfl⟩ := h
      exact .refrained id id rfl rfl fun _ => (World.validate_iff.1 hv).1
  | locating =>
    simp only [step?, Option.some.injEq, Prod.mk.injEq] at h
    obtain ⟨rfl, rfl⟩ := h
    split <;> exact .refrained id id rfl rfl fun _ => hchecked trivial
  | claiming =>
    cases hs : v.started p.id with
    | true =>
      simp only [step?, hs, if_true, Option.some.injEq, Prod.mk.injEq] at h
      obtain ⟨rfl, rfl⟩ := h
      exact .refrained id id rfl rfl fun _ => hchecked trivial
    | false =>
      simp only [step?, hs, Bool.false_eq_true, if_false, Option.some.injEq, Prod.mk.injEq] at h
      obtain ⟨rfl, rfl⟩ := h
      exact .claimed rfl hs rfl rfl
  | seeding rest =>
    cases rest with
    | nil =>
      simp only [step?, Option.some.injEq, Prod.mk.injEq] at h
      obtain ⟨rfl, rfl⟩ := h
      exact .went trivial trivial rfl rfl rfl rfl
    | cons e rest =>
      obtain ⟨name, x⟩ := e
      obtain ⟨c, hc, hx⟩ := hchecked trivial _ (hleft List.mem_cons_self)
      obtain ⟨hmem, rfl⟩ := Pipeline.mem_of_channel? hc
      simp only [step?, hc, World.send_of_accepts hx, Option.some.injEq, Prod.mk.injEq] at h
      obtain ⟨rfl, rfl⟩ := h
      refine .sent rfl rfl hmem ?_ rfl rfl
      simp [Attempt.sent?, hc, World.send_of_accepts hx]
  | opening =>
    simp only [step?, Option.some.injEq, Prod.mk.injEq] at h
    obtain ⟨rfl, rfl⟩ := h
    exact .went trivial trivial rfl rfl rfl rfl
  | hiring i nodes =>
    cases nodes with
    | nil =>
      simp only [step?, Option.some.injEq, Prod.mk.injEq] at h
      obtain ⟨rfl, rfl⟩ := h
      exact .went trivial trivial rfl rfl rfl rfl
    | cons n rest =>
      simp only [step?, Option.some.injEq, Prod.mk.injEq] at h
      obtain ⟨rfl, rfl⟩ := h
      exact .went trivial trivial rfl rfl rfl rfl
  | returned result => cases h

/-- Only a call that has returned has no next step. -/
lemma Call.step?_eq_none (h : call.step? p v a = none) : ∃ result, a = .returned result := by
  cases a with
  | returned result => exact ⟨result, rfl⟩
  | validating => cases hv : v.validate p call.seeds <;> simp [step?, hv] at h
  | claiming => cases hs : v.started p.id <;> simp [step?, hs] at h
  | seeding rest =>
    rcases rest with _ | ⟨⟨name, x⟩, rest⟩
    · cases h
    · cases hc : p.channel? name with
      | none => simp [step?, hc] at h
      | some c => cases hx : v.send c x <;> simp [step?, hc, hx] at h
  | hiring i nodes => cases nodes <;> cases h
  | _ => cases h

/-! ### Several calls -/

section

variable {ι : Type} {calls : ι → Call} {env : World → World → Prop} {acts : List (Act ι)}
  {now now' : ι → Attempt} {i : ι} {sent : Option (String × Value)}

/-- What holds while several calls are under way. Whoever has set the mark is the only one, and
has sent what is no longer left of its seeds; nobody else has changed anything. -/
structure Contest (p : Pipeline) (calls : ι → Call) (w : World) (acts : List (Act ι)) (v : World)
    (now : ι → Attempt) : Prop where
  admitted : ∀ i, (now i).Checked → p.Admits (calls i).seeds.entries
  marked : v.started p.id = true ↔ w.started p.id = true ∨ ∃ i, (now i).Claimed
  barred : w.started p.id = true → ∀ i, ¬ (now i).Claimed
  single : ∀ i j, (now i).Claimed → (now j).Claimed → i = j
  seeds : ∀ i, (now i).Claimed → ∃ sent, acts.filterMap Act.seed? = sent.map (Prod.mk i) ∧
    sent ++ (now i).left = (calls i).seeds.entries
  idle : ∀ act ∈ acts, ¬ (now act.caller).Claimed → act.after = act.before ∧ act.sent = none

lemma contest_start (p : Pipeline) (calls : ι → Call) (w : World) :
    Contest p calls w [] w fun _ => .looking where
  admitted _ h := h.elim
  marked := ⟨.inl, fun h => h.elim id fun ⟨_, h⟩ => h.elim⟩
  barred _ _ := id
  single _ _ h := h.elim
  seeds _ h := h.elim
  idle _ h := by cases h

/-- What a call has still to send is part of its seeds. -/
lemma Contest.left_subset (h : Contest p calls w acts v now) (i : ι) :
    (now i).left ⊆ (calls i).seeds.entries := by
  by_cases hi : (now i).Claimed
  · obtain ⟨done, -, hrest⟩ := h.seeds i hi
    exact hrest ▸ List.subset_append_right _ _
  · cases hn : now i with
    | seeding rest => exact absurd (hn ▸ trivial : (now i).Claimed) hi
    | _ => exact List.nil_subset _

lemma Contest.went (h : Contest p calls w acts v now)
    (step : (calls i).step? p v (now i) = some (a, u)) : (calls i).Went p v u (now i) a :=
  Call.went_of_step (h.admitted i) (h.left_subset i) step

/-- Whoever has set the mark goes on to succeed. -/
lemma Contest.sure (h : Contest p calls w acts v now) (hi : (now i).Claimed) :
    now i = .returned (.ok ()) ∨ ∃ a u, (calls i).step? p v (now i) = some (a, u) ∧ a.Claimed := by
  cases hstep : (calls i).step? p v (now i) with
  | none =>
    obtain ⟨result, hresult⟩ := Call.step?_eq_none hstep
    rw [hresult] at hi
    cases result with
    | error e => exact hi.elim
    | ok _ => exact .inl hresult
  | some s =>
    refine .inr ⟨s.1, s.2, rfl, ?_⟩
    cases h.went hstep with
    | refrained before => exact absurd hi before
    | claimed stage => exact absurd hi (stage ▸ id)
    | sent stage next => exact next ▸ trivial
    | went _ after => exact after

/-- Everything that was sent, if there is nothing left to send. -/
lemma Contest.sent_eq (h : Contest p calls w acts v now) (hi : (now i).Claimed)
    (hleft : (now i).left = []) : acts.filterMap Act.sent = (calls i).seeds.entries := by
  obtain ⟨sent, hacts, hrest⟩ := h.seeds i hi
  rw [hleft, List.append_nil] at hrest
  have hmap := congrArg (List.map Prod.snd) hacts
  rw [List.map_filterMap, List.map_map] at hmap
  rw [← hrest]
  refine Eq.trans (List.filterMap_congr fun act _ => ?_) (hmap.trans (List.map_id sent))
  cases hsent : act.sent <;> simp [Act.seed?, hsent]

variable [DecidableEq ι]

lemma claimed_update (hclaim : b.Claimed ↔ (now i).Claimed) (j : ι) :
    (update now i b j).Claimed ↔ (now j).Claimed := by
  by_cases hj : j = i
  · rw [hj, update_same, hclaim]
  · rw [update_of_ne hj]

/-- A step that sets no mark. -/
lemma Contest.keep (h : Contest p calls w acts v now) (hclaim : b.Claimed ↔ (now i).Claimed)
    (hstarted : u.started p.id = v.started p.id)
    (hadmits : b.Checked → p.Admits (calls i).seeds.entries)
    (hleft : b.Claimed → sent.toList ++ b.left = (now i).left)
    (hidle : ¬ b.Claimed → u = v ∧ sent = none) :
    Contest p calls w (acts ++ [⟨i, v, u, sent⟩]) u (update now i b) where
  admitted j hj := by
    by_cases hji : j = i
    · rw [hji, update_same] at hj
      exact hji ▸ hadmits hj
    · rw [update_of_ne hji] at hj
      exact h.admitted j hj
  marked := by
    rw [hstarted, h.marked]
    exact or_congr_right (exists_congr fun j => (claimed_update hclaim j).symm)
  barred hw j hj := h.barred hw j ((claimed_update hclaim j).1 hj)
  single j l hj hl := h.single j l ((claimed_update hclaim j).1 hj) ((claimed_update hclaim l).1 hl)
  seeds j hj := by
    have hold := (claimed_update hclaim j).1 hj
    obtain ⟨done, hacts, hrest⟩ := h.seeds j hold
    by_cases hji : j = i
    · subst hji
      rw [update_same] at hj
      refine ⟨done ++ sent.toList, ?_, ?_⟩
      · cases sent <;> simp [hacts, Act.seed?]
      · rw [update_same, List.append_assoc, hleft hj, hrest]
    · have hnone : sent = none := by
        refine (hidle fun hb => hji ?_).2
        exact h.single j i hold (hclaim.1 hb)
      refine ⟨done, ?_, ?_⟩
      · simp [hacts, Act.seed?, hnone]
      · rw [update_of_ne hji, hrest]
  idle act hact hnot := by
    rw [claimed_update hclaim] at hnot
    rcases List.mem_append.1 hact with hact | hact
    · exact h.idle act hact hnot
    · obtain rfl := List.mem_singleton.1 hact
      exact hidle fun hb => hnot (hclaim.1 hb)

/-- A step that sets the mark is the first to do so. -/
lemma Contest.claim (h : Contest p calls w acts v now) (hstage : now i = .claiming)
    (hunmarked : v.started p.id = false) :
    Contest p calls w (acts ++ [⟨i, v, v.markStarted p, none⟩]) (v.markStarted p)
      (update now i (.seeding (calls i).seeds.entries)) := by
  have hnobody : ∀ j, ¬ (now j).Claimed := fun j hj => by
    rw [h.marked.2 (.inr ⟨j, hj⟩)] at hunmarked
    cases hunmarked
  have honly : ∀ {j}, (update now i (.seeding (calls i).seeds.entries) j).Claimed → j = i := by
    intro j hj
    by_contra hji
    rw [update_of_ne hji] at hj
    exact hnobody j hj
  have hself : (update now i (.seeding (calls i).seeds.entries) i).Claimed := by
    rw [update_same]
    trivial
  refine ⟨fun j hj => ?_, ?_, fun hw => ?_, fun j l hj hl => (honly hj).trans (honly hl).symm,
    fun j hj => ?_, fun act hact hnot => ?_⟩
  · by_cases hji : j = i
    · subst hji
      exact h.admitted j (hstage ▸ trivial)
    · rw [update_of_ne hji] at hj
      exact h.admitted j hj
  · exact ⟨fun _ => .inr ⟨i, hself⟩, fun _ => update_same _ _ _⟩
  · rw [h.marked.2 (.inl hw)] at hunmarked
    cases hunmarked
  · obtain rfl := honly hj
    have hnone : acts.filterMap Act.seed? = [] := List.filterMap_eq_nil_iff.2 fun act hact => by
      rw [Act.seed?, (h.idle act hact (hnobody _)).2]
      rfl
    refine ⟨[], ?_, ?_⟩
    · simp [hnone, Act.seed?]
    · rw [update_same]
      rfl
  · rcases List.mem_append.1 hact with hact | hact
    · exact h.idle act hact (hnobody _)
    · obtain rfl := List.mem_singleton.1 hact
      exact absurd hself hnot

lemma Contest.step (h : Contest p calls w acts v now)
    (step : (calls i).step? p v (now i) = some (a, u)) :
    Contest p calls w (acts ++ [⟨i, v, u, (now i).sent? p v⟩]) u (update now i a) := by
  cases h.went step with
  | refrained before after same unsent checked =>
    exact h.keep (iff_of_false after before) (by rw [same]) checked (fun hb => absurd hb after)
      fun _ => ⟨same, unsent⟩
  | claimed stage unmarked next marked =>
    rw [next, marked, stage]
    exact h.claim stage unmarked
  | @sent c x rest stage next channel sent started conduits =>
    have hclaimed : (now i).Claimed := stage ▸ trivial
    have hnext : a.Claimed := next ▸ trivial
    refine h.keep (iff_of_true hnext hclaimed) (by rw [started])
      (fun _ => h.admitted i hclaimed.checked) (fun _ => ?_) fun hb => absurd hnext hb
    rw [sent, next, stage]
    rfl
  | went before after left unsent started conduits =>
    exact h.keep (iff_of_true after before) (by rw [started])
      (fun _ => h.admitted i before.checked) (fun _ => by rw [unsent, left]; rfl)
      fun hb => absurd after hb

theorem contest_of_rush (henv : ∀ x y, env x y → y.started p.id = x.started p.id)
    (h : Rush p calls env w acts v now) : Contest p calls w acts v now := by
  induction h with
  | start => exact contest_start p calls w
  | step i before step ih => exact ih.step step
  | others before act ih => exact { ih with marked := by rw [henv _ _ act, ih.marked] }

/-- The seeds of a channel, in the order in which they were sent, are what has come to it. -/
lemma conduit_of_rush (hs : p.Sound) (henv : ∀ x y, env x y → y.started p.id = x.started p.id)
    (hquiet : ∀ x y, env x y → ∀ c ∈ p.channels, y.conduit c = x.conduit c)
    (h : Rush p calls env w acts v now) {c : Channel} (hc : c ∈ p.channels) :
    v.conduit c = (((acts.filterMap Act.sent).filter fun e => e.1 = c.name).map Prod.snd).foldl
      Conduit.send (w.conduit c) := by
  induction h with
  | start => rfl
  | @step acts v u now a i before step ih =>
    cases (contest_of_rush henv before).went step with
    | refrained _ _ same unsent _ => simpa [unsent, same] using ih
    | claimed stage _ _ marked =>
      have hsame : u.conduit c = v.conduit c := by
        rw [marked]
        rfl
      simpa [hsame, stage, Attempt.sent?] using ih
    | @sent d x rest stage next channel sent started conduits =>
      by_cases hdc : d = c
      · subst hdc
        have hself : u.conduit d = (v.conduit d).send x := by
          rw [World.conduit, conduits, update_same]
        simp [hself, sent, ih]
      · have hid : c.id ≠ d.id := fun heq => hdc (hs.eq_of_id hc channel heq).symm
        have hname : d.name ≠ c.name := fun heq => hdc (hs.eq_of_name channel hc heq)
        have hother : u.conduit c = v.conduit c := by
          rw [World.conduit, conduits, update_of_ne hid, World.conduit]
        simpa [hother, sent, hname] using ih
    | went _ _ _ unsent _ conduits =>
      have hsame : u.conduit c = v.conduit c := by rw [World.conduit, conduits, World.conduit]
      simpa [hsame, unsent] using ih
  | others before act ih => rw [hquiet _ _ act c hc, ih]

/-- How starts of a pipeline fare that nobody interferes with. -/
structure Pipeline.Startable (p : Pipeline) : Prop where
  /-- Such a start is the steps of its call in a row; if it is refused, then they have left the
  world as it was. -/
  stepwise : ∀ (w : World) (call : Call),
    Relation.ReflTransGen (call.Goes p) (.looking, w) (call.outcome p w)
  accepted : ∀ (w : World) r seeds token runtime, (w.start r p seeds token runtime).isOk = true ↔
    w.started p.id = false ∧ p.Admits seeds.entries ∧
    (p.options.validateInputs = true → p.checkSatisfiable w.queued seeds.keys = .ok ()) ∧
    runtime = true
  begun : ∀ (w w' : World) (call : Call),
    w.start call.address p call.seeds call.token call.runtime = .ok w' → w.Begun w' p call
  unordered : ∀ (w : World) r (seeds seeds' : Payload) token runtime,
    seeds'.entries.Perm seeds.entries →
    (w.start r p seeds' token runtime).isOk = (w.start r p seeds token runtime).isOk ∧
    ∀ v u, w.start r p seeds token runtime = .ok v → w.start r p seeds' token runtime = .ok u →
      u.conduits = v.conduits ∧ u.workers = v.workers ∧ u.runs = v.runs ∧ u.started = v.started

/-- **Starting is atomic and happens at most once.** A start that nobody interferes with succeeds
exactly if everything is in order, and otherwise changes nothing; the order of its seeds is of no
account. Of several calls whose steps come in any order at most one sets the mark, and it goes on
to succeed; its seeds are sent once, and nobody else has changed anything. -/
theorem start_atomic (hs : p.Sound) (henv : ∀ x y, env x y → y.started p.id = x.started p.id)
    (h : Rush p calls env w acts v now) :
    p.Startable ∧ Contest p calls w acts v now ∧
      (∀ i, (now i).Claimed → now i = .returned (.ok ()) ∨
        ∃ a u, (calls i).step? p v (now i) = some (a, u) ∧ a.Claimed) ∧
      ((∀ x y, env x y → ∀ c ∈ p.channels, y.conduit c = x.conduit c) → ∀ c ∈ p.channels,
        (∀ i, now i = .returned (.ok ()) →
          v.conduit c = ((calls i).seeds.get? c.name).elim (w.conduit c) (w.conduit c).send) ∧
        ((∀ i, ¬ (now i).Claimed) → v.conduit c = w.conduit c)) := by
  have hcontest := contest_of_rush henv h
  refine ⟨⟨fun w call => call.goes_outcome p w, fun _ _ _ _ _ => World.start_isOk,
    fun _ _ _ hstart => World.begun_of_start hs hstart,
    fun _ _ _ _ _ _ hperm => World.start_of_perm hs hperm⟩, hcontest, fun _ => hcontest.sure,
    fun hquiet c hc => ⟨fun i hi => ?_, fun hnobody => ?_⟩⟩
  · have hsent := hcontest.sent_eq (hi ▸ trivial : (now i).Claimed) (by rw [hi]; rfl)
    rw [conduit_of_rush hs henv hquiet h hc, hsent, Payload.values_eq]
    cases (calls i).seeds.get? c.name <;> rfl
  · have hnone : acts.filterMap Act.sent = [] := List.filterMap_eq_nil_iff.2 fun act hact =>
      (hcontest.idle act hact (hnobody _)).2
    rw [conduit_of_rush hs henv hquiet h hc, hnone]
    rfl

/-- The next steps of these calls, in this order. -/
def turns? (p : Pipeline) (calls : ι → Call) :
    World × (ι → Attempt) → List ι → Option (World × (ι → Attempt))
  | s, [] => some s
  | s, i :: rest => ((calls i).step? p s.1 (s.2 i)).bind fun t =>
      turns? p calls (t.2, update s.2 i t.1) rest

lemma Rush.turns {order : List ι} (h : Rush p calls env w acts v now)
    (hturns : turns? p calls (v, now) order = some (u, now')) :
    ∃ acts', Rush p calls env w acts' u now' := by
  induction order generalizing acts v now with
  | nil =>
    obtain ⟨rfl, rfl⟩ : v = u ∧ now = now' := by simpa [turns?] using hturns
    exact ⟨acts, h⟩
  | cons i rest ih =>
    obtain ⟨t, hstep, hrest⟩ := Option.bind_eq_some_iff.1 hturns
    exact ih (h.step i hstep) hrest

end

/-- One sink that waits for a value. -/
def World.lonely : Pipeline where
  id := 0
  name := "lonely"
  options := { validateInputs := false }
  channels := [⟨1, "c", .text⟩]
  nodes := [⟨"sink", [⟨1, "c", .text⟩], [], .sink (.pure .function fun _ => .returned .empty)⟩]

/-- Two calls with one seed each. -/
def rivals (first : Bool) : Call where
  address := if first then [0] else [1]
  seeds := .singleton "c" (.text (if first then "x" else "y"))
  token := []
  runtime := true

/-- Both calls find that the pipeline was not started and have their seeds validated. The first to
set the mark succeeds, and only its seed is sent. -/
theorem rivals_atomic : ∃ acts v now,
    Rush World.lonely rivals (fun _ _ => False) .initial acts v now ∧
      now true = .returned (.ok ()) ∧
      now false = .returned (.error (.alreadyStarted "lonely")) ∧
      (v.conduit ⟨1, "c", .text⟩).queue = [.text "x"] ∧
      World.lonely.Startable ∧ Contest World.lonely rivals .initial acts v now ∧
      (∀ i, (now i).Claimed → now i = .returned (.ok ()) ∨
        ∃ a u, (rivals i).step? World.lonely v (now i) = some (a, u) ∧ a.Claimed) ∧
      ((∀ x y : World, False → ∀ c ∈ World.lonely.channels, y.conduit c = x.conduit c) →
        ∀ c ∈ World.lonely.channels, (∀ i, now i = .returned (.ok ()) → v.conduit c =
          ((rivals i).seeds.get? c.name).elim (World.initial.conduit c)
            (World.initial.conduit c).send) ∧
        ((∀ i, ¬ (now i).Claimed) → v.conduit c = World.initial.conduit c)) := by
  obtain ⟨v, now, hturns, hfirst, hsecond, hqueue⟩ : ∃ v now,
      turns? World.lonely rivals (.initial, fun _ => .looking) [true, false, false, true, true,
        false, true, false, true, true, true, true, true] = some (v, now) ∧
      now true = .returned (.ok ()) ∧
      now false = .returned (.error (.alreadyStarted "lonely")) ∧
      (v.conduit ⟨1, "c", .text⟩).queue = [.text "x"] := ⟨_, _, rfl, rfl, rfl, rfl⟩
  obtain ⟨acts, hrush⟩ := (Rush.start : Rush World.lonely rivals (fun _ _ => False) .initial []
    .initial fun _ => .looking).turns hturns
  have hsound : World.lonely.Sound := ⟨by decide, by decide, by decide, by
    simp only [World.lonely, List.forall_mem_singleton]
    rfl, by
    simp only [World.lonely, List.forall_mem_singleton]
    rfl⟩
  exact ⟨acts, v, now, hrush, hfirst, hsecond, hqueue,
    start_atomic hsound (fun _ _ h => h.elim) hrush⟩

end Dataflow
