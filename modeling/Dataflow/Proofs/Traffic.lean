import Dataflow.Proofs.Permit
import Dataflow.Run.Receive

/-!
A channel with all its users at once. A send puts its value into the queue in one step and adds
the permit in another; a receive uses up its permit in one step and takes its value in another.
Between any two of these steps others may send, receive, try, time out, be cancelled or go away.

Every value is covered by a permit that is free, granted, used up by a receiver that takes its
value next, or still to be added by its sender. From this it follows that values leave in the
order in which they came, and that whoever ends without a value took none.
-/

namespace Dataflow

namespace Conduit

variable {ι : Type}

/-- The conduit without the `n` values at its front. -/
def ahead (n : Nat) (c : Conduit ι) : Conduit ι := { c with queue := c.queue.drop n }

/-- All is in order, but for `n` values whose permit is used up already or still to come. -/
def Owing (n : Nat) (c : Conduit ι) : Prop := n ≤ c.queue.length ∧ (c.ahead n).Orderly

lemma owing_iff {n : Nat} {c : Conduit ι} :
    c.Owing n ↔ c.free + c.granted.length + n = c.queue.length ∧
      (c.waiting ≠ [] → c.free = 0) ∧ c.line.Nodup := by
  constructor
  · rintro ⟨hn, h⟩
    have htally := h.tally
    simp only [ahead, List.length_drop] at htally
    exact ⟨by omega, h.idle, h.once⟩
  · rintro ⟨htally, hidle, honce⟩
    refine ⟨by omega, ?_, hidle, honce⟩
    simp only [ahead, List.length_drop]
    omega

lemma release_ahead (n : Nat) (c : Conduit ι) : (c.ahead n).release = c.release.ahead n := by
  unfold release ahead
  cases c.waiting <;> rfl

lemma Owing.push {n : Nat} {c : Conduit ι} (h : c.Owing n) (v : Value) :
    (c.push v).Owing (n + 1) := by
  obtain ⟨htally, hidle, honce⟩ := owing_iff.1 h
  refine owing_iff.2 ⟨?_, hidle, by simpa using honce⟩
  simp only [Conduit.push, List.length_append, List.length_singleton]
  omega

lemma Owing.release {n : Nat} {c : Conduit ι} (h : c.Owing (n + 1)) : c.release.Owing n := by
  obtain ⟨htally, hidle, honce⟩ := owing_iff.1 h
  refine ⟨by rw [queue_release]; omega, ?_⟩
  rw [← release_ahead]
  refine orderly_release ?_ hidle honce
  simp only [ahead, List.length_drop]
  omega

lemma Owing.pop {n : Nat} {c c' : Conduit ι} {v : Value} (h : c.Owing (n + 1))
    (hp : c.pop? = some (v, c')) : c'.Owing n := by
  obtain ⟨htally, hidle, honce⟩ := owing_iff.1 h
  obtain ⟨hq, hf, hw, hg⟩ := pop?_eq_some hp
  rw [hq, List.length_cons] at htally
  refine owing_iff.2 ⟨by rw [hf, hg]; omega, by rwa [hw, hf], ?_⟩
  rwa [line, hw, hg]

/-- A used-up permit stands for a value that is still there. -/
lemma Owing.queue_ne_nil {n : Nat} {c : Conduit ι} (h : c.Owing (n + 1)) : c.queue ≠ [] := by
  intro hq
  have hn := h.1
  simp only [hq, List.length_nil] at hn
  omega

lemma takeFree?_eq_some {c c' : Conduit ι} (h : c.takeFree? = some c') :
    0 < c.free ∧ c' = { c with free := c.free - 1 } := by
  unfold takeFree? at h
  split at h
  · next hf => exact ⟨hf, (Option.some.inj h).symm⟩
  · cases h

lemma Owing.takeFree {n : Nat} {c c' : Conduit ι} (h : c.Owing n) (hu : c.takeFree? = some c') :
    c'.Owing (n + 1) := by
  obtain ⟨htally, hidle, honce⟩ := owing_iff.1 h
  obtain ⟨hf, rfl⟩ := takeFree?_eq_some hu
  refine owing_iff.2 ⟨by simp only; omega, fun hw => ?_, honce⟩
  have := hidle hw
  omega

lemma Owing.enqueue {n : Nat} {c : Conduit ι} (h : c.Owing n) {a : ι} (ha : a ∉ c.line)
    (hf : c.free = 0) : (c.enqueue a).Owing n :=
  ⟨h.1, h.2.enqueue (a := a) ha hf⟩

variable [DecidableEq ι]

lemma abandon_ahead (n : Nat) (c : Conduit ι) (a : ι) :
    (c.ahead n).abandon a = (c.abandon a).ahead n := by
  by_cases ha : a ∈ c.granted
  · simp only [Conduit.abandon, ahead, ha, if_true]
    exact release_ahead n { c with granted := c.granted.erase a }
  · simp only [Conduit.abandon, ahead, ha, if_false]

lemma Owing.abandon {n : Nat} {c : Conduit ι} (h : c.Owing n) (a : ι) : (c.abandon a).Owing n :=
  ⟨by simpa using h.1, abandon_ahead n c a ▸ h.2.abandon a⟩

lemma Owing.use {n : Nat} {c c' : Conduit ι} {a : ι} (h : c.Owing n)
    (hu : c.usePermit? a = some c') : c'.Owing (n + 1) := by
  obtain ⟨htally, hidle, honce⟩ := owing_iff.1 h
  rcases usePermit?_eq_some hu with ⟨ha, rfl⟩ | ⟨-, hf, rfl⟩
  · have hlen := List.length_erase_of_mem ha
    have hpos := List.length_pos_of_mem ha
    refine owing_iff.2 ⟨by simp only; omega, hidle, ?_⟩
    exact honce.sublist (List.Sublist.append_left List.erase_sublist _)
  · refine owing_iff.2 ⟨by simp only; omega, fun hw => ?_, honce⟩
    have := hidle hw
    omega

/-- Whoever uses a permit is in line no longer, and everybody else stays. -/
lemma Owing.mem_line_use {n : Nat} {c c' : Conduit ι} {a b : ι} (h : c.Owing n)
    (hu : c.usePermit? a = some c') : b ∈ c'.line ↔ b ∈ c.line ∧ b ≠ a := by
  have honce : c.line.Nodup := h.2.once
  rw [line, List.nodup_append] at honce
  rcases usePermit?_eq_some hu with ⟨ha, rfl⟩ | ⟨ha, -, rfl⟩
  · have hw : a ∉ c.waiting := fun hm => honce.2.2 _ hm _ ha rfl
    simp only [line, List.mem_append, honce.2.1.mem_erase_iff]
    by_cases hb : b = a
    · simp [hb, hw]
    · simp [hb]
  · have hb : b ∈ c.line → b ≠ a := fun hm he => ha (he ▸ hm)
    exact ⟨fun hm => ⟨hm, hb hm⟩, fun hm => hm.1⟩

lemma Owing.mem_line_abandon {n : Nat} {c : Conduit ι} {a b : ι} (h : c.Owing n) :
    b ∈ (c.abandon a).line ↔ b ∈ c.line ∧ b ≠ a := by
  by_cases hb : b = a
  · have hout := h.2.not_mem_line_abandon (a := a)
    rw [abandon_ahead] at hout
    have hout : a ∉ (c.abandon a).line := hout
    simp [hb, hout]
  · simp [Conduit.mem_line_abandon hb, hb]

/-- Nobody waits while a permit is free, and whoever asks for one gets it. -/
lemma Owing.usePermit?_ne_none {n : Nat} {c : Conduit ι} (h : c.Owing n) (hf : 0 < c.free)
    (a : ι) : c.usePermit? a ≠ none := by
  intro hu
  obtain ⟨-, hidle, -⟩ := owing_iff.1 h
  rcases (usePermit?_eq_none hu).2 with hw | hzero
  · have := hidle (List.ne_nil_of_mem hw)
    omega
  · omega

end Conduit

/-- What a receive is told when it begins: a token that stops it, and how long it may wait. -/
structure Terms where
  token : Option Token := none
  limit : Option Duration := none

/-- How a receive ended. -/
inductive Ending where
  | took (v : Value)
  | failed (e : ChannelError)
  /-- It came without waiting, and there was nothing to have. -/
  | nothing
  /-- Whoever called it went away. -/
  | aborted

inductive Phase where
  | away
  | under (terms : Terms)
  /-- Has used up a permit and takes its value next; `quiet` if it came without waiting. -/
  | taking (quiet : Bool)
  | ended (e : Ending)

/-- A channel's conduit, and how far each of its users has come. -/
structure Traffic (ι : Type) where
  conduit : Conduit ι := {}
  /-- Sends whose value is in the queue and whose permit is still to come. -/
  posting : Nat := 0
  phase : ι → Phase := fun _ => .away
  /-- The receivers that have used up a permit and not taken their value yet. -/
  taking : List ι := []
  /-- Who took what, in the order in which the values left the queue. -/
  popped : List (ι × Value) := []
  cancelled : List Token := []

/-- A step of one user of a channel. -/
inductive Dealing (ι : Type) where
  /-- A sender puts its value into the queue, if the channel accepts it. -/
  | push (v : Value)
  /-- A sender adds the permit for its value. -/
  | post
  | call (r : ι) (terms : Terms)
  /-- The receive of `r` is polled; `expired` if its time has passed. -/
  | poll (r : ι) (expired : Bool)
  | pop (r : ι)
  | abort (r : ι)
  /-- `r` comes for a value and does not wait. -/
  | attempt (r : ι)
  | cancel (u : Token)

/-- The value that a step sends. -/
def Dealing.sent? {ι : Type} (c : Channel) : Dealing ι → Option Value
  | .push v => if c.type.accepts v then some v else none
  | _ => none

namespace Traffic

variable {ι : Type}

def isCancelled (t : Traffic ι) (u : Token) : Bool := t.cancelled.any fun x => x.isSuffixOf u

/-- All values that were ever sent: those that were taken, and then those that are queued. -/
def account (t : Traffic ι) : List Value := t.popped.map Prod.snd ++ t.conduit.queue

variable [DecidableEq ι]

/-- The receive of `r` ends without a value. -/
def leave (t : Traffic ι) (r : ι) (e : Ending) : Traffic ι :=
  { t with conduit := t.conduit.abandon r, phase := update t.phase r (.ended e) }

/-- `r` has used up a permit, which leaves the conduit `k`. -/
def hold (t : Traffic ι) (r : ι) (k : Conduit ι) (quiet : Bool) : Traffic ι :=
  { t with conduit := k, phase := update t.phase r (.taking quiet), taking := r :: t.taking }

def poll (t : Traffic ι) (c : Channel) (r : ι) (terms : Terms) (expired : Bool) : Traffic ι :=
  if terms.token.any t.isCancelled then t.leave r (.failed (.cancelled c.name))
  else
    match t.conduit.usePermit? r with
    | some k => t.hold r k false
    | none =>
      match if expired then terms.limit else none with
      | some limit => t.leave r (.failed (.timeout c.name limit))
      | none =>
        if r ∈ t.conduit.waiting then t else { t with conduit := t.conduit.enqueue r }

def pop (t : Traffic ι) (c : Channel) (r : ι) (quiet : Bool) : Traffic ι :=
  match t.conduit.pop? with
  | some (v, k) =>
    { t with
      conduit := k
      phase := update t.phase r (.ended (.took v))
      taking := t.taking.erase r
      popped := t.popped ++ [(r, v)] }
  | none =>
    { t with
      phase := update t.phase r (.ended (if quiet then .nothing else .failed (.closed c.name)))
      taking := t.taking.erase r }

def attempt (t : Traffic ι) (r : ι) : Traffic ι :=
  match t.conduit.takeFree? with
  | some k => t.hold r k true
  | none => { t with phase := update t.phase r (.ended .nothing) }

/-- The traffic after a step, if that user can take it. -/
def step? (c : Channel) (t : Traffic ι) : Dealing ι → Option (Traffic ι)
  | .push v =>
    match c.check v with
    | .ok () => some { t with conduit := t.conduit.push v, posting := t.posting + 1 }
    | .error _ => some t
  | .post =>
    match t.posting with
    | 0 => none
    | n + 1 => some { t with conduit := t.conduit.release, posting := n }
  | .call r terms =>
    match t.phase r with
    | .away => some { t with phase := update t.phase r (.under terms) }
    | _ => none
  | .poll r expired =>
    match t.phase r with
    | .under terms => some (t.poll c r terms expired)
    | _ => none
  | .pop r =>
    match t.phase r with
    | .taking quiet => some (t.pop c r quiet)
    | _ => none
  | .abort r =>
    match t.phase r with
    | .under _ => some (t.leave r .aborted)
    | _ => none
  | .attempt r =>
    match t.phase r with
    | .away => some (t.attempt r)
    | _ => none
  | .cancel u => some { t with cancelled := t.cancelled ++ [u] }

/-- The traffic after some steps, if all of them can be taken in this order. -/
def run? (c : Channel) (t : Traffic ι) : List (Dealing ι) → Option (Traffic ι)
  | [] => some t
  | d :: ds => (t.step? c d).bind fun u => u.run? c ds

/-- The receive of `r` is under way, and there is no permit for it. -/
def Blocked (t : Traffic ι) (r : ι) : Prop :=
  (∃ terms, t.phase r = .under terms) ∧ t.conduit.usePermit? r = none

/-- A receiver in this phase has used up no permit, taken no value and found nothing closed. -/
def Bare : Phase → Prop
  | .away => True
  | .under _ => True
  | .taking _ => False
  | .ended e => (∀ v, e ≠ .took v) ∧ ∀ name, e ≠ .failed (.closed name)

/-- Every value has its permit, and every receiver is where its phase says. -/
structure Accounted (t : Traffic ι) : Prop where
  owing : t.conduit.Owing (t.taking.length + t.posting)
  lined : ∀ r ∈ t.conduit.line, ∃ terms, t.phase r = .under terms
  taking : ∀ r, r ∈ t.taking ↔ ∃ quiet, t.phase r = .taking quiet
  takingOnce : t.taking.Nodup
  popped : ∀ r v, (r, v) ∈ t.popped ↔ t.phase r = .ended (.took v)
  poppedOnce : (t.popped.map Prod.fst).Nodup
  unclosed : ∀ r name, t.phase r ≠ .ended (.failed (.closed name))

omit [DecidableEq ι] in
lemma accounted_empty : ({} : Traffic ι).Accounted where
  owing := Conduit.owing_iff.2 ⟨rfl, fun _ => rfl, List.nodup_nil⟩
  lined r hr := by simp [Conduit.line] at hr
  taking r := by simp
  takingOnce := List.nodup_nil
  popped r v := by simp
  poppedOnce := List.nodup_nil
  unclosed r name := by simp

variable {t u : Traffic ι} {c : Channel} {r : ι}

omit [DecidableEq ι] in
lemma Accounted.not_mem_taking (h : t.Accounted) (hr : Bare (t.phase r)) : r ∉ t.taking := by
  intro hm
  obtain ⟨quiet, hq⟩ := (h.taking r).1 hm
  rw [hq] at hr
  exact hr

omit [DecidableEq ι] in
lemma Accounted.not_mem_popped (h : t.Accounted) (hr : Bare (t.phase r)) (v : Value) :
    (r, v) ∉ t.popped := by
  intro hm
  rw [(h.popped r v).1 hm] at hr
  exact hr.1 v rfl

/-- A receiver goes from one bare phase to another. Only one that is under way may be in line. -/
lemma Accounted.rephase (h : t.Accounted) {p : Phase} {k : Conduit ι} (hr : Bare (t.phase r))
    (hp : Bare p) (hk : k.Owing (t.taking.length + t.posting))
    (hline : ∀ b ∈ k.line, b ∈ t.conduit.line ∧ b ≠ r) :
    ({ t with conduit := k, phase := update t.phase r p } : Traffic ι).Accounted where
  owing := hk
  lined b hb := by
    obtain ⟨hm, hne⟩ := hline b hb
    simpa only [update_of_ne hne] using h.lined b hm
  taking b := by
    by_cases hb : b = r
    · subst hb
      have hnot := h.not_mem_taking hr
      simp only [hnot, update_same, false_iff, not_exists]
      rintro quiet rfl
      exact hp
    · simpa only [update_of_ne hb] using h.taking b
  takingOnce := h.takingOnce
  popped b v := by
    by_cases hb : b = r
    · subst hb
      have hnot := h.not_mem_popped hr v
      simp only [hnot, update_same, false_iff]
      rintro rfl
      exact hp.1 v rfl
    · simpa only [update_of_ne hb] using h.popped b v
  poppedOnce := h.poppedOnce
  unclosed b name := by
    by_cases hb : b = r
    · subst hb
      simp only [update_same]
      rintro rfl
      exact hp.2 name rfl
    · simpa only [update_of_ne hb] using h.unclosed b name

lemma Accounted.leave (h : t.Accounted) {e : Ending} (hr : Bare (t.phase r))
    (he : Bare (.ended e)) : (t.leave r e).Accounted :=
  h.rephase hr he (h.owing.abandon r) fun _ hb => h.owing.mem_line_abandon.1 hb

/-- A receiver that has used up a permit is owed a value. -/
lemma Accounted.hold (h : t.Accounted) {k : Conduit ι} {quiet : Bool} (hr : Bare (t.phase r))
    (hk : k.Owing (t.taking.length + t.posting + 1))
    (hline : ∀ b ∈ k.line, b ∈ t.conduit.line ∧ b ≠ r) : (t.hold r k quiet).Accounted where
  owing := by
    have hlen : (r :: t.taking).length + t.posting = t.taking.length + t.posting + 1 := by
      rw [List.length_cons]; omega
    simpa only [Traffic.hold, hlen] using hk
  lined b hb := by
    obtain ⟨hm, hne⟩ := hline b hb
    simpa only [Traffic.hold, update_of_ne hne] using h.lined b hm
  taking b := by
    by_cases hb : b = r
    · simp [Traffic.hold, hb]
    · simpa [Traffic.hold, update_of_ne hb, hb] using h.taking b
  takingOnce := List.nodup_cons.2 ⟨h.not_mem_taking hr, h.takingOnce⟩
  popped b v := by
    by_cases hb : b = r
    · subst hb
      simp [Traffic.hold, h.not_mem_popped hr v]
    · simpa only [Traffic.hold, update_of_ne hb] using h.popped b v
  poppedOnce := h.poppedOnce
  unclosed b name := by
    by_cases hb : b = r
    · simp [Traffic.hold, hb]
    · simpa only [Traffic.hold, update_of_ne hb] using h.unclosed b name

lemma Accounted.poll (h : t.Accounted) {terms : Terms} {expired : Bool}
    (hr : t.phase r = .under terms) : (t.poll c r terms expired).Accounted := by
  have hbare : Bare (t.phase r) := by rw [hr]; trivial
  unfold Traffic.poll
  split
  · exact h.leave hbare ⟨by simp, by simp⟩
  · split
    · next k hu => exact h.hold hbare (h.owing.use hu) fun _ hb => (h.owing.mem_line_use hu).1 hb
    · next hu =>
      split
      · exact h.leave hbare ⟨by simp, by simp⟩
      · split
        · exact h
        · next hw =>
          have hnot := Conduit.not_mem_line_of_usePermit? hu hw
          have hfree := (Conduit.usePermit?_eq_none hu).2.resolve_left hw
          refine { h with owing := h.owing.enqueue hnot hfree, lined := fun b hb => ?_ }
          rcases Conduit.mem_line_enqueue.1 hb with hb | rfl
          · exact h.lined b hb
          · exact ⟨terms, hr⟩

lemma Accounted.attempt (h : t.Accounted) (hr : t.phase r = .away) : (t.attempt r).Accounted := by
  have hbare : Bare (t.phase r) := by rw [hr]; trivial
  have hout : ∀ b ∈ t.conduit.line, b ∈ t.conduit.line ∧ b ≠ r := by
    rintro b hb
    refine ⟨hb, ?_⟩
    rintro rfl
    obtain ⟨terms, hu⟩ := h.lined _ hb
    simp [hr] at hu
  unfold Traffic.attempt
  split
  · next k hu =>
    refine h.hold hbare (h.owing.takeFree hu) ?_
    obtain ⟨-, rfl⟩ := Conduit.takeFree?_eq_some hu
    exact hout
  · exact h.rephase hbare ⟨by simp, by simp⟩ h.owing hout

omit [DecidableEq ι] in
/-- Whoever has used up a permit finds a value. -/
lemma Accounted.pop?_isSome (h : t.Accounted) (hr : r ∈ t.taking) :
    ∃ v k, t.conduit.pop? = some (v, k) := by
  have hpos := List.length_pos_of_mem hr
  have howing := h.owing
  rw [show t.taking.length + t.posting = t.taking.length - 1 + t.posting + 1 by omega] at howing
  rcases hp : t.conduit.pop? with _ | ⟨v, k⟩
  · exact absurd (Conduit.pop?_eq_none hp) howing.queue_ne_nil
  · exact ⟨v, k, rfl⟩

lemma Accounted.pop (h : t.Accounted) {quiet : Bool} (hr : t.phase r = .taking quiet) :
    (t.pop c r quiet).Accounted := by
  have hm : r ∈ t.taking := (h.taking r).2 ⟨quiet, hr⟩
  obtain ⟨v, k, hp⟩ := h.pop?_isSome hm
  have hlen := List.length_erase_of_mem hm
  have hpos := List.length_pos_of_mem hm
  obtain ⟨-, -, hw, hg⟩ := Conduit.pop?_eq_some hp
  unfold Traffic.pop
  rw [hp]
  refine ⟨?_, fun b hb => ?_, fun b => ?_, h.takingOnce.sublist List.erase_sublist, fun b u => ?_,
    ?_, fun b name => ?_⟩
  · have howing := h.owing
    rw [show t.taking.length + t.posting = (t.taking.erase r).length + t.posting + 1 by omega]
      at howing
    exact howing.pop hp
  · have hb : b ∈ t.conduit.line := by simpa only [Conduit.line, hw, hg] using hb
    obtain ⟨terms, hu⟩ := h.lined b hb
    have hne : b ≠ r := by
      rintro rfl
      simp [hr] at hu
    exact ⟨terms, by simpa only [update_of_ne hne] using hu⟩
  · rw [h.takingOnce.mem_erase_iff]
    by_cases hb : b = r
    · simp [hb]
    · simpa [hb, update_of_ne hb] using h.taking b
  · rw [List.mem_append, List.mem_singleton, Prod.mk.injEq]
    by_cases hb : b = r
    · subst hb
      have hnot : (b, u) ∉ t.popped := fun hu => by
        have := (h.popped b u).1 hu
        simp [hr] at this
      simp [hnot, eq_comm]
    · simpa [hb, update_of_ne hb] using h.popped b u
  · have hnot : r ∉ t.popped.map Prod.fst := by
      intro hu
      obtain ⟨⟨b, x⟩, hx, rfl⟩ := List.mem_map.1 hu
      have := (h.popped b x).1 hx
      simp [hr] at this
    rw [List.map_append, List.map_cons, List.map_nil]
    refine List.nodup_append.2 ⟨h.poppedOnce, List.nodup_singleton _, fun b hb d hd => ?_⟩
    rw [List.mem_singleton.1 hd]
    rintro rfl
    exact hnot hb
  · by_cases hb : b = r
    · simp [hb]
    · simpa only [update_of_ne hb] using h.unclosed b name

theorem Accounted.step (h : t.Accounted) {d : Dealing ι} (hs : t.step? c d = some u) :
    u.Accounted := by
  cases d with
  | push v =>
    simp only [step?] at hs
    split at hs <;> cases hs
    · exact { h with owing := h.owing.push v }
    · exact h
  | post =>
    simp only [step?] at hs
    split at hs
    · cases hs
    · next n hn =>
      cases hs
      have howing := h.owing
      rw [hn, Nat.succ_eq_add_one, ← Nat.add_assoc] at howing
      exact { h with
        owing := howing.release
        lined := fun b hb => h.lined b (Conduit.mem_line_release.1 hb) }
  | call b terms =>
    simp only [step?] at hs
    split at hs
    · next hb =>
      cases hs
      refine h.rephase (by rw [hb]; trivial) trivial h.owing fun d hd => ⟨hd, ?_⟩
      rintro rfl
      obtain ⟨terms, hu⟩ := h.lined _ hd
      simp [hb] at hu
    · cases hs
  | poll b expired =>
    simp only [step?] at hs
    split at hs <;> cases hs
    next hb => exact h.poll hb
  | pop b =>
    simp only [step?] at hs
    split at hs <;> cases hs
    next hb => exact h.pop hb
  | abort b =>
    simp only [step?] at hs
    split at hs <;> cases hs
    next hb => exact h.leave (by rw [hb]; trivial) ⟨by simp, by simp⟩
  | attempt b =>
    simp only [step?] at hs
    split at hs <;> cases hs
    next hb => exact h.attempt hb
  | cancel x =>
    cases hs
    exact { h with }

lemma account_leave (t : Traffic ι) (r : ι) (e : Ending) : (t.leave r e).account = t.account := by
  simp [account, leave]

lemma account_poll (t : Traffic ι) (c : Channel) (r : ι) (terms : Terms) (expired : Bool) :
    (t.poll c r terms expired).account = t.account := by
  unfold poll
  split
  · exact account_leave ..
  · split
    · next k hu =>
      have hq : k.queue = t.conduit.queue := by
        rcases Conduit.usePermit?_eq_some hu with ⟨-, rfl⟩ | ⟨-, -, rfl⟩ <;> rfl
      simp only [account, hold, hq]
    · split
      · exact account_leave ..
      · split <;> simp [account]

lemma account_pop (t : Traffic ι) (c : Channel) (r : ι) (quiet : Bool) :
    (t.pop c r quiet).account = t.account := by
  unfold pop
  split
  · next v k hp => simp [account, (Conduit.pop?_eq_some hp).1]
  · rfl

lemma account_attempt (t : Traffic ι) (r : ι) : (t.attempt r).account = t.account := by
  unfold attempt
  split
  · next k hu => simp [account, hold, (Conduit.takeFree?_eq_some hu).2]
  · rfl

/-- Values enter the account by being sent, and never leave it. -/
theorem account_step {d : Dealing ι} (hs : t.step? c d = some u) :
    u.account = t.account ++ (d.sent? c).toList := by
  cases d with
  | push v =>
    by_cases hv : c.type.accepts v
    · rw [step?, Channel.check_eq_ok_iff.2 hv] at hs
      cases hs
      simp [account, Dealing.sent?, hv]
    · rw [step?, Channel.check_eq_error (by simpa using hv)] at hs
      cases hs
      simp [Dealing.sent?, hv]
  | cancel x => cases hs; simp [account, Dealing.sent?]
  | post =>
    simp only [step?] at hs
    split at hs <;> cases hs
    simp [account, Dealing.sent?]
  | call b terms =>
    simp only [step?] at hs
    split at hs <;> cases hs
    simp [account, Dealing.sent?]
  | poll b expired =>
    simp only [step?] at hs
    split at hs <;> cases hs
    simp [account_poll, Dealing.sent?]
  | pop b =>
    simp only [step?] at hs
    split at hs <;> cases hs
    simp [account_pop, Dealing.sent?]
  | abort b =>
    simp only [step?] at hs
    split at hs <;> cases hs
    simp [account_leave, Dealing.sent?]
  | attempt b =>
    simp only [step?] at hs
    split at hs <;> cases hs
    simp [account_attempt, Dealing.sent?]

theorem Accounted.run (h : t.Accounted) {ds : List (Dealing ι)} (hr : t.run? c ds = some u) :
    u.Accounted := by
  induction ds generalizing t with
  | nil => cases hr; exact h
  | cons d ds ih =>
    obtain ⟨x, hd, hx⟩ := Option.bind_eq_some_iff.1 hr
    exact ih (h.step hd) hx

theorem account_run {ds : List (Dealing ι)} (hr : t.run? c ds = some u) :
    u.account = t.account ++ ds.filterMap (Dealing.sent? c) := by
  induction ds generalizing t with
  | nil => cases hr; simp
  | cons d ds ih =>
    obtain ⟨x, hd, hx⟩ := Option.bind_eq_some_iff.1 hr
    rw [ih hx, account_step hd, List.append_assoc]
    congr 1
    rw [List.filterMap_cons]
    cases d.sent? c <;> rfl

lemma Accounted.not_blocked (h : t.Accounted) (hf : 0 < t.conduit.free) : ¬ t.Blocked r :=
  fun hb => h.owing.usePermit?_ne_none hf r hb.2

/-- **Channel safety.** However the steps of senders and receivers follow each other, on a
channel of any type:

* the values that were taken, in the order in which they were taken, and then those that are
  queued, are the values that were sent, in the order in which they were put in;
* a receive takes at most one value, and it takes one exactly if it ends with that value;
* a receive that fails, is aborted, or comes to nothing takes none;
* no receive is told that the channel is closed;
* while a permit is free nobody waits in line, and no receive under way is blocked. -/
theorem channel_safe {c : Channel} {ds : List (Dealing ι)} {t : Traffic ι}
    (h : run? c {} ds = some t) :
    t.popped.map Prod.snd ++ t.conduit.queue = ds.filterMap (Dealing.sent? c) ∧
      ((t.popped.map Prod.fst).Nodup ∧ ∀ r v, (r, v) ∈ t.popped ↔ t.phase r = .ended (.took v)) ∧
      (∀ r e, t.phase r = .ended e → (∀ v, e ≠ .took v) → r ∉ t.popped.map Prod.fst) ∧
      (∀ r name, t.phase r ≠ .ended (.failed (.closed name))) ∧
      (0 < t.conduit.free → t.conduit.waiting = [] ∧ ∀ r, ¬ t.Blocked r) := by
  have hacc : t.Accounted := accounted_empty.run h
  refine ⟨by simpa [account] using account_run h, ⟨hacc.poppedOnce, hacc.popped⟩, ?_,
    hacc.unclosed, fun hf => ⟨?_, fun r => hacc.not_blocked hf⟩⟩
  · intro r e hr he hm
    obtain ⟨⟨b, v⟩, hv, rfl⟩ := List.mem_map.1 hm
    have htook := (hacc.popped b v).1 hv
    rw [hr] at htook
    exact he v (Phase.ended.inj htook)
  · by_contra hw
    have hzero := (Conduit.owing_iff.1 hacc.owing).2.1 hw
    omega

/-- Two receives wait; the one that is first in line is given the permit and goes away, and the
value is for the other. -/
def exchange : List (Dealing Nat) :=
  [.call 0 {}, .poll 0 false, .call 1 {}, .poll 1 false, .push (.text "x"), .post, .abort 0,
    .push (.text "y"), .attempt 2, .poll 1 false, .post, .pop 1]

theorem exchange_safe : ∃ t, run? ⟨0, "c", .text⟩ {} exchange = some t ∧
    t.popped.map Prod.fst = [1] ∧ 0 < t.conduit.free ∧
      (t.popped.map Prod.snd ++ t.conduit.queue =
          exchange.filterMap (Dealing.sent? ⟨0, "c", .text⟩) ∧
        ((t.popped.map Prod.fst).Nodup ∧ ∀ r v, (r, v) ∈ t.popped ↔ t.phase r = .ended (.took v)) ∧
        (∀ r e, t.phase r = .ended e → (∀ v, e ≠ .took v) → r ∉ t.popped.map Prod.fst) ∧
        (∀ r name, t.phase r ≠ .ended (.failed (.closed name))) ∧
        (0 < t.conduit.free → t.conduit.waiting = [] ∧ ∀ r, ¬ t.Blocked r)) :=
  ⟨_, rfl, rfl, by decide, channel_safe rfl⟩

end Traffic

/-! ### The operations of a world

Each operation that a world has on a channel is one or two of these steps, with none of another
user between them. -/

/-- Where a receive is after a poll with this reply. -/
def Phase.replied (terms : Terms) : Option (Except ChannelError Value) → Phase
  | none => .under terms
  | some (.ok v) => .ended (.took v)
  | some (.error e) => .ended (.failed e)

namespace World

variable {w : World} {t : Traffic Address} {c : Channel} {a : Address}

/-- A send is a push, and the permit right after it. -/
theorem steps_of_send {w' : World} {v : Value} (hk : t.conduit = w.conduit c)
    (h : w.send c v = .ok w') :
    ∃ u, t.run? c [.push v, .post] = some u ∧ u.conduit = w'.conduit c := by
  unfold send at h
  rcases hv : c.check v with e | ⟨⟩
  · rw [hv] at h
    cases h
  · rw [hv] at h
    cases h
    refine ⟨{ t with conduit := (t.conduit.push v).release }, ?_, ?_⟩
    · simp [Traffic.run?, Traffic.step?, hv]
    · rw [hk, conduit_setConduit_same, Conduit.send]

/-- A poll is a poll, and the value taken right after it. -/
theorem steps_of_poll {token : Option Token} {limit : Option Duration} {expired : Bool}
    (hk : t.conduit = w.conduit c) (hc : t.cancelled = w.cancelled)
    (ha : t.phase a = .under ⟨token, limit⟩) :
    ∃ ds u, t.run? c ds = some u ∧
      u.conduit = (w.poll a c token (if expired then limit else none)).2.conduit c ∧
      u.phase a =
        .replied ⟨token, limit⟩ (w.poll a c token (if expired then limit else none)).1 := by
  have hcancel : t.isCancelled = w.isCancelled := by
    funext u
    rw [Traffic.isCancelled, World.isCancelled, hc]
  have hstep : t.run? c [.poll a expired] = some (t.poll c a ⟨token, limit⟩ expired) := by
    simp only [Traffic.run?, Traffic.step?, ha, Option.bind_some]
  by_cases hx : token.any w.isCancelled
  · refine ⟨_, _, hstep, ?_, ?_⟩ <;>
      simp [Traffic.poll, hcancel, hx, Traffic.leave, poll, leaveLine, hk, Phase.replied]
  rcases hu : (w.conduit c).usePermit? a with _ | k
  · refine ⟨_, _, hstep, ?_, ?_⟩
    · simp only [Traffic.poll, hcancel, hx, hk, hu, poll]
      cases if expired then limit else none with
      | some l => simp [Traffic.leave, leaveLine, hk]
      | none =>
        by_cases hw : a ∈ (w.conduit c).waiting <;> simp [hw, inLine, hk]
    · simp only [Traffic.poll, hcancel, hx, hk, hu, poll]
      cases if expired then limit else none with
      | some l => simp [Traffic.leave, Phase.replied]
      | none =>
        by_cases hw : a ∈ (w.conduit c).waiting <;> simp [hw, Phase.replied, ha]
  · have hhold : t.poll c a ⟨token, limit⟩ expired = t.hold a k false := by
      simp [Traffic.poll, hcancel, hx, hk, hu]
    have hpop : t.run? c [.poll a expired, .pop a] = some ((t.hold a k false).pop c a false) := by
      simp [Traffic.run?, Traffic.step?, ha, hhold, Traffic.hold]
    refine ⟨_, _, hpop, ?_, ?_⟩ <;>
      rcases hp : k.pop? with _ | ⟨v, k'⟩ <;>
      simp [Traffic.pop, Traffic.hold, hp, poll, hx, hu, Phase.replied]

/-- Leaving the line is an abort. -/
theorem steps_of_leaveLine {terms : Terms} (hk : t.conduit = w.conduit c)
    (ha : t.phase a = .under terms) :
    ∃ u, t.run? c [.abort a] = some u ∧ u.conduit = (w.leaveLine a c).conduit c :=
  ⟨t.leave a .aborted, by simp [Traffic.run?, Traffic.step?, ha], by
    simp [Traffic.leave, leaveLine, hk]⟩

/-- A receive that does not wait is an attempt, and the value taken right after it. -/
theorem steps_of_tryReceive (hk : t.conduit = w.conduit c) (ha : t.phase a = .away) :
    ∃ ds u, t.run? c ds = some u ∧ u.conduit = (w.tryReceive c).2.conduit c ∧
      u.phase a =
        .ended (match (w.tryReceive c).1 with | some v => .took v | none => .nothing) := by
  rcases hf : (w.conduit c).takeFree? with _ | k
  · have hstep : t.run? c [.attempt a] =
        some { t with phase := update t.phase a (.ended .nothing) } := by
      simp [Traffic.run?, Traffic.step?, ha, Traffic.attempt, hk, hf]
    refine ⟨_, _, hstep, ?_, ?_⟩ <;> simp [tryReceive, Conduit.tryReceive, hf, hk]
  · have hpop : t.run? c [.attempt a, .pop a] = some ((t.hold a k true).pop c a true) := by
      simp [Traffic.run?, Traffic.step?, ha, Traffic.attempt, hk, hf, Traffic.hold]
    refine ⟨_, _, hpop, ?_, ?_⟩ <;>
      rcases hp : k.pop? with _ | ⟨v, k'⟩ <;>
      simp [Traffic.pop, Traffic.hold, hp, tryReceive, Conduit.tryReceive, hf]

end World

end Dataflow
