import Dataflow.Channel.Conduit
import Mathlib.Data.List.Nodup
import Mathlib.Tactic.Lemma

/-!
Permits and values. In an orderly conduit there is a permit for every value, nobody waits while
a permit is free, and nobody is in line twice; every dealing with a conduit keeps it orderly and
leaves all others in line where they are.
-/

namespace Dataflow.Conduit

variable {ι : Type}

/-- Those who wait for a permit, and those who hold one. -/
def line (c : Conduit ι) : List ι := c.waiting ++ c.granted

structure Orderly (c : Conduit ι) : Prop where
  tally : c.free + c.granted.length = c.queue.length
  idle : c.waiting ≠ [] → c.free = 0
  once : c.line.Nodup

/-- Nobody is in line, and a permit is free for every value. -/
structure Calm (c : Conduit ι) : Prop where
  line : c.line = []
  free : c.free = c.queue.length

lemma Calm.waiting {c : Conduit ι} (h : c.Calm) : c.waiting = [] :=
  (List.append_eq_nil_iff.1 h.line).1

lemma Calm.granted {c : Conduit ι} (h : c.Calm) : c.granted = [] :=
  (List.append_eq_nil_iff.1 h.line).2

lemma Calm.orderly {c : Conduit ι} (h : c.Calm) : c.Orderly where
  tally := by simp [h.granted, h.free]
  idle hw := absurd h.waiting hw
  once := by simp [h.line]

/-- If somebody waits and a value is there, then somebody holds a permit for it. -/
lemma Orderly.granted_ne_nil {c : Conduit ι} (h : c.Orderly) (hw : c.waiting ≠ [])
    (hq : c.queue ≠ []) : c.granted ≠ [] := by
  intro hg
  have htally := h.tally
  have hpos := List.length_pos_iff.2 hq
  simp only [hg, h.idle hw, List.length_nil] at htally
  omega

lemma Orderly.queue_ne_nil {c : Conduit ι} (h : c.Orderly) (hf : 0 < c.free ∨ c.granted ≠ []) :
    c.queue ≠ [] := by
  have htally := h.tally
  intro hq
  simp only [hq, List.length_nil] at htally
  rcases hf with hf | hf
  · omega
  · exact absurd (List.length_pos_iff.2 hf) (by omega)

@[simp] lemma line_push (c : Conduit ι) (v : Value) : (c.push v).line = c.line := rfl

lemma line_release (c : Conduit ι) : c.release.line.Perm c.line := by
  unfold release
  split
  · exact .refl _
  · next r rest hw =>
    simp only [line, hw]
    rw [← List.append_assoc]
    exact List.perm_append_singleton _ _

lemma mem_line_release {c : Conduit ι} {b : ι} : b ∈ c.release.line ↔ b ∈ c.line :=
  (line_release c).mem_iff

lemma mem_line_send {c : Conduit ι} {v : Value} {b : ι} : b ∈ (c.send v).line ↔ b ∈ c.line := by
  rw [send, mem_line_release, line_push]

/-- A permit that comes free restores the tally that one permit too few had broken. -/
lemma orderly_release {c : Conduit ι} (htally : c.free + c.granted.length + 1 = c.queue.length)
    (hidle : c.waiting ≠ [] → c.free = 0) (honce : c.line.Nodup) : c.release.Orderly where
  tally := by
    rw [queue_release]
    unfold release
    split <;> simp <;> omega
  idle := by
    unfold release
    split
    · next hw => simp [hw]
    · next r rest hw => exact fun _ => hidle (by simp [hw])
  once := (line_release c).nodup_iff.2 honce

lemma Orderly.send {c : Conduit ι} (h : c.Orderly) (v : Value) : (c.send v).Orderly := by
  refine orderly_release ?_ h.idle (by simpa using h.once)
  have htally := h.tally
  simp only [push, List.length_append, List.length_singleton]
  omega

/-- A receiver gets in line only where no permit is free. -/
lemma Orderly.enqueue {c : Conduit ι} (h : c.Orderly) {a : ι} (ha : a ∉ c.line)
    (hf : c.free = 0) : (c.enqueue a).Orderly where
  tally := h.tally
  idle _ := hf
  once := by
    have hperm : (c.enqueue a).line.Perm (a :: c.line) := by
      simp only [line, Conduit.enqueue, List.append_assoc, List.singleton_append]
      exact List.perm_middle
    exact hperm.nodup_iff.2 (List.nodup_cons.2 ⟨ha, h.once⟩)

lemma mem_line_enqueue {c : Conduit ι} {a b : ι} :
    b ∈ (c.enqueue a).line ↔ b ∈ c.line ∨ b = a := by
  simp only [line, enqueue, List.mem_append, List.mem_singleton]
  tauto

lemma pop?_eq_some {c c' : Conduit ι} {v : Value} (h : c.pop? = some (v, c')) :
    c.queue = v :: c'.queue ∧ c'.free = c.free ∧ c'.waiting = c.waiting ∧
      c'.granted = c.granted := by
  unfold pop? at h
  split at h
  · cases h
  · next u rest hq =>
    simp only [Option.some.injEq, Prod.mk.injEq] at h
    obtain ⟨rfl, rfl⟩ := h
    exact ⟨hq, rfl, rfl, rfl⟩

lemma pop?_eq_none {c : Conduit ι} (h : c.pop? = none) : c.queue = [] := by
  unfold pop? at h
  split at h
  · assumption
  · cases h

section

variable [DecidableEq ι]

lemma usePermit?_eq_some {c c' : Conduit ι} {a : ι} (h : c.usePermit? a = some c') :
    (a ∈ c.granted ∧ c' = { c with granted := c.granted.erase a }) ∨
      (a ∉ c.line ∧ 0 < c.free ∧ c' = { c with free := c.free - 1 }) := by
  unfold usePermit? at h
  split at h
  · next hg => exact .inl ⟨hg, (Option.some.inj h).symm⟩
  · next hg =>
    split at h
    · next hw => exact .inr ⟨by simp [line, hg, hw.1], hw.2, (Option.some.inj h).symm⟩
    · cases h

lemma usePermit?_eq_none {c : Conduit ι} {a : ι} (h : c.usePermit? a = none) :
    a ∉ c.granted ∧ (a ∈ c.waiting ∨ c.free = 0) := by
  unfold usePermit? at h
  split at h
  · cases h
  · next hg =>
    split at h
    · cases h
    · next hw =>
      refine ⟨hg, ?_⟩
      by_cases ha : a ∈ c.waiting
      · exact .inl ha
      · exact .inr (by simp only [ha, not_false_eq_true, true_and] at hw; omega)

/-- With a permit in hand there is a value to take. -/
lemma Orderly.pop?_isSome {c c' : Conduit ι} {a : ι} (h : c.Orderly)
    (hu : c.usePermit? a = some c') : c'.pop? ≠ none := by
  intro hp
  have hq : c'.queue = c.queue := by
    rcases usePermit?_eq_some hu with ⟨-, rfl⟩ | ⟨-, -, rfl⟩ <;> rfl
  refine h.queue_ne_nil ?_ (hq ▸ pop?_eq_none hp)
  rcases usePermit?_eq_some hu with ⟨hg, -⟩ | ⟨-, hf, -⟩
  · exact .inr (List.ne_nil_of_mem hg)
  · exact .inl hf

/-- Who takes a value is in line no longer, and everybody else stays. -/
lemma mem_line_take {c c₁ c₂ : Conduit ι} {a b : ι} {v : Value} (hu : c.usePermit? a = some c₁)
    (hp : c₁.pop? = some (v, c₂)) (hb : b ≠ a) : b ∈ c₂.line ↔ b ∈ c.line := by
  obtain ⟨-, -, hw, hg⟩ := pop?_eq_some hp
  rcases usePermit?_eq_some hu with ⟨-, rfl⟩ | ⟨-, -, rfl⟩
  · simp only [line, hw, hg, List.mem_append, List.mem_erase_of_ne hb]
  · simp only [line, hw, hg]

lemma Orderly.not_mem_line_take {c c₁ c₂ : Conduit ι} {a : ι} {v : Value} (h : c.Orderly)
    (hu : c.usePermit? a = some c₁) (hp : c₁.pop? = some (v, c₂)) : a ∉ c₂.line := by
  obtain ⟨-, -, hw, hg⟩ := pop?_eq_some hp
  have honce := h.once
  rcases usePermit?_eq_some hu with ⟨ha, rfl⟩ | ⟨ha, -, rfl⟩
  · rw [line, List.nodup_append] at honce
    simp only [line, hw, hg, List.mem_append, not_or]
    exact ⟨fun hm => honce.2.2 _ hm _ ha rfl, fun hm => (honce.2.1.mem_erase_iff.1 hm).1 rfl⟩
  · simpa only [line, hw, hg] using ha

lemma Orderly.take {c c₁ c₂ : Conduit ι} {a : ι} {v : Value} (h : c.Orderly)
    (hu : c.usePermit? a = some c₁) (hp : c₁.pop? = some (v, c₂)) : c₂.Orderly := by
  obtain ⟨hq, hf, hw, hg⟩ := pop?_eq_some hp
  have htally := h.tally
  have hidle := h.idle
  rcases usePermit?_eq_some hu with ⟨ha, rfl⟩ | ⟨-, hpos, rfl⟩
  · simp only at hq hf hw hg
    refine ⟨?_, ?_, ?_⟩
    · have hlen := List.length_erase_of_mem ha
      have hpos := List.length_pos_of_mem ha
      rw [hq, List.length_cons] at htally
      rw [hf, hg]
      omega
    · rw [hw, hf]; exact hidle
    · rw [line, hw, hg]
      exact h.once.sublist (List.Sublist.append_left List.erase_sublist _)
  · simp only at hq hf hw hg
    refine ⟨?_, ?_, ?_⟩
    · rw [hq, List.length_cons] at htally
      rw [hf, hg]
      omega
    · rw [hw, hf]; intro hne; have := hidle hne; omega
    · rw [line, hw, hg]; exact h.once

lemma queue_take {c c₁ c₂ : Conduit ι} {a : ι} {v : Value} (hu : c.usePermit? a = some c₁)
    (hp : c₁.pop? = some (v, c₂)) : c.queue = v :: c₂.queue := by
  have hq : c₁.queue = c.queue := by
    rcases usePermit?_eq_some hu with ⟨-, rfl⟩ | ⟨-, -, rfl⟩ <;> rfl
  rw [← hq]
  exact (pop?_eq_some hp).1

lemma mem_line_abandon {c : Conduit ι} {a b : ι} (hb : b ≠ a) :
    b ∈ (c.abandon a).line ↔ b ∈ c.line := by
  unfold abandon
  split
  · rw [mem_line_release]
    simp only [line, List.mem_append, List.mem_erase_of_ne hb]
  · simp only [line, List.mem_append, List.mem_erase_of_ne hb]

lemma Orderly.not_mem_line_abandon {c : Conduit ι} {a : ι} (h : c.Orderly) :
    a ∉ (c.abandon a).line := by
  have honce := h.once
  rw [line, List.nodup_append] at honce
  unfold abandon
  split
  · next ha =>
    rw [mem_line_release]
    simp only [line, List.mem_append, not_or]
    exact ⟨fun hm => honce.2.2 _ hm _ ha rfl, fun hm => (honce.2.1.mem_erase_iff.1 hm).1 rfl⟩
  · next ha =>
    simp only [line, List.mem_append, not_or]
    exact ⟨fun hm => (honce.1.mem_erase_iff.1 hm).1 rfl, ha⟩

lemma Orderly.abandon {c : Conduit ι} (h : c.Orderly) (a : ι) : (c.abandon a).Orderly := by
  have htally := h.tally
  unfold Conduit.abandon
  split
  · next ha =>
    refine orderly_release ?_ h.idle ?_
    · have hlen := List.length_erase_of_mem ha
      have hpos := List.length_pos_of_mem ha
      simp only
      omega
    · exact h.once.sublist (List.Sublist.append_left List.erase_sublist _)
  · refine ⟨htally, fun hw => h.idle fun h0 => hw (by simp [h0]), ?_⟩
    exact h.once.sublist (List.Sublist.append_right List.erase_sublist _)

end

/-- Whoever does not wait gets a value if a permit is free, and nothing changes otherwise. -/
lemma tryReceive_cases (c : Conduit ι) (h : c.Orderly) :
    (c.free = 0 ∧ c.tryReceive = (none, c)) ∨
      ∃ v c', c.tryReceive = (some v, c') ∧ c.queue = v :: c'.queue ∧ c'.free + 1 = c.free ∧
        c'.waiting = c.waiting ∧ c'.granted = c.granted := by
  unfold tryReceive takeFree?
  by_cases hf : 0 < c.free
  · have hq := h.queue_ne_nil (.inl hf)
    rcases hc : c.queue with _ | ⟨v, rest⟩
    · exact absurd hc hq
    · refine .inr ⟨v, { c with free := c.free - 1, queue := rest }, ?_⟩
      simp only [hf, if_true, pop?, true_and, and_true]
      omega
  · exact .inl ⟨by omega, by simp [hf]⟩

lemma Orderly.tryReceive {c : Conduit ι} (h : c.Orderly) :
    c.tryReceive.2.Orderly ∧ c.tryReceive.2.line = c.line := by
  rcases tryReceive_cases c h with ⟨-, hc⟩ | ⟨v, c', hc, hq, hf, hw, hg⟩
  · exact hc ▸ ⟨h, rfl⟩
  · have htally := h.tally
    have hidle := h.idle
    rw [hq, List.length_cons] at htally
    have hline : c'.line = c.line := by simp only [line, hw, hg]
    rw [hc]
    refine ⟨⟨by simp only [hg]; omega, fun hne => ?_, hline ▸ h.once⟩, hline⟩
    have := hidle (hw ▸ hne)
    simp only
    omega

/-- The dealings of `a`, of senders, and of those who do not wait: they leave an orderly conduit
orderly and everybody but `a` where they are. -/
def Aside (a : ι) (c c' : Conduit ι) : Prop :=
  c.Orderly → c'.Orderly ∧ ∀ b, b ≠ a → (b ∈ c'.line ↔ b ∈ c.line)

lemma Aside.refl (a : ι) (c : Conduit ι) : Aside a c c := fun h => ⟨h, fun _ _ => Iff.rfl⟩

lemma Aside.trans {a : ι} {c c₁ c₂ : Conduit ι} (h₁ : Aside a c c₁) (h₂ : Aside a c₁ c₂) :
    Aside a c c₂ := fun h =>
  have k₁ := h₁ h
  have k₂ := h₂ k₁.1
  ⟨k₂.1, fun b hb => (k₂.2 b hb).trans (k₁.2 b hb)⟩

lemma aside_send (a : ι) (c : Conduit ι) (v : Value) : Aside a c (c.send v) :=
  fun h => ⟨h.send v, fun _ _ => mem_line_send⟩

lemma aside_tryReceive (a : ι) (c : Conduit ι) : Aside a c c.tryReceive.2 :=
  fun h => ⟨h.tryReceive.1, fun b _ => by rw [h.tryReceive.2]⟩

section

variable [DecidableEq ι]

lemma aside_take {a : ι} {c c₁ c₂ : Conduit ι} {v : Value} (hu : c.usePermit? a = some c₁)
    (hp : c₁.pop? = some (v, c₂)) : Aside a c c₂ :=
  fun h => ⟨h.take hu hp, fun _ hb => mem_line_take hu hp hb⟩

lemma aside_abandon (a : ι) (c : Conduit ι) : Aside a c (c.abandon a) :=
  fun h => ⟨h.abandon a, fun _ hb => mem_line_abandon hb⟩

lemma not_mem_line_of_usePermit? {a : ι} {c : Conduit ι} (hu : c.usePermit? a = none)
    (hw : a ∉ c.waiting) : a ∉ c.line := by
  simp [line, hw, (usePermit?_eq_none hu).1]

lemma aside_enqueue {a : ι} {c : Conduit ι} (hu : c.usePermit? a = none) (hw : a ∉ c.waiting) :
    Aside a c (c.enqueue a) := by
  intro h
  have hf : c.free = 0 := (usePermit?_eq_none hu).2.resolve_left hw
  refine ⟨h.enqueue (not_mem_line_of_usePermit? hu hw) hf, fun b hb => ?_⟩
  simp [mem_line_enqueue, hb]

end

lemma Calm.send {c : Conduit ι} (h : c.Calm) (v : Value) : (c.send v).Calm := by
  have hsend : c.send v =
      { c with queue := c.queue ++ [v], free := c.free + 1, waiting := [] } := by
    have hw : (c.push v).waiting = [] := h.waiting
    simp only [Conduit.send, release, hw]
    rfl
  rw [hsend]
  exact ⟨h.granted, by simp [h.free]⟩

lemma Calm.tryReceive {c : Conduit ι} (h : c.Calm) :
    c.tryReceive.2.Calm ∧ c.tryReceive.2.queue ⊆ c.queue := by
  have hline := h.orderly.tryReceive.2.trans h.line
  rcases tryReceive_cases c h.orderly with ⟨-, hc⟩ | ⟨v, c', hc, hq, hf, -⟩
  · rw [hc]
    exact ⟨h, List.Subset.refl _⟩
  · rw [hc] at hline ⊢
    refine ⟨⟨hline, ?_⟩, hq ▸ List.subset_cons_self _ _⟩
    have hfree := h.free
    rw [hq, List.length_cons] at hfree
    change c'.free = c'.queue.length
    omega

end Dataflow.Conduit
