import Dataflow.Proofs.Cargo
import Dataflow.Proofs.Tree

/-!
The books of a level. Whatever its workers have still to take and still to publish is set against
the values that wait on its channels: nothing is lost and nothing is made up.
-/

namespace Dataflow

namespace Worker

/-- The inputs that the worker has still to take. -/
def needs (k : Worker) : List String :=
  match k.stage with
  | .gathering _ rest => rest.map (·.name)
  | _ => []

/-- The outputs that it has still to publish. -/
def owes (k : Worker) : List String :=
  match k.stage with
  | .sending ready _ => ready.map (·.1.name)
  | .ended _ => []
  | .reported _ => []
  | _ => k.node.outs

lemma owes_gather {k : Worker} {got : Payload} {rest : List Channel}
    (h : k.stage = k.node.gather got rest) : k.owes = k.node.outs := by
  unfold owes
  rw [h]
  rcases k.node.gather_cases got rest with
    ⟨c, cs, -, hg⟩ | ⟨-, ⟨logic, -, hg⟩ | ⟨inner, -, hg⟩⟩ <;> rw [hg]

lemma needs_gather {k : Worker} {got : Payload} {rest : List Channel}
    (h : k.stage = k.node.gather got rest) : k.needs = rest.map (·.name) := by
  unfold needs
  rw [h]
  rcases k.node.gather_cases got rest with
    ⟨c, cs, hr, hg⟩ | ⟨hr, ⟨logic, -, hg⟩ | ⟨inner, -, hg⟩⟩ <;> rw [hg, hr]
  all_goals rfl

lemma owes_new (n : Node) (token : Token) (limit : Option Duration) :
    (Worker.new n token limit).owes = n.outs := owes_gather rfl

lemma needs_new (n : Node) (token : Token) (limit : Option Duration) :
    (Worker.new n token limit).needs = n.ins := needs_gather rfl

end Worker

/-- What a list counts, after one of its members was replaced. -/
lemma count_flatMap_set {α : Type} {l : List α} {i : Nat} {a b : α} (h : l[i]? = some a)
    (f : α → List String) (x : String) :
    ((l.set i b).flatMap f).count x + (f a).count x =
      (l.flatMap f).count x + (f b).count x := by
  induction l generalizing i with
  | nil => simp at h
  | cons y rest ih =>
    cases i with
    | zero =>
      obtain rfl : y = a := by simpa using h
      simp only [List.set_cons_zero, List.flatMap_cons, List.count_append]
      omega
    | succ i =>
      have := ih (i := i) (by simpa using h)
      simp only [List.set_cons_succ, List.flatMap_cons, List.count_append]
      omega

namespace World

variable {w v v' : World} {r b : Address} {p q : Pipeline} {k k' : Worker} {i : Nat}
  {crew : List Worker} {seeded : List String}

/-- The workers of the run at `b`, in order. -/
def Crew (v : World) (b : Address) (crew : List Worker) : Prop :=
  ∀ i, crew[i]? = v.workers (i :: b)

/-- On every channel of the level, what waits there and what is still to be published stands
against what was there at the start, was published in all, and is still to be taken. -/
def Balanced (w v : World) (q : Pipeline) (seeded : List String) (crew : List Worker) : Prop :=
  ∀ c ∈ q.channels, (v.conduit c).queue.length + (crew.flatMap Worker.owes).count c.name +
      (Pipeline.reads q.nodes).count c.name =
    q.supply w.queued seeded c.name + (Pipeline.writes q.nodes).count c.name +
      (crew.flatMap Worker.needs).count c.name

lemma Crew.map_node {run : Run} (h : v.Crew b crew) (ht : v.Tree r p) (hb : r <:+ b)
    (hrun : v.runs b = some run) : crew.map Worker.node = run.pipeline.nodes := by
  refine List.ext_getElem? fun i => ?_
  rw [List.getElem?_map, h i]
  cases hk : v.workers (i :: b) with
  | some k =>
    obtain ⟨run', hrun', hpost⟩ := ht.posted b i k hb hk
    obtain rfl := Option.some.inj (hrun.symm.trans hrun')
    exact hpost.node.symm
  | none =>
    cases hn : run.pipeline.nodes[i]? with
    | none => rfl
    | some n =>
      obtain ⟨k, hk'⟩ := ht.manned b i run n hb hrun hn
      rw [hk] at hk'
      cases hk'

lemma Crew.length_eq {run : Run} (h : v.Crew b crew) (ht : v.Tree r p) (hb : r <:+ b)
    (hrun : v.runs b = some run) : crew.length = run.pipeline.nodes.length := by
  rw [← h.map_node ht hb hrun, List.length_map]

lemma Crew.mem (h : v.Crew b crew) : k ∈ crew ↔ ∃ i, v.workers (i :: b) = some k := by
  rw [List.mem_iff_getElem?]
  simp only [h _]

lemma Crew.congr (h : v.Crew b crew) (hw : ∀ i, v'.workers (i :: b) = v.workers (i :: b)) :
    v'.Crew b crew := fun i => (h i).trans (hw i).symm

lemma Crew.set (h : v.Crew b crew) (hk : v.workers (i :: b) = some k)
    (hw : v'.workers (i :: b) = some k')
    (hothers : ∀ j, j ≠ i → v'.workers (j :: b) = v.workers (j :: b)) :
    v'.Crew b (crew.set i k') := by
  intro j
  have hi : crew[i]? = some k := (h i).trans hk
  have hlt : i < crew.length := (List.getElem?_eq_some_iff.1 hi).1
  by_cases hj : j = i
  · subst hj
    rw [List.getElem?_set_self hlt, hw]
  · rw [List.getElem?_set_ne (Ne.symm hj), h j, hothers j hj]

lemma Balanced.congr (h : w.Balanced v q seeded crew)
    (hq : ∀ c ∈ q.channels, (v'.conduit c).queue = (v.conduit c).queue) :
    w.Balanced v' q seeded crew := fun c hc => hq c hc ▸ h c hc

lemma Balanced.perm {crew' : List Worker} (h : w.Balanced v q seeded crew)
    (hp : crew'.Perm crew) : w.Balanced v q seeded crew' := by
  intro c hc
  rw [(hp.flatMap_right Worker.owes).count_eq, (hp.flatMap_right Worker.needs).count_eq]
  exact h c hc

/-- A step of one worker that keeps its own books keeps those of its level. -/
lemma Balanced.set (h : w.Balanced v q seeded crew) (hi : crew[i]? = some k)
    (hbooks : ∀ c ∈ q.channels, (v'.conduit c).queue.length + k'.owes.count c.name +
        k.needs.count c.name =
      (v.conduit c).queue.length + k.owes.count c.name + k'.needs.count c.name) :
    w.Balanced v' q seeded (crew.set i k') := by
  intro c hc
  have hold := h c hc
  have howes := count_flatMap_set (b := k') hi Worker.owes c.name
  have hneeds := count_flatMap_set (b := k') hi Worker.needs c.name
  have := hbooks c hc
  omega

/-- The books of a level whose workers have just been made. -/
lemma balanced_new (hs : q.Sound) (seeds : Payload) (token : Token) (limit : Option Duration)
    (hq : ∀ c ∈ q.channels, (v.conduit c).queue.length =
      w.queued c + if c.name ∈ seeds.keys then 1 else 0) :
    w.Balanced v q seeds.keys (q.nodes.map fun n => .new n token limit) := by
  intro c hc
  have howes : (q.nodes.map fun n => Worker.new n token limit).flatMap Worker.owes =
      Pipeline.writes q.nodes := by
    rw [List.flatMap_map]
    exact List.flatMap_congr fun n _ => Worker.owes_new n token limit
  have hneeds : (q.nodes.map fun n => Worker.new n token limit).flatMap Worker.needs =
      Pipeline.reads q.nodes := by
    rw [List.flatMap_map]
    exact List.flatMap_congr fun n _ => Worker.needs_new n token limit
  rw [howes, hneeds, hs.supply hc, hq c hc]

end World

end Dataflow
