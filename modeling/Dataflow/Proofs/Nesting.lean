import Dataflow.Run.World
import Mathlib.Data.List.Induction
import Mathlib.Tactic.Lemma

/-!
The levels of a pipeline: the pipeline itself, and those that its composites wrap, to any depth.

An address below a pipeline says which nodes to enter, the innermost first. The pipeline itself
is at `[]`, and the one that the `i`-th node at `path` wraps is at `i :: path`; so the run of a
level that stands at `path` has the address `path ++ r` when the whole runs at `r`.
-/

namespace Dataflow

lemma Node.inner?_eq_some {n : Node} {q : Pipeline} :
    n.inner? = some q ↔ n.body = .composite q := by
  obtain ⟨_, _, _, body⟩ := n
  cases body <;> simp [Node.inner?]

namespace Pipeline

lemma sizeOf_inner {n : Node} {q : Pipeline} (h : n.inner? = some q) : sizeOf q < sizeOf n := by
  obtain ⟨_, _, _, body⟩ := n
  simp only [Node.inner?_eq_some] at h
  subst h
  simp only [Node.mk.sizeOf_spec, Body.composite.sizeOf_spec]
  omega

lemma sizeOf_node {p : Pipeline} {n : Node} (h : n ∈ p.nodes) : sizeOf n < sizeOf p := by
  obtain ⟨_, _, _, _, nodes⟩ := p
  have : sizeOf n < sizeOf nodes := List.sizeOf_lt_of_mem h
  simp only [Pipeline.mk.sizeOf_spec]
  omega

/-- What holds of a pipeline as soon as it holds of those that its nodes wrap holds of all. -/
theorem nest_induction {motive : Pipeline → Prop}
    (step : ∀ p : Pipeline, (∀ n ∈ p.nodes, ∀ q, n.inner? = some q → motive q) → motive p)
    (p : Pipeline) : motive p :=
  step p fun _ hn q hq =>
    have : sizeOf q < sizeOf p := Nat.lt_trans (sizeOf_inner hq) (sizeOf_node hn)
    nest_induction step q
termination_by sizeOf p

/-- The pipeline at an address below `p`. -/
def level? (p : Pipeline) : Address → Option Pipeline
  | [] => some p
  | i :: path => ((p.level? path).bind fun q => q.nodes[i]?).bind Node.inner?

@[simp] lemma level?_nil (p : Pipeline) : p.level? [] = some p := rfl

lemma level?_cons {p q inner : Pipeline} {path : Address} {i : Nat} {n : Node}
    (hq : p.level? path = some q) (hn : q.nodes[i]? = some n) (hi : n.inner? = some inner) :
    p.level? (i :: path) = some inner := by
  simp [level?, hq, hn, hi]

lemma level?_cons_inv {p inner : Pipeline} {path : Address} {i : Nat}
    (h : p.level? (i :: path) = some inner) :
    ∃ q n, p.level? path = some q ∧ q.nodes[i]? = some n ∧ n.inner? = some inner := by
  obtain ⟨n, hn, hi⟩ := Option.bind_eq_some_iff.1 h
  obtain ⟨q, hq, hn⟩ := Option.bind_eq_some_iff.1 hn
  exact ⟨q, n, hq, hn, hi⟩

/-- The outermost step of an address leads into a node of `p` itself. -/
lemma level?_append_singleton (p : Pipeline) (path : Address) (i : Nat) :
    p.level? (path ++ [i]) = ((p.nodes[i]?).bind Node.inner?).bind fun q => q.level? path := by
  induction path with
  | nil => cases h : (p.nodes[i]?).bind Node.inner? <;> simp_all [level?]
  | cons j path ih =>
    rw [List.cons_append, level?, ih]
    cases (p.nodes[i]?).bind Node.inner? <;> rfl

/-- The node that an address below `p` ends in. -/
def post? (p : Pipeline) : Address → Option Node
  | [] => none
  | i :: path => (p.level? path).bind fun q => q.nodes[i]?

end Pipeline

mutual

def Body.tiers : Body → List (Address × Pipeline)
  | .source _ => []
  | .sink _ => []
  | .transform _ => []
  | .composite inner => inner.tiers

def Node.tiers : Node → List (Address × Pipeline)
  | ⟨_, _, _, body⟩ => body.tiers

/-- All levels of a pipeline, each with its address. -/
def Pipeline.tiers : Pipeline → List (Address × Pipeline)
  | ⟨id, name, options, channels, nodes⟩ =>
    ([], ⟨id, name, options, channels, nodes⟩) :: tiersFrom 0 nodes

def tiersFrom : Nat → List Node → List (Address × Pipeline)
  | _, [] => []
  | i, n :: rest => (n.tiers.map fun t => (t.1 ++ [i], t.2)) ++ tiersFrom (i + 1) rest

end

lemma mem_tiersFrom {nodes : List Node} {i j : Nat} {n : Node} {path : Address} {q : Pipeline}
    (hn : nodes[j]? = some n) (h : (path, q) ∈ n.tiers) :
    (path ++ [i + j], q) ∈ tiersFrom i nodes := by
  induction nodes generalizing i j with
  | nil => simp at hn
  | cons m rest ih =>
    rw [tiersFrom, List.mem_append]
    cases j with
    | zero =>
      obtain rfl : m = n := by simpa using hn
      exact .inl (List.mem_map.2 ⟨_, h, rfl⟩)
    | succ j =>
      have := ih (i := i + 1) (j := j) (by simpa using hn)
      rw [show i + 1 + j = i + (j + 1) by omega] at this
      exact .inr this

/-- A level below one of the nodes, with the way through that node. -/
lemma exists_of_mem_tiersFrom {nodes : List Node} {i : Nat} {t : Address × Pipeline}
    (h : t ∈ tiersFrom i nodes) : ∃ j n path, nodes[j]? = some n ∧ (path, t.2) ∈ n.tiers ∧
      t.1 = path ++ [i + j] := by
  induction nodes generalizing i with
  | nil => simp [tiersFrom] at h
  | cons m rest ih =>
    rw [tiersFrom, List.mem_append] at h
    rcases h with h | h
    · obtain ⟨⟨path, q⟩, ht, rfl⟩ := List.mem_map.1 h
      exact ⟨0, m, path, rfl, ht, rfl⟩
    · obtain ⟨j, n, path, hn, ht, hpath⟩ := ih h
      rw [show i + 1 + j = i + (j + 1) by omega] at hpath
      exact ⟨j + 1, n, path, by simpa using hn, ht, hpath⟩

namespace Pipeline

lemma tiers_eq (p : Pipeline) : p.tiers = ([], p) :: tiersFrom 0 p.nodes := by
  cases p
  rfl

lemma mem_node_tiers {n : Node} {t : Address × Pipeline} :
    t ∈ n.tiers ↔ ∃ inner, n.inner? = some inner ∧ t ∈ inner.tiers := by
  obtain ⟨_, _, _, body⟩ := n
  cases body <;> simp [Node.tiers, Body.tiers, Node.inner?]

/-- The levels of a pipeline are exactly what stands at its addresses. -/
theorem mem_tiers {p q : Pipeline} {path : Address} :
    (path, q) ∈ p.tiers ↔ p.level? path = some q := by
  induction p using nest_induction generalizing path with
  | step p ih =>
    rw [tiers_eq, List.mem_cons]
    induction path using List.reverseRecOn with
    | nil =>
      constructor
      · rintro (h | h)
        · rw [(Prod.mk.inj h).2, level?_nil]
        · obtain ⟨_, _, _, _, _, hpath⟩ := exists_of_mem_tiersFrom h
          simp at hpath
      · intro h
        rw [level?_nil, Option.some.injEq] at h
        exact .inl (by rw [h])
    | append_singleton path i _ =>
      rw [level?_append_singleton]
      constructor
      · rintro (h | h)
        · simp at h
        · obtain ⟨j, n, path', hn, ht, hpath⟩ := exists_of_mem_tiersFrom h
          obtain ⟨rfl, hj⟩ := List.append_inj' hpath rfl
          obtain rfl : i = j := by simpa using hj
          obtain ⟨inner, hi, hq⟩ := mem_node_tiers.1 ht
          simp [hn, hi, (ih n (List.mem_of_getElem? hn) inner hi).1 hq]
      · intro h
        obtain ⟨inner, hi, hq⟩ := Option.bind_eq_some_iff.1 h
        obtain ⟨n, hn, hi⟩ := Option.bind_eq_some_iff.1 hi
        have hmem := mem_node_tiers.2 ⟨inner, hi, (ih n (List.mem_of_getElem? hn) inner hi).2 hq⟩
        have := mem_tiersFrom (i := 0) hn hmem
        exact .inr (by simpa using this)

end Pipeline

end Dataflow
