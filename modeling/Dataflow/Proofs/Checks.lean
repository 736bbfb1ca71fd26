import Dataflow.Proofs.Firing
import Dataflow.Proofs.Grammar
import Mathlib.Data.List.Nodup
import Mathlib.Tactic.SplitIfs

/-!
What each check of a definition asks for, one equivalence for each: the tables of type names and
kinds, the wiring of a node, the boundary of a composite, and the literals that suit a channel.
-/

namespace Dataflow

lemma Except.mapError_eq_ok {ε ε' α : Type} {f : ε → ε'} {x : Except ε α} {a : α} :
    x.mapError f = .ok a ↔ x = .ok a := by
  cases x <;> simp [Except.mapError]

lemma Except.bind_eq_ok {ε α β : Type} {x : Except ε α} {f : α → Except ε β} {b : β} :
    x >>= f = .ok b ↔ ∃ a, x = .ok a ∧ f a = .ok b := by
  cases x <;> simp [bind, Except.bind]

lemma Except.pure_eq_ok {ε α : Type} {a b : α} : (pure a : Except ε α) = .ok b ↔ a = b := by
  simp [pure, Except.pure]

lemma required_eq_ok {α : Type} {field : Option α} {item name : String} {a : α} :
    required field item name = .ok a ↔ field = some a := by
  cases field <;> simp [required]

/-! ### Names of types and kinds -/

/-- Where keys do not repeat, the entry that is found is the one that is there. -/
lemma find?_key_eq_some {α β : Type} [DecidableEq α] {entries : List (α × β)}
    (hnd : (entries.map Prod.fst).Nodup) {key : α} {b : β} :
    (entries.find? fun e => e.1 = key).map (·.2) = some b ↔ (key, b) ∈ entries := by
  rw [Option.map_eq_some_iff]
  constructor
  · rintro ⟨⟨k, b'⟩, hfind, rfl⟩
    have hkey : k = key := by simpa using List.find?_some hfind
    exact hkey ▸ List.mem_of_find?_eq_some hfind
  · intro hmem
    cases hfind : entries.find? fun e => e.1 = key with
    | none => simpa using List.find?_eq_none.1 hfind _ hmem
    | some e =>
      have hkey : e.1 = key := by simpa using List.find?_some hfind
      have heq : e = (key, b) :=
        List.inj_on_of_nodup_map hnd (List.mem_of_find?_eq_some hfind) hmem hkey
      exact ⟨e, rfl, by rw [heq]⟩

lemma ValueType.ofName?_eq_some {text : String} {type : ValueType} :
    ofName? text = some type ↔ ((Text.trim text).toLower, type) ∈ names :=
  find?_key_eq_some (by decide)

lemma NodeKind.ofName?_eq_some {text : String} {kind : NodeKind} :
    ofName? text = some kind ↔ text = kind.name := by
  unfold ofName?
  split <;> cases kind <;> simp_all [name]

lemma NodeDefinition.resolvedKind_eq_ok {item : String} {n : NodeDefinition} {kind : NodeKind} :
    resolvedKind item n = .ok kind ↔ n.HasKind kind := by
  unfold resolvedKind
  cases hk : n.kind with
  | some text =>
    have hname : NodeKind.ofName? (Text.trim text).toLower = some kind ↔ _ :=
      NodeKind.ofName?_eq_some
    have hhas : n.HasKind kind ↔ (Text.trim text).toLower = kind.name := by
      refine ⟨fun h => ?_, .explicit hk⟩
      cases h <;> simp_all
    rw [hhas, ← hname]
    simp only
    cases NodeKind.ofName? (Text.trim text).toLower <;> simp
  | none =>
    simp only [Except.ok.injEq, List.isEmpty_iff]
    constructor
    · rintro rfl
      split_ifs with hp hi ho
      · exact .composite hk (by simpa [Option.isSome_iff_ne_none] using hp)
      · exact .source hk (by simpa using hp) hi
      · exact .sink hk (by simpa using hp) hi ho
      · exact .transform hk (by simpa using hp) hi ho
    · intro h
      cases h <;> simp_all [Option.isSome_iff_ne_none]

/-! ### Wiring -/

lemma firstRepeated?_go_eq_none {seen names : List String} :
    firstRepeated?.go seen names = none ↔ names.Nodup ∧ ∀ x ∈ names, x ∉ seen := by
  induction names generalizing seen with
  | nil => simp [firstRepeated?.go]
  | cons x rest ih =>
    rw [firstRepeated?.go]
    by_cases hx : x ∈ seen
    · simp [hx]
    · rw [if_neg hx, ih, List.nodup_cons]
      constructor
      · rintro ⟨hnd, hall⟩
        refine ⟨⟨fun hmem => hall x hmem List.mem_cons_self, hnd⟩, ?_⟩
        rintro y (_ | ⟨_, hy⟩)
        · exact hx
        · exact fun hs => hall y hy (List.mem_cons_of_mem _ hs)
      · rintro ⟨⟨hxr, hnd⟩, hall⟩
        refine ⟨hnd, fun y hy => ?_⟩
        rintro (_ | ⟨_, hs⟩)
        · exact hxr hy
        · exact hall y (List.mem_cons_of_mem _ hy) hs

lemma firstRepeated?_eq_none {names : List String} :
    firstRepeated? names = none ↔ names.Nodup := by
  rw [firstRepeated?, firstRepeated?_go_eq_none]
  simp

namespace Node

variable {n m : Node}

lemma cardinalityFault?_eq_none {kind : NodeKind} {inputs outputs : List Channel} :
    cardinalityFault? kind inputs outputs = none ↔
      kind.Admits (inputs.map (·.name)) (outputs.map (·.name)) := by
  by_cases hi : inputs = [] <;> by_cases ho : outputs = [] <;> cases kind <;>
    simp [cardinalityFault?, NodeKind.Admits, hi, ho]

/-- What is asked of the wiring of a node. -/
lemma wiringFault?_eq_none : n.wiringFault? = none ↔ Text.trim n.name ≠ "" ∧
    n.kind.Admits n.ins n.outs ∧ n.ins.Nodup ∧ n.outs.Nodup ∧ ∀ x ∈ n.ins, x ∉ n.outs := by
  have hloop : ((n.inputs.find? fun i => n.outputs.any fun o => o.name = i.name).map
      (WiringFault.loop ·.name)) = none ↔ ∀ x ∈ n.ins, x ∉ n.outs := by
    simp [ins, outs]
  unfold wiringFault?
  rw [← hloop, ins, outs, ← cardinalityFault?_eq_none, ← firstRepeated?_eq_none,
    ← firstRepeated?_eq_none]
  split
  · next h => simp [h]
  · next h =>
    cases cardinalityFault? n.kind n.inputs n.outputs with
    | some fault => simp
    | none =>
      cases firstRepeated? (n.inputs.map (·.name)) with
      | some c => simp
      | none =>
        cases firstRepeated? (n.outputs.map (·.name)) <;> simp [h]

lemma checked_iff : n.checked = .ok m ↔ n.wiringFault? = none ∧ m = n := by
  unfold checked
  cases n.wiringFault? <;> simp [eq_comm]

/-- Logic of the right shape makes a body of each kind but one. -/
lemma exists_bodyOf {kind : NodeKind} {logic : Logic} (hk : kind ≠ .composite)
    (hs : logic.shape = kind.shape) : ∃ body, bodyOf kind logic = .ok body ∧ body.kind = kind := by
  cases kind with
  | source => exact ⟨.source logic, by simp [bodyOf, hs, NodeKind.shape], rfl⟩
  | sink => exact ⟨.sink logic, by simp [bodyOf, hs, NodeKind.shape], rfl⟩
  | transform => exact ⟨.transform logic, by simp [bodyOf, hs, NodeKind.shape], rfl⟩
  | composite => exact absurd rfl hk

variable {kind : NodeKind} {name : String} {inputs outputs : List Channel} {m : Node}

variable (name inputs outputs) in
lemma ofLogic_iff {logic : Logic} (hk : kind ≠ .composite) (hs : logic.shape = kind.shape) :
    ∃ body : Body, body.kind = kind ∧ ∀ m, ofLogic kind name inputs outputs logic = .ok m ↔
      (⟨name, inputs, outputs, body⟩ : Node).wiringFault? = none ∧
        m = ⟨name, inputs, outputs, body⟩ := by
  obtain ⟨body, hbody, hkind⟩ := exists_bodyOf hk hs
  exact ⟨body, hkind, fun m => by rw [ofLogic, hbody, ← checked_iff]⟩

lemma composite_iff {inner : Pipeline} {queued : Channel → Nat} {started : Bool} :
    composite name inputs outputs inner queued started = .ok m ↔
      inner.boundaryFault? queued started inputs outputs = none ∧
        (⟨name, inputs, outputs, .composite inner⟩ : Node).wiringFault? = none ∧
        m = ⟨name, inputs, outputs, .composite inner⟩ := by
  unfold composite
  cases inner.boundaryFault? queued started inputs outputs with
  | some fault => simp
  | none => simpa using checked_iff

end Node

/-! ### Boundaries -/

namespace Pipeline

variable {inner : Pipeline} {inputs outputs : List Channel}

lemma mem_consumed {p : Pipeline} {x : String} : x ∈ p.consumed ↔ x ∈ reads p.nodes := by
  rw [consumed, List.mem_mergeSort, List.mem_eraseDups]

lemma mem_produced {p : Pipeline} {x : String} : x ∈ p.produced ↔ x ∈ writes p.nodes := by
  rw [produced, List.mem_mergeSort, List.mem_eraseDups]

lemma nodup_eraseDups {l : List String} : l.eraseDups.Nodup := by
  induction h : l.length using Nat.strongRecOn generalizing l with
  | ind k ih =>
    subst h
    cases l with
    | nil => simp
    | cons x l =>
      rw [List.eraseDups_cons, List.nodup_cons, List.mem_eraseDups]
      exact ⟨by simp, ih _ (Nat.lt_succ_of_le (List.length_filter_le _ _)) rfl⟩

/-- Two lists of names that are sorted and free of repetition are equal if they have the same
members. -/
lemma eq_of_sorted {l l' : List String} (hs : l.Pairwise (· ≤ ·)) (hs' : l'.Pairwise (· ≤ ·))
    (hnd : l.Nodup) (hnd' : l'.Nodup) (h : ∀ x, x ∈ l ↔ x ∈ l') : l = l' :=
  List.Perm.eq_of_pairwise (fun _ _ _ _ => String.le_antisymm) hs hs'
    ((List.perm_ext_iff_of_nodup hnd hnd').2 h)

lemma pairwise_ordered (l : List String) : (l.mergeSort (· ≤ ·)).Pairwise (· ≤ ·) := by
  have htrans : ∀ a b c : String, decide (a ≤ b) = true → decide (b ≤ c) = true →
      decide (a ≤ c) = true := by
    intro a b c hab hbc
    rw [decide_eq_true_iff] at hab hbc ⊢
    exact String.le_trans hab hbc
  have htotal : ∀ a b : String, (decide (a ≤ b) || decide (b ≤ a)) = true := by
    intro a b
    simpa using String.le_total a b
  simpa using List.pairwise_mergeSort htrans htotal l

lemma inputsFault?_eq_none : inner.inputsFault? inputs = none ↔
    ∀ x, x ∈ inputs.map (·.name) ↔ x ∈ reads inner.nodes ∧ x ∉ writes inner.nodes := by
  have hmem : ∀ x, x ∈ inner.boundaryInputs ↔
      x ∈ reads inner.nodes ∧ x ∉ writes inner.nodes := by
    intro x
    rw [boundaryInputs, List.mem_filter, mem_consumed, decide_eq_true_iff, mem_produced]
  have hmem' : ∀ x, x ∈ (inputs.map (·.name)).eraseDups.mergeSort (· ≤ ·) ↔
      x ∈ inputs.map (·.name) := by
    intro x
    rw [List.mem_mergeSort, List.mem_eraseDups]
  unfold inputsFault?
  simp only [ite_eq_left_iff, reduceCtorEq, imp_false, not_not]
  constructor
  · intro heq x
    rw [← hmem', ← heq, hmem]
  · intro h
    refine eq_of_sorted ?_ (pairwise_ordered _) ?_ ?_ fun x => by rw [hmem, hmem', h]
    · exact (pairwise_ordered _).filter _
    · exact ((List.mergeSort_perm _ _).nodup_iff.2 nodup_eraseDups).filter _
    · exact (List.mergeSort_perm _ _).nodup_iff.2 nodup_eraseDups

/-- What is asked of a boundary. -/
lemma boundaryFault?_eq_none {queued : Channel → Nat} :
    inner.boundaryFault? queued false inputs outputs = none ↔
      (∀ x, x ∈ inputs.map (·.name) ↔ x ∈ reads inner.nodes ∧ x ∉ writes inner.nodes) ∧
      (∀ x ∈ outputs.map (·.name), x ∈ writes inner.nodes ∧ x ∉ reads inner.nodes) ∧
      (∀ c ∈ inputs ++ outputs, ∀ d, inner.channel? c.name = some d → d.type = c.type) ∧
      inner.checkSatisfiable queued (inputs.map (·.name)) = .ok () := by
  have houts : outputs.findSome? inner.outputFault? = none ↔
      ∀ x ∈ outputs.map (·.name), x ∈ writes inner.nodes ∧ x ∉ reads inner.nodes := by
    simp only [List.findSome?_eq_none_iff, List.forall_mem_map]
    refine forall₂_congr fun c _ => ?_
    unfold outputFault?
    by_cases hw : c.name ∈ writes inner.nodes <;> by_cases hr : c.name ∈ reads inner.nodes <;>
      simp [mem_produced, mem_consumed, hw, hr]
  have htypes : (inputs ++ outputs).findSome? inner.typeFault? = none ↔
      ∀ c ∈ inputs ++ outputs, ∀ d, inner.channel? c.name = some d → d.type = c.type := by
    rw [List.findSome?_eq_none_iff]
    refine forall₂_congr fun c _ => ?_
    unfold typeFault?
    cases inner.channel? c.name <;> simp
  unfold boundaryFault?
  simp only [Bool.false_eq_true, if_false, Option.or_eq_none_iff]
  rw [inputsFault?_eq_none, houts, htypes]
  cases inner.checkSatisfiable queued (inputs.map (·.name)) <;> simp

end Pipeline

/-! ### Literals -/

namespace Literal

variable {c : Channel} {l : Literal}

lemma toByte_isOk :
    (∃ b, l.toByte = .ok b) ↔ ∃ n, l = .integer n ∧ 0 ≤ n.toInt ∧ n.toInt < 256 := by
  cases l with
  | integer n =>
    simp only [toByte]
    split_ifs with h <;> simp [h]
  | _ => simp [toByte]

lemma toBytes_isOk {items : List Literal} : (∃ data, items.mapM toByte = .ok data) ↔
    ∀ l ∈ items, ∃ n, l = .integer n ∧ 0 ≤ n.toInt ∧ n.toInt < 256 := by
  induction items with
  | nil => simp [pure, Except.pure]
  | cons l items ih =>
    rw [List.forall_mem_cons, ← ih, ← toByte_isOk]
    simp only [List.mapM_cons, Except.bind_eq_ok, Except.pure_eq_ok]
    constructor
    · rintro ⟨-, b, hb, data, hdata, -⟩
      exact ⟨⟨b, hb⟩, data, hdata⟩
    · rintro ⟨⟨b, hb⟩, data, hdata⟩
      exact ⟨_, b, hb, data, hdata, rfl⟩

lemma convert_suits {type : ValueType} :
    (∃ v, convert type l = .ok v ∧ type.accepts v = true) ↔ l.Suits type := by
  constructor
  · rintro ⟨v, hv, hacc⟩
    cases type with
    | any => exact .any l
    | float =>
      cases l with
      | integer n => exact .widened n
      | float x => exact .float x
      | _ => cases hv; cases hacc
    | bytes =>
      cases l with
      | text s =>
        simp only [convert] at hv
        cases hd : Base64.decode s.toUTF8.toList with
        | error fault =>
          rw [hd] at hv
          cases hv
        | ok data => exact .encoded hd
      | sequence items =>
        simp only [convert, Except.bind_eq_ok] at hv
        obtain ⟨data, hdata, -⟩ := hv
        exact .listed (toBytes_isOk.1 ⟨data, hdata⟩)
      | _ => cases hv; cases hacc
    | _ => cases l <;> cases hv <;> first | constructor | cases hacc
  · intro h
    cases h with
    | @encoded s data h => exact ⟨.bytes data, by simp only [convert, h], rfl⟩
    | listed h =>
      obtain ⟨data, hdata⟩ := toBytes_isOk.2 h
      exact ⟨.bytes data, by simp [convert, hdata, bind, Except.bind, pure, Except.pure], rfl⟩
    | any l => exact ⟨l.toValue, by cases l <;> rfl, rfl⟩
    | _ => exact ⟨_, rfl, rfl⟩

lemma forChannel_eq_ok {v : Value} :
    l.forChannel c = .ok v ↔ convert c.type l = .ok v ∧ c.type.accepts v = true := by
  simp only [forChannel, Except.bind_eq_ok, Except.mapError_eq_ok, Except.pure_eq_ok,
    ← Channel.check_eq_ok_iff]
  constructor
  · rintro ⟨v, hconvert, ⟨⟩, hcheck, rfl⟩
    exact ⟨hconvert, hcheck⟩
  · rintro ⟨hconvert, hcheck⟩
    exact ⟨v, hconvert, (), hcheck, rfl⟩

lemma forChannel_isOk : (∃ v, l.forChannel c = .ok v) ↔ l.Suits c.type := by
  simp only [forChannel_eq_ok, convert_suits]

end Literal

end Dataflow
