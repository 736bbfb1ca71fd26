import Dataflow.Proofs.Tree

/-!
What the workers of a run have done, told from the moves. A move that takes a value, calls logic,
goes inside, comes out, publishes or reports is a deed, and a chronicle is a play together with
the deeds that were done in it, in their order.

The deeds of one worker make up its diary; the deeds that concern one channel say which values
came to it and which left it.
-/

namespace Dataflow

inductive Deed where
  /-- The worker at `a` took `v` from its input `c`. -/
  | took (a : Address) (c : Channel) (v : Value)
  | called (a : Address) (inputs : Payload) (reply : Reply)
  /-- The composite at `a` started its inner pipeline with `inputs` as seeds. -/
  | entered (a : Address) (inputs : Payload)
  /-- The composite at `a` took `v` from the channel `c` inside it. -/
  | gained (a : Address) (c : Channel) (v : Value)
  /-- The composite at `a` has got all its outputs from inside. -/
  | left (a : Address) (produced : Payload)
  | sent (a : Address) (c : Channel) (v : Value)
  | told (a : Address) (result : Except ExecutionError Unit)

namespace Deed

/-- Who did it. -/
def actor : Deed → Address
  | took a _ _ => a
  | called a _ _ => a
  | entered a _ => a
  | gained a _ _ => a
  | left a _ => a
  | sent a _ _ => a
  | told a _ => a

def taken? (a : Address) : Deed → Option (Channel × Value)
  | took b c v => if b = a then some (c, v) else none
  | _ => none

def called? (a : Address) : Deed → Option (Payload × Reply)
  | called b inputs reply => if b = a then some (inputs, reply) else none
  | _ => none

def entered? (a : Address) : Deed → Option Payload
  | entered b inputs => if b = a then some inputs else none
  | _ => none

def gained? (a : Address) : Deed → Option (Channel × Value)
  | gained b c v => if b = a then some (c, v) else none
  | _ => none

/-- What the body of the worker at `a` came to: what its logic returned, or what it got from
inside. -/
def result? (a : Address) : Deed → Option Payload
  | called b _ (.returned outputs) => if b = a then some outputs else none
  | left b produced => if b = a then some produced else none
  | _ => none

def sent? (a : Address) : Deed → Option (Channel × Value)
  | sent b c v => if b = a then some (c, v) else none
  | _ => none

def told? (a : Address) : Deed → Option (Except ExecutionError Unit)
  | told b result => if b = a then some result else none
  | _ => none

def takenFrom? (c : Channel) : Deed → Option Value
  | took _ d v => if d = c then some v else none
  | _ => none

def gainedFrom? (c : Channel) : Deed → Option Value
  | gained _ d v => if d = c then some v else none
  | _ => none

def sentTo? (c : Channel) : Deed → Option Value
  | sent _ d v => if d = c then some v else none
  | _ => none

end Deed

/-- What one worker has done, each kind of deed in its order. -/
structure Diary where
  taken : List (Channel × Value) := []
  called : List (Payload × Reply) := []
  entered : List Payload := []
  gained : List (Channel × Value) := []
  results : List Payload := []
  sent : List (Channel × Value) := []
  told : List (Except ExecutionError Unit) := []

namespace Diary

def append (d e : Diary) : Diary where
  taken := d.taken ++ e.taken
  called := d.called ++ e.called
  entered := d.entered ++ e.entered
  gained := d.gained ++ e.gained
  results := d.results ++ e.results
  sent := d.sent ++ e.sent
  told := d.told ++ e.told

instance : Append Diary := ⟨append⟩

lemma append_def (d e : Diary) : d ++ e = ⟨d.taken ++ e.taken, d.called ++ e.called,
    d.entered ++ e.entered, d.gained ++ e.gained, d.results ++ e.results, d.sent ++ e.sent,
    d.told ++ e.told⟩ := rfl

@[simp] lemma append_empty (d : Diary) : d ++ ({} : Diary) = d := by simp [append_def]

end Diary

variable {ds es : List Deed} {a b : Address} {c : Channel} {v : Value}

/-- What the worker at `a` has done. -/
def diary (ds : List Deed) (a : Address) : Diary where
  taken := ds.filterMap (Deed.taken? a)
  called := ds.filterMap (Deed.called? a)
  entered := ds.filterMap (Deed.entered? a)
  gained := ds.filterMap (Deed.gained? a)
  results := ds.filterMap (Deed.result? a)
  sent := ds.filterMap (Deed.sent? a)
  told := ds.filterMap (Deed.told? a)

/-- The values that readers took from the channel, in their order. -/
def takenFrom (ds : List Deed) (c : Channel) : List Value := ds.filterMap (Deed.takenFrom? c)

/-- The values that a composite took from the channel inside it. -/
def gainedFrom (ds : List Deed) (c : Channel) : List Value := ds.filterMap (Deed.gainedFrom? c)

/-- The values that writers published on the channel, in their order. -/
def sentTo (ds : List Deed) (c : Channel) : List Value := ds.filterMap (Deed.sentTo? c)

@[simp] lemma diary_nil (a : Address) : diary [] a = {} := rfl

@[simp] lemma takenFrom_nil (c : Channel) : takenFrom [] c = [] := rfl

@[simp] lemma gainedFrom_nil (c : Channel) : gainedFrom [] c = [] := rfl

@[simp] lemma sentTo_nil (c : Channel) : sentTo [] c = [] := rfl

lemma diary_append (ds es : List Deed) (a : Address) :
    diary (ds ++ es) a = diary ds a ++ diary es a := by
  simp [diary, Diary.append_def]

lemma takenFrom_append (ds es : List Deed) (c : Channel) :
    takenFrom (ds ++ es) c = takenFrom ds c ++ takenFrom es c := List.filterMap_append

lemma gainedFrom_append (ds es : List Deed) (c : Channel) :
    gainedFrom (ds ++ es) c = gainedFrom ds c ++ gainedFrom es c := List.filterMap_append

lemma sentTo_append (ds es : List Deed) (c : Channel) :
    sentTo (ds ++ es) c = sentTo ds c ++ sentTo es c := List.filterMap_append

/-- Nobody else's deeds are in a diary. -/
lemma diary_of_actors (h : ∀ d ∈ es, d.actor ≠ a) : diary es a = {} := by
  have none_of {β : Type} {f : Deed → Option β} (hf : ∀ d : Deed, d.actor ≠ a → f d = none) :
      es.filterMap f = [] := List.filterMap_eq_nil_iff.2 fun d hd => hf d (h d hd)
  have htaken : ∀ d : Deed, d.actor ≠ a → d.taken? a = none := by
    intro d hd
    unfold Deed.taken?
    split
    exacts [if_neg hd, rfl]
  have hcalled : ∀ d : Deed, d.actor ≠ a → d.called? a = none := by
    intro d hd
    unfold Deed.called?
    split
    exacts [if_neg hd, rfl]
  have hentered : ∀ d : Deed, d.actor ≠ a → d.entered? a = none := by
    intro d hd
    unfold Deed.entered?
    split
    exacts [if_neg hd, rfl]
  have hgained : ∀ d : Deed, d.actor ≠ a → d.gained? a = none := by
    intro d hd
    unfold Deed.gained?
    split
    exacts [if_neg hd, rfl]
  have hresult : ∀ d : Deed, d.actor ≠ a → d.result? a = none := by
    intro d hd
    unfold Deed.result?
    split
    exacts [if_neg hd, if_neg hd, rfl]
  have hsent : ∀ d : Deed, d.actor ≠ a → d.sent? a = none := by
    intro d hd
    unfold Deed.sent?
    split
    exacts [if_neg hd, rfl]
  have htold : ∀ d : Deed, d.actor ≠ a → d.told? a = none := by
    intro d hd
    unfold Deed.told?
    split
    exacts [if_neg hd, rfl]
  simp only [diary, none_of htaken, none_of hcalled, none_of hentered, none_of hgained,
    none_of hresult, none_of hsent, none_of htold]

lemma filterMap_self {β : Type} {f : Deed → Option β} {d : Deed} {y : β} (h : f d = some y) :
    [d].filterMap f = [y] := by
  rw [List.filterMap_cons_some h, List.filterMap_nil]

lemma diary_took (a : Address) (c : Channel) (v : Value) :
    diary [.took a c v] a = { taken := [(c, v)] } :=
  congrArg (fun es => ({ taken := es } : Diary)) (filterMap_self (if_pos rfl))

lemma diary_returned (a : Address) (inputs outputs : Payload) :
    diary [.called a inputs (.returned outputs)] a =
      { called := [(inputs, .returned outputs)], results := [outputs] } :=
  congrArg₂ (fun calls results => ({ called := calls, results := results } : Diary))
    (filterMap_self (if_pos rfl)) (filterMap_self (if_pos rfl))

lemma diary_crashed {reply : Reply} (a : Address) (inputs : Payload)
    (h : ∀ outputs, reply ≠ .returned outputs) :
    diary [.called a inputs reply] a = { called := [(inputs, reply)] } := by
  cases reply with
  | returned outputs => exact absurd rfl (h outputs)
  | _ => exact congrArg (fun calls => ({ called := calls } : Diary)) (filterMap_self (if_pos rfl))

lemma diary_entered (a : Address) (inputs : Payload) :
    diary [.entered a inputs] a = { entered := [inputs] } :=
  congrArg (fun inside => ({ entered := inside } : Diary)) (filterMap_self (if_pos rfl))

lemma diary_gained_one (a : Address) (e : Channel × Value) :
    diary [.gained a e.1 e.2] a = { gained := [e] } :=
  congrArg (fun es => ({ gained := es } : Diary)) (filterMap_self (if_pos rfl))

lemma diary_gained (a : Address) (gains : List (Channel × Value)) :
    diary (gains.map fun e => .gained a e.1 e.2) a = { gained := gains } := by
  induction gains with
  | nil => rfl
  | cons e rest ih =>
    rw [List.map_cons, ← List.singleton_append, diary_append, ih, diary_gained_one]
    rfl

lemma diary_left (a : Address) (produced : Payload) :
    diary [.left a produced] a = { results := [produced] } :=
  congrArg (fun results => ({ results := results } : Diary)) (filterMap_self (if_pos rfl))

lemma diary_sent (a : Address) (c : Channel) (v : Value) :
    diary [.sent a c v] a = { sent := [(c, v)] } :=
  congrArg (fun es => ({ sent := es } : Diary)) (filterMap_self (if_pos rfl))

lemma diary_told (a : Address) (result : Except ExecutionError Unit) :
    diary [.told a result] a = { told := [result] } :=
  congrArg (fun said => ({ told := said } : Diary)) (filterMap_self (if_pos rfl))

lemma mem_diary_taken : (c, v) ∈ (diary ds a).taken ↔ .took a c v ∈ ds := by
  refine ⟨fun h => ?_, fun h => List.mem_filterMap.2 ⟨_, h, if_pos rfl⟩⟩
  obtain ⟨d, hd, hv⟩ := List.mem_filterMap.1 h
  cases d with
  | took b e x =>
    obtain ⟨rfl, rfl, rfl⟩ : b = a ∧ e = c ∧ x = v := by simpa [Deed.taken?] using hv
    exact hd
  | _ => simp [Deed.taken?] at hv

lemma mem_diary_sent : (c, v) ∈ (diary ds a).sent ↔ .sent a c v ∈ ds := by
  refine ⟨fun h => ?_, fun h => List.mem_filterMap.2 ⟨_, h, by simp [Deed.sent?]⟩⟩
  obtain ⟨d, hd, hv⟩ := List.mem_filterMap.1 h
  cases d with
  | sent b e x =>
    obtain ⟨rfl, rfl, rfl⟩ : b = a ∧ e = c ∧ x = v := by simpa [Deed.sent?] using hv
    exact hd
  | _ => simp [Deed.sent?] at hv

lemma mem_diary_told {result : Except ExecutionError Unit} :
    result ∈ (diary ds a).told ↔ .told a result ∈ ds := by
  refine ⟨fun h => ?_, fun h => List.mem_filterMap.2 ⟨_, h, by simp [Deed.told?]⟩⟩
  obtain ⟨d, hd, hv⟩ := List.mem_filterMap.1 h
  cases d with
  | told b result' =>
    obtain ⟨rfl, rfl⟩ : b = a ∧ result' = result := by simpa [Deed.told?] using hv
    exact hd
  | _ => simp [Deed.told?] at hv

lemma mem_sentTo : v ∈ sentTo ds c ↔ ∃ a, .sent a c v ∈ ds := by
  refine ⟨fun h => ?_, fun ⟨a, h⟩ => List.mem_filterMap.2 ⟨_, h, if_pos rfl⟩⟩
  obtain ⟨d, hd, hv⟩ := List.mem_filterMap.1 h
  cases d with
  | sent a e x =>
    obtain ⟨rfl, rfl⟩ : e = c ∧ x = v := by simpa [Deed.sentTo?] using hv
    exact ⟨a, hd⟩
  | _ => cases hv

lemma mem_takenFrom : v ∈ takenFrom ds c ↔ ∃ a, .took a c v ∈ ds := by
  refine ⟨fun h => ?_, fun ⟨a, h⟩ => List.mem_filterMap.2 ⟨_, h, if_pos rfl⟩⟩
  obtain ⟨d, hd, hv⟩ := List.mem_filterMap.1 h
  cases d with
  | took a e x =>
    obtain ⟨rfl, rfl⟩ : e = c ∧ x = v := by simpa [Deed.takenFrom?] using hv
    exact ⟨a, hd⟩
  | _ => cases hv

lemma mem_gainedFrom : v ∈ gainedFrom ds c ↔ ∃ a, .gained a c v ∈ ds := by
  refine ⟨fun h => ?_, fun ⟨a, h⟩ => List.mem_filterMap.2 ⟨_, h, if_pos rfl⟩⟩
  obtain ⟨d, hd, hv⟩ := List.mem_filterMap.1 h
  cases d with
  | gained a e x =>
    obtain ⟨rfl, rfl⟩ : e = c ∧ x = v := by simpa [Deed.gainedFrom?] using hv
    exact ⟨a, hd⟩
  | _ => cases hv

/-- The values of a list of labelled values that carry this label. -/
def valuesOn (es : List (Channel × Value)) (c : Channel) : List Value :=
  (es.filter fun e => e.1 = c).map Prod.snd

@[simp] lemma valuesOn_nil (c : Channel) : valuesOn [] c = [] := rfl

lemma valuesOn_cons (d : Channel) (x : Value) (es : List (Channel × Value)) (c : Channel) :
    valuesOn ((d, x) :: es) c = if d = c then x :: valuesOn es c else valuesOn es c := by
  by_cases h : d = c <;> simp [valuesOn, h]

lemma valuesOn_append (es fs : List (Channel × Value)) (c : Channel) :
    valuesOn (es ++ fs) c = valuesOn es c ++ valuesOn fs c := by simp [valuesOn]

lemma valuesOn_of_notMem {es : List (Channel × Value)} (h : c ∉ es.map Prod.fst) :
    valuesOn es c = [] := by
  have hnone : ∀ e ∈ es, ¬ (e.1 = c) := fun e he heq => h (heq ▸ List.mem_map_of_mem he)
  simpa [valuesOn, List.filter_eq_nil_iff] using hnone

lemma length_valuesOn (es : List (Channel × Value)) (c : Channel) :
    (valuesOn es c).length = (es.map Prod.fst).count c := by
  induction es with
  | nil => rfl
  | cons e rest ih =>
    rw [valuesOn_cons, List.map_cons, List.count_cons]
    by_cases he : e.1 = c <;> simp [he, ih]

/-- What is said of a channel, deed by deed. -/
lemma valuesOn_filterMap (f : Deed → Option (Channel × Value)) (ds : List Deed) (c : Channel) :
    valuesOn (ds.filterMap f) c =
      ds.filterMap fun d => (f d).bind fun e => if e.1 = c then some e.2 else none := by
  induction ds with
  | nil => rfl
  | cons d rest ih =>
    rw [List.filterMap_cons, List.filterMap_cons, ← ih]
    cases hf : f d with
    | none => rfl
    | some e => by_cases he : e.1 = c <;> simp [valuesOn, he]

/-- What concerns a channel is what concerns it in the deeds of one worker, if nobody else has
anything to do with the channel. -/
lemma bind_of_only {e : Channel} {x : Value} (h : e = c → b = a) :
    (if e = c then some x else none) = (if b = a then some (e, x) else none).bind
      fun y => if y.1 = c then some y.2 else none := by
  by_cases he : e = c
  · rw [if_pos (h he), Option.bind_some]
  · by_cases hb : b = a
    · rw [if_pos hb, Option.bind_some]
    · rw [if_neg hb, if_neg he, Option.bind_none]

/-- If only one worker publishes on a channel, its diary says what was published there. -/
lemma sentTo_eq (h : ∀ b x, .sent b c x ∈ ds → b = a) :
    sentTo ds c = valuesOn (diary ds a).sent c := by
  refine Eq.trans (List.filterMap_congr fun d hd => ?_) (valuesOn_filterMap _ _ _).symm
  cases d with
  | sent b e x => exact bind_of_only fun he => h b x (he ▸ hd)
  | _ => rfl

lemma takenFrom_eq (h : ∀ b x, .took b c x ∈ ds → b = a) :
    takenFrom ds c = valuesOn (diary ds a).taken c := by
  refine Eq.trans (List.filterMap_congr fun d hd => ?_) (valuesOn_filterMap _ _ _).symm
  cases d with
  | took b e x => exact bind_of_only fun he => h b x (he ▸ hd)
  | _ => rfl

lemma gainedFrom_eq (h : ∀ b x, .gained b c x ∈ ds → b = a) :
    gainedFrom ds c = valuesOn (diary ds a).gained c := by
  refine Eq.trans (List.filterMap_congr fun d hd => ?_) (valuesOn_filterMap _ _ _).symm
  cases d with
  | gained b e x => exact bind_of_only fun he => h b x (he ▸ hd)
  | _ => rfl

lemma valuesOn_prefix {es fs : List (Channel × Value)} (h : es <+: fs) (c : Channel) :
    valuesOn es c <+: valuesOn fs c := (h.filter _).map _

lemma gainedFrom_gained (a : Address) (gains : List (Channel × Value)) (c : Channel) :
    gainedFrom (gains.map fun e => .gained a e.1 e.2) c = valuesOn gains c := by
  induction gains with
  | nil => rfl
  | cons e rest ih =>
    rw [valuesOn_cons, ← ih, List.map_cons, ← List.singleton_append, gainedFrom_append]
    by_cases he : e.1 = c <;> simp [gainedFrom, Deed.gainedFrom?, he]

lemma takenFrom_gained (a : Address) (gains : List (Channel × Value)) (c : Channel) :
    takenFrom (gains.map fun e => .gained a e.1 e.2) c = [] := by
  simp [takenFrom, List.filterMap_map, Function.comp_def, Deed.takenFrom?]

lemma sentTo_gained (a : Address) (gains : List (Channel × Value)) (c : Channel) :
    sentTo (gains.map fun e => .gained a e.1 e.2) c = [] := by
  simp [sentTo, List.filterMap_map, Function.comp_def, Deed.sentTo?]

/-! ### Deeds of a move -/

namespace World

/-- The values that a composite takes from inside, each with its channel there. -/
def collections (w : World) (inner : Pipeline) : List Channel → List (Channel × Value)
  | [] => []
  | o :: rest =>
    match inner.channel? o.name with
    | none => []
    | some c =>
      match w.tryReceive c with
      | (none, _) => []
      | (some v, w') => (c, v) :: w'.collections inner rest

/-- What the worker `k` at `a` does with its next step. -/
def workerDeeds (w : World) (a : Address) (k : Worker) (expired : Bool) : List Deed :=
  match k.stage with
  | .gathering _ (c :: _) =>
    match (w.poll a c (some k.token) (if expired then k.limit else none)).1 with
    | some (.ok v) => [.took a c v]
    | _ => []
  | .calling logic inputs => [.called a inputs (logic.act w.calls inputs).reply]
  | .entering inner inputs =>
    if w.started inner.id = false ∧ (w.validate inner inputs).isOk then [.entered a inputs] else []
  | .inside inner =>
    match (w.runs a).map Run.collector with
    | some (.returned (.ok _)) =>
      (w.collections inner k.node.outputs).map (fun e => .gained a e.1 e.2) ++
        match (w.takeOutputs inner .empty k.node.outputs).1 with
        | .ok produced => [.left a produced]
        | .error _ => []
    | _ => []
  | .sending ((c, v) :: _) _ => if c.type.accepts v then [.sent a c v] else []
  | .ended result => [.told a result]
  | _ => []

/-- The deeds of the worker at `a` in its next step. -/
def workDeeds (w : World) (a : Address) (expired : Bool) : List Deed :=
  match w.workers a with
  | none => []
  | some k => w.workerDeeds a k expired

def deeds (w : World) : Move → List Deed
  | .work a => w.workDeeds a false
  | .expire a => w.workDeeds a true
  | _ => []

/-- A play, told with the deeds that were done in it. -/
inductive Chronicle (r : Address) (env : World → World → Prop) (w : World) :
    List Move → List Deed → World → Prop where
  | start : Chronicle r env w [] [] w
  | move {ms : List Move} {ds : List Deed} {v u : World} {m : Move}
      (before : Chronicle r env w ms ds v) (own : m.Of r) (step : v.step? m = some u) :
      Chronicle r env w (ms ++ [m]) (ds ++ v.deeds m) u
  | await {ms : List Move} {ds : List Deed} {v : World} (before : Chronicle r env w ms ds v) :
      Chronicle r env w ms ds (v.await r)
  | others {ms : List Move} {ds : List Deed} {v u : World} (before : Chronicle r env w ms ds v)
      (act : env v u) : Chronicle r env w ms ds u

lemma Plays.mono {r : Address} {env env' : World → World → Prop} {w v : World} {ms : List Move}
    (h : w.Plays r env ms v) (henv : ∀ u u', env u u' → env' u u') : w.Plays r env' ms v := by
  induction h with
  | start => exact .start
  | move _ own step ih => exact .move ih own step
  | await _ ih => exact .await ih
  | others _ act ih => exact .others ih (henv _ _ act)

lemma Chronicle.mono {r : Address} {env env' : World → World → Prop} {w v : World}
    {ms : List Move} {ds : List Deed} (h : w.Chronicle r env ms ds v)
    (henv : ∀ u u', env u u' → env' u u') : w.Chronicle r env' ms ds v := by
  induction h with
  | start => exact .start
  | move _ own step ih => exact .move ih own step
  | await _ ih => exact .await ih
  | others _ act ih => exact .others ih (henv _ _ act)

lemma Chronicle.plays {r : Address} {env : World → World → Prop} {w v : World} {ms : List Move}
    {ds : List Deed} (h : w.Chronicle r env ms ds v) : w.Plays r env ms v := by
  induction h with
  | start => exact .start
  | move _ own step ih => exact .move ih own step
  | await _ ih => exact .await ih
  | others _ act ih => exact .others ih act

/-- Every play can be told. -/
theorem exists_chronicle {r : Address} {env : World → World → Prop} {w v : World}
    {ms : List Move} (h : w.Plays r env ms v) : ∃ ds, w.Chronicle r env ms ds v := by
  induction h with
  | start => exact ⟨[], .start⟩
  | move _ own step ih =>
    obtain ⟨ds, hds⟩ := ih
    exact ⟨_, .move hds own step⟩
  | await _ ih =>
    obtain ⟨ds, hds⟩ := ih
    exact ⟨ds, .await hds⟩
  | others _ act ih =>
    obtain ⟨ds, hds⟩ := ih
    exact ⟨ds, .others hds act⟩

/-! ### What a step does, with its deeds -/

/-- The steps of the worker `k` at `a`, each with the deeds that it adds to the chronicle and
with what it does to the queues. -/
inductive Doing (w w' : World) (a : Address) (k : Worker) : List Deed → Prop where
  | waited {got : Payload} {c : Channel} {rest : List Channel} {f : Nat → Conduit Address}
      (stage : k.stage = .gathering got (c :: rest)) (shift : w.Shift w' a k k.stage f)
      (queues : ∀ x, (f x).queue = (w.conduits x).queue) : Doing w w' a k []
  | took {got : Payload} {c : Channel} {rest : List Channel} {v : Value}
      {f : Nat → Conduit Address} (stage : k.stage = .gathering got (c :: rest))
      (shift : w.Shift w' a k (k.node.gather (got.insert c.name v) rest) f)
      (queue : (w.conduits c.id).queue = v :: (f c.id).queue)
      (others : ∀ x, x ≠ c.id → f x = w.conduits x) : Doing w w' a k [.took a c v]
  | failed {e : ExecutionError} {f : Nat → Conduit Address}
      (early : (∃ got rest, k.stage = .gathering got rest) ∨
        (∃ inner inputs, k.stage = .entering inner inputs) ∨
        (∃ inner, k.stage = .inside inner) ∨ ∃ produced, k.stage = .checking produced)
      (shift : w.Shift w' a k (.ended (.error e)) f)
      (queues : ∀ x, (f x).queue = (w.conduits x).queue) : Doing w w' a k []
  | called {logic : Logic} {inputs outputs : Payload} (stage : k.stage = .calling logic inputs)
      (reply : (logic.act w.calls inputs).reply = .returned outputs)
      (shift : w.Shift w' a k (.checking (if k.node.kind = .sink then .empty else outputs))
        w.conduits) : Doing w w' a k [.called a inputs (.returned outputs)]
  | crashed {logic : Logic} {inputs : Payload} {e : ExecutionError}
      (stage : k.stage = .calling logic inputs)
      (reply : ∀ outputs, (logic.act w.calls inputs).reply ≠ .returned outputs)
      (shift : w.Shift w' a k (.ended (.error e)) w.conduits) :
      Doing w w' a k [.called a inputs (logic.act w.calls inputs).reply]
  | entered {inner : Pipeline} {inputs : Payload} {id : Nat}
      (stage : k.stage = .entering inner inputs) (entry : w.Entered w' a k inner id inputs) :
      Doing w w' a k [.entered a inputs]
  | left {inner : Pipeline} {run : Run} {produced : Payload} (stage : k.stage = .inside inner)
      (inner_run : w.runs a = some run) (finished : run.Over)
      (taken : (w.takeOutputs inner .empty k.node.outputs).1 = .ok produced)
      (shift : w.Shift w' a k (.checking produced)
        (w.takeOutputs inner .empty k.node.outputs).2.conduits) :
      Doing w w' a k ((w.collections inner k.node.outputs).map
        (fun e => .gained a e.1 e.2) ++ [.left a produced])
  | missed {inner : Pipeline} {e : ExecutionError} (stage : k.stage = .inside inner)
      (shift : w.Shift w' a k (.ended (.error e))
        (w.takeOutputs inner .empty k.node.outputs).2.conduits) :
      Doing w w' a k ((w.collections inner k.node.outputs).map fun e => .gained a e.1 e.2)
  | checked {produced : Payload} {ready : List (Channel × Value)}
      (stage : k.stage = .checking produced) (fits : (k.node.prepare produced).2 = .ok ready)
      (shift : w.Shift w' a k (.sending ready ready.length) w.conduits) : Doing w w' a k []
  | sent {c : Channel} {v : Value} {rest : List (Channel × Value)} {total : Nat}
      (stage : k.stage = .sending ((c, v) :: rest) total)
      (shift : w.Shift w' a k (.sending rest total)
        (update w.conduits c.id ((w.conduit c).send v))) : Doing w w' a k [.sent a c v]
  | unsent {c : Channel} {v : Value} {rest : List (Channel × Value)} {total : Nat}
      {e : ExecutionError} (stage : k.stage = .sending ((c, v) :: rest) total)
      (misfit : c.type.accepts v = false)
      (shift : w.Shift w' a k (.ended (.error e)) w.conduits) : Doing w w' a k []
  | finished {total : Nat} (stage : k.stage = .sending [] total)
      (shift : w.Shift w' a k (.ended (.ok ())) w.conduits) : Doing w w' a k []
  | told {result : Except ExecutionError Unit} (stage : k.stage = .ended result)
      (told : w.Told w' a k result) : Doing w w' a k [.told a result]

variable {w w' : World} {k : Worker} {expired : Bool}

lemma queues_update {f : Nat → Conduit Address} {y : Nat} {q : Conduit Address}
    (h : q.queue = (f y).queue) (x : Nat) : (update f y q x).queue = (f x).queue := by
  by_cases hx : x = y
  · rw [hx, update_same, h]
  · rw [update_of_ne hx]

/-! What is written down of the steps in which more than one thing could have happened. -/

section

variable {got inputs produced : Payload} {c : Channel} {rest : List Channel} {v : Value}
  {q₁ q₂ : Conduit Address} {inner : Pipeline} {run : Run} {report : Report}

lemma workerDeeds_of_linedUp (hs : k.stage = .gathering got (c :: rest))
    (halive : w.isCancelled k.token = false) (hempty : (w.conduit c).usePermit? a = none) :
    w.workerDeeds a k expired = [] := by
  simp only [workerDeeds, hs, poll, Option.any_some, halive, hempty, Bool.false_eq_true, if_false]
  cases if expired then k.limit else none <;> rfl

lemma workerDeeds_of_took (hs : k.stage = .gathering got (c :: rest))
    (halive : w.isCancelled k.token = false) (hpermit : (w.conduit c).usePermit? a = some q₁)
    (hpop : q₁.pop? = some (v, q₂)) : w.workerDeeds a k expired = [.took a c v] := by
  simp [workerDeeds, hs, poll, halive, hpermit, hpop]

lemma workerDeeds_of_foundNothing (hs : k.stage = .gathering got (c :: rest))
    (hpermit : (w.conduit c).usePermit? a = some q₁) (hpop : q₁.pop? = none) :
    w.workerDeeds a k expired = [] := by
  simp only [workerDeeds, hs, poll, hpermit, hpop]
  cases h : Option.any w.isCancelled (some k.token) <;> rfl

/-- A worker that gave up took nothing: had there been a permit for it, it would have gone on. -/
lemma workerDeeds_of_gaveUp {e : ExecutionError} (hk : w.workers a = some k)
    (hs : k.stage = .gathering got (c :: rest)) (h : w.work? a expired = some w')
    (hended : w'.workers a = some { k with stage := .ended (.error e) }) :
    w.workerDeeds a k expired = [] := by
  have hgather : w.gatherStep a k expired got c rest = some w' := by
    simpa only [work?, hk, hs] using h
  simp only [workerDeeds, hs]
  split
  · next v hv =>
    -- the stage that such a poll leads to is not the end
    unfold gatherStep at hgather
    rcases hp : w.poll a c (some k.token) (if expired then k.limit else none) with ⟨reply, u⟩
    rw [hp] at hv hgather
    obtain rfl : reply = some (.ok v) := hv
    obtain rfl := Option.some.inj hgather
    have hstage := congrArg Worker.stage (Option.some.inj ((update_same _ _ _).symm.trans hended))
    rcases rest with _ | ⟨d, rest⟩
    · obtain ⟨⟨_, _, _, body⟩, _, _, _⟩ := k
      cases body <;> cases hstage
    · cases hstage
  · rfl

lemma validate_of_entered (hk : w.workers a = some k) (hs : k.stage = .entering inner inputs)
    (h : w.work? a expired = some w')
    (hinside : w'.workers a = some { k with stage := .inside inner }) :
    w.validate inner inputs = .ok () := by
  have henter : w.enterStep a k inner inputs = w' := by
    simpa only [work?, hk, hs, Option.some.injEq] using h
  subst henter
  unfold enterStep at hinside
  generalize hv : (w.say (.compositeEntered k.node.name inner.name)).takeFresh = r at hinside
  obtain ⟨id, v⟩ := r
  obtain rfl : ({ w.say (.compositeEntered k.node.name inner.name) with fresh := w.fresh + 1 } :
    World) = v := congrArg Prod.snd hv
  simp only at hinside
  cases hstart : World.start _ a inner inputs (id :: k.token) true with
  | error e =>
    rw [hstart] at hinside
    have hstage := congrArg Worker.stage (Option.some.inj ((update_same _ _ _).symm.trans hinside))
    cases hstage
  | ok u => exact (start_eq_ok hstart).2.1

lemma workerDeeds_of_entered (hk : w.workers a = some k) (hs : k.stage = .entering inner inputs)
    (hnew : w.started inner.id = false) (h : w.work? a expired = some w')
    (hinside : w'.workers a = some { k with stage := .inside inner }) :
    w.workerDeeds a k expired = [.entered a inputs] := by
  have hvalid := validate_of_entered hk hs h hinside
  simp only [workerDeeds, hs, hnew, hvalid, Except.isOk, Except.toBool, and_self, if_true]

lemma workerDeeds_of_refused (hs : k.stage = .entering inner inputs)
    (hwhy : w.started inner.id = true ∨ w.validate inner inputs ≠ .ok ()) :
    w.workerDeeds a k expired = [] := by
  simp only [workerDeeds, hs]
  rcases hwhy with hnew | hvalid
  · simp [hnew]
  · cases hv : w.validate inner inputs with
    | error e => simp [Except.isOk, Except.toBool]
    | ok u => exact absurd hv hvalid

lemma workerDeeds_of_left (hs : k.stage = .inside inner) (hrun : w.runs a = some run)
    (hreturned : run.collector = .returned (.ok report))
    (htaken : (w.takeOutputs inner .empty k.node.outputs).1 = .ok produced) :
    w.workerDeeds a k expired = (w.collections inner k.node.outputs).map
      (fun e => .gained a e.1 e.2) ++ [.left a produced] := by
  simp only [workerDeeds, hs, hrun, Option.map_some, hreturned, htaken]

lemma workerDeeds_of_missed {x : String} (hs : k.stage = .inside inner)
    (hrun : w.runs a = some run) (hreturned : run.collector = .returned (.ok report))
    (htaken : (w.takeOutputs inner .empty k.node.outputs).1 = .error x) :
    w.workerDeeds a k expired = (w.collections inner k.node.outputs).map
      fun e => .gained a e.1 e.2 := by
  simp only [workerDeeds, hs, hrun, Option.map_some, hreturned, htaken, List.append_nil]

end

/-- **Every step of a worker** is one of these, with these deeds. -/
theorem doing_of_work? (hk : w.workers a = some k) (h : w.work? a expired = some w') :
    w.Doing w' a k (w.workDeeds a expired) := by
  have hst := stride_of_worker hk h
  simp only [workDeeds, hk]
  cases hst with
  | linedUp stage alive empty new shift =>
    rw [workerDeeds_of_linedUp stage alive empty]
    exact .waited stage shift fun x => queues_update (Conduit.queue_enqueue _ _) x
  | took stage alive permit pop shift =>
    rw [workerDeeds_of_took stage alive permit pop]
    refine .took stage shift ?_ fun x hx => update_of_ne hx
    rw [update_same]
    exact Conduit.queue_take permit pop
  | @foundNothing got c rest q₁ stage permit pop shift =>
    have hq : q₁.queue = (w.conduit c).queue := by
      rcases Conduit.usePermit?_eq_some permit with ⟨-, rfl⟩ | ⟨-, -, rfl⟩ <;> rfl
    rw [workerDeeds_of_foundNothing stage permit pop]
    exact .failed (.inl ⟨_, _, stage⟩) shift fun x => queues_update hq x
  | gaveUp stage why shift =>
    rw [workerDeeds_of_gaveUp hk stage h (shift.workers ▸ update_same w.workers a _)]
    exact .failed (.inl ⟨_, _, stage⟩) shift fun x => queues_update (Conduit.queue_abandon _ _) x
  | entered stage new entry =>
    rw [workerDeeds_of_entered hk stage new h entry.worker_self]
    exact .entered stage entry
  | refused stage why shift =>
    rw [workerDeeds_of_refused stage why]
    exact .failed (.inr (.inl ⟨_, _, stage⟩)) shift fun _ => rfl
  | left stage inner_run returned taken shift =>
    rw [workerDeeds_of_left stage inner_run returned taken]
    exact .left stage inner_run ⟨_, returned⟩ taken shift
  | missed stage inner_run returned taken shift =>
    rw [workerDeeds_of_missed stage inner_run returned taken]
    exact .missed stage shift
  | called stage reply shift =>
    simp only [workerDeeds, stage, reply]
    exact .called stage reply shift
  | crashed stage reply shift =>
    simp only [workerDeeds, stage]
    exact .crashed stage reply shift
  | innerFailed stage inner_run returned shift =>
    simp only [workerDeeds, stage, inner_run, Option.map_some, returned]
    exact .failed (.inr (.inr (.inl ⟨_, stage⟩))) shift fun _ => rfl
  | checked stage fits shift =>
    simp only [workerDeeds, stage]
    exact .checked stage fits shift
  | rejected stage misfit shift =>
    simp only [workerDeeds, stage]
    exact .failed (.inr (.inr (.inr ⟨_, stage⟩))) shift fun _ => rfl
  | sent stage fits shift =>
    simp only [workerDeeds, stage, fits, if_true]
    exact .sent stage shift
  | unsent stage misfit shift =>
    simp only [workerDeeds, stage, misfit, Bool.false_eq_true, if_false]
    exact .unsent stage misfit shift
  | finished stage shift =>
    simp only [workerDeeds, stage]
    exact .finished stage shift
  | told stage told =>
    simp only [workerDeeds, stage]
    exact .told stage told

end World

end Dataflow
