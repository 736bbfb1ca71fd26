import Dataflow.Value

/-!
The state of a channel: the values that wait in it, and the permits that ration them.

A sender puts its value at the end of the queue and then adds one permit. A receiver needs a
permit before it may take the value at the front. A permit is free, or it is granted to the
receiver that waited longest; a receiver that gives up passes its permit on. Receivers are known
by an identity in `ι`, and each has at most one receive under way.
-/

namespace Dataflow

structure Conduit (ι : Type) where
  queue : List Value := []
  /-- Permits that nobody holds. -/
  free : Nat := 0
  /-- Receivers without a permit, in order of arrival. -/
  waiting : List ι := []
  /-- Receivers that hold a permit and have not used it yet. -/
  granted : List ι := []
deriving Inhabited

namespace Conduit

variable {ι : Type}

/-- The first half of a send. -/
def push (c : Conduit ι) (v : Value) : Conduit ι := { c with queue := c.queue ++ [v] }

/-- A permit goes to the receiver that waited longest, or stays free. -/
def release (c : Conduit ι) : Conduit ι :=
  match c.waiting with
  | [] => { c with free := c.free + 1 }
  | r :: rest => { c with waiting := rest, granted := c.granted ++ [r] }

def send (c : Conduit ι) (v : Value) : Conduit ι := (c.push v).release

/-- The receiver gets in line. -/
def enqueue (c : Conduit ι) (r : ι) : Conduit ι := { c with waiting := c.waiting ++ [r] }

def pop? (c : Conduit ι) : Option (Value × Conduit ι) :=
  match c.queue with
  | [] => none
  | v :: rest => some (v, { c with queue := rest })

/-- A receiver that does not wait takes a free permit or nothing. -/
def takeFree? (c : Conduit ι) : Option (Conduit ι) :=
  if 0 < c.free then some { c with free := c.free - 1 } else none

def tryReceive (c : Conduit ι) : Option Value × Conduit ι :=
  match c.takeFree? with
  | none => (none, c)
  | some c' =>
    match c'.pop? with
    | none => (none, c')
    | some (v, rest) => (some v, rest)

@[simp] theorem queue_push (c : Conduit ι) (v : Value) : (c.push v).queue = c.queue ++ [v] := rfl

@[simp] theorem queue_release (c : Conduit ι) : c.release.queue = c.queue := by
  unfold release; split <;> rfl

@[simp] theorem queue_send (c : Conduit ι) (v : Value) : (c.send v).queue = c.queue ++ [v] := by
  simp [send]

@[simp] theorem queue_enqueue (c : Conduit ι) (r : ι) : (c.enqueue r).queue = c.queue := rfl

variable [DecidableEq ι]

/-- The receiver gives up. If it held a permit, the next in line gets it. -/
def abandon (c : Conduit ι) (r : ι) : Conduit ι :=
  if r ∈ c.granted then release { c with granted := c.granted.erase r }
  else { c with waiting := c.waiting.erase r }

/-- The receiver uses up a permit: its own if one was granted to it, else a free one. -/
def usePermit? (c : Conduit ι) (r : ι) : Option (Conduit ι) :=
  if r ∈ c.granted then some { c with granted := c.granted.erase r }
  else if r ∉ c.waiting ∧ 0 < c.free then some { c with free := c.free - 1 }
  else none

@[simp] theorem queue_abandon (c : Conduit ι) (r : ι) : (c.abandon r).queue = c.queue := by
  unfold abandon; split <;> simp

end Conduit

end Dataflow
