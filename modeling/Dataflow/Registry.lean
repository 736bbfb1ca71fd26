import Dataflow.Logic.Stock
import Dataflow.Text.Quoted

/-!
Registries: the logic that definitions may name. A definition can reach nothing else, and its
keys are only compared, never evaluated.
-/

namespace Dataflow

structure Registry where
  entries : List (String × Logic)

namespace Registry

def empty : Registry := ⟨[]⟩

instance : Inhabited Registry := ⟨empty⟩

def get? (r : Registry) (key : String) : Option Logic := r.entries.lookup key

/-- The logic under `key` becomes `logic`. -/
def insert (r : Registry) (key : String) (logic : Logic) : Registry :=
  ⟨Fields.put key logic r.entries⟩

def contains (r : Registry) (key : String) : Bool := (r.get? key).isSome

/-- In order. -/
def keys (r : Registry) : List String := r.entries.map Prod.fst

def size (r : Registry) : Nat := r.entries.length

def isEmpty (r : Registry) : Bool := r.entries.isEmpty

def ofList (entries : List (String × Logic)) : Registry :=
  entries.foldl (fun r (key, logic) => r.insert key logic) empty

def inspect (r : Registry) : String :=
  Text.record "LogicRegistry" [("keys", Text.bracketed (r.keys.map Text.quoted))]

/-- A small registry for trying things out. -/
def sample : Registry :=
  ofList
    [("sum", .pure .function (Logic.Stock.sum ["x", "y"] "sum")),
     ("sum_inputs", .pure .function (Logic.Stock.sum ["input1", "input2"] "sum")),
     ("multiply", .pure .function (Logic.Stock.product ["sum", "multiplier"] "output")),
     ("two_and_three", .pure .producer
       (Logic.Stock.const (.ofList [("input1", .integer 2), ("input2", .integer 3)]))),
     ("print", Logic.Stock.record .function "print")]

end Registry

end Dataflow
