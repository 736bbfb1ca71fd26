import Dataflow.Value

/-!
Payloads: values under names, at most one for each. Logic is given a payload with its inputs by
channel name and returns one with its outputs; the seeds of a run are a payload too. The entries
keep the order in which they were put in, which nothing may depend on.
-/

namespace Dataflow

structure Payload where
  entries : List (String × Value)
  nodup_keys : (entries.map Prod.fst).Nodup

namespace Payload

def empty : Payload := ⟨[], List.nodup_nil⟩

instance : Inhabited Payload := ⟨empty⟩

def keys (p : Payload) : List String := p.entries.map Prod.fst

def get? (p : Payload) (key : String) : Option Value := p.entries.lookup key

theorem nodup_filter_keys {entries : List (String × Value)} (h : (entries.map Prod.fst).Nodup)
    (keep : String × Value → Bool) : ((entries.filter keep).map Prod.fst).Nodup :=
  h.sublist (List.filter_sublist.map _)

def erase (p : Payload) (key : String) : Payload :=
  ⟨p.entries.filter fun e => e.1 ≠ key, nodup_filter_keys p.nodup_keys _⟩

/-- The value under `key` becomes `v`. -/
def insert (p : Payload) (key : String) (v : Value) : Payload where
  entries := (p.erase key).entries ++ [(key, v)]
  nodup_keys := by
    rw [List.map_append, List.nodup_append]
    refine ⟨(p.erase key).nodup_keys, by simp, ?_⟩
    intro a ha b hb
    simp only [List.map_cons, List.map_nil, List.mem_singleton] at hb
    obtain ⟨e, he, rfl⟩ := List.mem_map.1 ha
    have := (List.mem_filter.1 he).2
    simp_all

/-- Of several values under one key the last counts. -/
def ofList (entries : List (String × Value)) : Payload :=
  entries.foldl (fun p (k, v) => p.insert k v) empty

def singleton (key : String) (v : Value) : Payload := empty.insert key v

def isEmpty (p : Payload) : Bool := p.entries.isEmpty

@[simp] theorem entries_empty : empty.entries = [] := rfl

@[simp] theorem keys_empty : empty.keys = [] := rfl

@[simp] theorem get?_empty (key : String) : empty.get? key = none := rfl

@[simp] theorem entries_erase (p : Payload) (key : String) :
    (p.erase key).entries = p.entries.filter fun e => e.1 ≠ key := rfl

@[simp] theorem entries_insert (p : Payload) (key : String) (v : Value) :
    (p.insert key v).entries = (p.erase key).entries ++ [(key, v)] := rfl

end Payload

end Dataflow
