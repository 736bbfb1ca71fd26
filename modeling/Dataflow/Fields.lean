/-!
Association lists in the order of their keys, with at most one entry for each key.
-/

namespace Dataflow.Fields

variable {α : Type}

/-- Puts an entry in its place; one with the same key gives way. -/
def put (key : String) (v : α) : List (String × α) → List (String × α)
  | [] => [(key, v)]
  | (k, u) :: rest =>
    if key < k then (key, v) :: (k, u) :: rest
    else if key = k then (key, v) :: rest
    else (k, u) :: put key v rest

/-- The entries in key order; of several with one key the last counts. -/
def ofList (entries : List (String × α)) : List (String × α) :=
  entries.foldl (fun acc (key, v) => put key v acc) []

theorem lookup_cons (j k : String) (u : α) (rest : List (String × α)) :
    ((j, u) :: rest).lookup k = if k = j then some u else rest.lookup k := by
  by_cases h : k = j
  · simp [h]
  · simp [List.lookup_cons, beq_eq_false_iff_ne.2 h, h]

/-- The entry that was put is the one that is found. -/
theorem lookup_put (key k : String) (v : α) (entries : List (String × α)) :
    (put key v entries).lookup k = if k = key then some v else entries.lookup k := by
  induction entries with
  | nil => simp [put, lookup_cons]
  | cons e rest ih =>
    obtain ⟨j, u⟩ := e
    unfold put
    split
    · simp [lookup_cons]
    · split
      · next h =>
        subst h
        simp only [lookup_cons]
        split <;> rfl
      · next hne =>
        simp only [lookup_cons, ih]
        by_cases hj : k = j
        · have : k ≠ key := fun h => hne (h ▸ hj)
          simp [hj, hj ▸ this]
        · simp [hj]

@[simp] theorem put_nil (key : String) (v : α) : put key v [] = [(key, v)] := rfl

@[simp] theorem ofList_nil : ofList ([] : List (String × α)) = [] := rfl

end Dataflow.Fields
