/-! # Fields sorted by key

A list of fields in strictly ascending order of their keys holds each key at most once, and
two such lists with the same look-ups are equal.
-/
namespace AssetCompiler

abbrev Fields (α : Type) := List (String × α)

namespace Fields

variable {α : Type}

/-- Puts a field at its place, instead of one with the same key. -/
def insert (key : String) (value : α) : Fields α → Fields α
  | [] => [(key, value)]
  | (k, v) :: rest =>
    if key = k then (key, value) :: rest
    else if key < k then (key, value) :: (k, v) :: rest
    else (k, v) :: insert key value rest

/-- Sorts fields; the last of each key wins. -/
def sort (fields : List (String × α)) : Fields α :=
  fields.foldl (fun sorted kv => insert kv.1 kv.2 sorted) []

def get? (fields : List (String × α)) (key : String) : Option α := fields.lookup key

@[simp] theorem get?_nil (key : String) : get? ([] : List (String × α)) key = none := rfl

theorem get?_cons (k key : String) (v : α) (rest : List (String × α)) :
    get? ((k, v) :: rest) key = if key = k then some v else get? rest key := by
  by_cases h : key = k
  · simp [get?, h]
  · have : (key == k) = false := by simpa using h
    simp [get?, List.lookup_cons, this, h]

/-- Inserting changes the look-up of its own key only. -/
theorem get?_insert (key other : String) (value : α) (fields : Fields α) :
    get? (insert key value fields) other =
      if other = key then some value else get? fields other := by
  induction fields with
  | nil => simp [insert, get?_cons]
  | cons kv rest ih =>
    obtain ⟨k, v⟩ := kv
    unfold insert
    split
    · rename_i h
      subst h
      by_cases ho : other = key <;> simp [get?_cons, ho]
    · split
      · simp [get?_cons]
      · rename_i hk _
        by_cases ho : other = k
        · have : other ≠ key := fun h => hk (h ▸ ho)
          simp [get?_cons, ho, Ne.symm hk]
        · simp [get?_cons, ho, ih]

end Fields

end AssetCompiler
