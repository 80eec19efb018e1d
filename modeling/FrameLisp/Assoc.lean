/-!
Association lists in which a key stands at most once, in the order in which the keys came. Inserting
a key changes what that key is found to have and nothing else (`get?_insert`), and adds the key at
the end if it was not there (`keys_insert`).
-/
namespace FrameLisp

namespace Assoc

variable {α β : Type} [DecidableEq α]

/-- Replaces the value of a key in place, or adds the key at the end. -/
def insert (key : α) (value : β) : List (α × β) → List (α × β)
  | [] => [(key, value)]
  | (other, old) :: rest =>
    if key = other then (key, value) :: rest else (other, old) :: insert key value rest

/-- Inserts pairs one after the other. -/
def insertAll (entries pairs : List (α × β)) : List (α × β) :=
  pairs.foldl (fun entries (key, value) => insert key value entries) entries

/-- The value of a key. -/
def get? (key : α) (entries : List (α × β)) : Option β := entries.lookup key

/-- The keys, in order. -/
def keys (entries : List (α × β)) : List α := entries.map Prod.fst

theorem get?_cons (key other : α) (value : β) (entries : List (α × β)) :
    get? other ((key, value) :: entries) =
      if other = key then some value else get? other entries := by
  by_cases same : other = key
  · simp [get?, same]
  · simp [get?, List.lookup_cons, same, beq_false_of_ne same]

theorem get?_insert (key other : α) (value : β) (entries : List (α × β)) :
    get? other (insert key value entries) =
      if other = key then some value else get? other entries := by
  induction entries with
  | nil => rw [insert, get?_cons]
  | cons entry rest ih =>
    obtain ⟨first, old⟩ := entry
    by_cases here : key = first
    · subst here
      by_cases same : other = key <;> simp [insert, get?_cons, same]
    · by_cases same : other = first
      · have apart : first ≠ key := fun h => here h.symm
        simp [insert, get?_cons, here, same, apart]
      · simp [insert, get?_cons, here, same, ih]

theorem keys_insert (key : α) (value : β) (entries : List (α × β)) :
    keys (insert key value entries) =
      if key ∈ keys entries then keys entries else keys entries ++ [key] := by
  induction entries with
  | nil => simp [insert, keys]
  | cons entry rest ih =>
    obtain ⟨first, old⟩ := entry
    by_cases here : key = first
    · simp [insert, keys, here]
    · simp only [keys] at ih
      by_cases inside : key ∈ rest.map Prod.fst <;> simp_all [insert, keys]

end Assoc

end FrameLisp
