/-!
# Association lists in order of first insertion

The members of an object, the aliases of a table and the edges of a graph are pairs in the order
in which their keys first came up. A key that is put again keeps its place and takes the new value.
-/
namespace EditorTabs

abbrev Assoc (α β : Type) := List (α × β)

namespace Assoc

variable {α β : Type} [DecidableEq α]

def get? (key : α) : Assoc α β → Option β
  | [] => none
  | (k, v) :: rest => if k = key then some v else get? key rest

def keys (pairs : Assoc α β) : List α :=
  pairs.map (·.1)

/-- The pairs with a value put under a key: in the key's place, or at the end for a new key. -/
def put (key : α) (value : β) : Assoc α β → Assoc α β
  | [] => [(key, value)]
  | (k, v) :: rest => if k = key then (k, value) :: rest else (k, v) :: put key value rest

def erase (key : α) (pairs : Assoc α β) : Assoc α β :=
  pairs.filter (·.1 ≠ key)

/-- The pairs with all of a second list put on top, in its order. -/
def putAll (pairs news : Assoc α β) : Assoc α β :=
  news.foldl (fun acc pair => acc.put pair.1 pair.2) pairs

theorem get?_put_self (key : α) (value : β) (pairs : Assoc α β) :
    (pairs.put key value).get? key = some value := by
  induction pairs with
  | nil => simp [put, get?]
  | cons pair rest ih =>
    by_cases h : pair.1 = key <;> simp [put, get?, h, ih]

theorem get?_put_of_ne {key other : α} (h : key ≠ other) (value : β) (pairs : Assoc α β) :
    (pairs.put key value).get? other = pairs.get? other := by
  induction pairs with
  | nil => simp [put, get?, h]
  | cons pair rest ih =>
    by_cases hk : pair.1 = key
    · simp [put, get?, hk, h]
    · by_cases ho : pair.1 = other
      · simp [put, get?, ho, Ne.symm h]
      · simp [put, get?, hk, ho, ih]

theorem keys_put (key : α) (value : β) (pairs : Assoc α β) :
    (pairs.put key value).keys =
      if key ∈ pairs.keys then pairs.keys else pairs.keys ++ [key] := by
  induction pairs with
  | nil => simp [put, keys]
  | cons pair rest ih =>
    by_cases h : pair.1 = key
    · simp [put, keys, h]
    · have h' : key ≠ pair.1 := fun e => h e.symm
      simp only [keys] at ih
      by_cases hm : key ∈ rest.map (·.1) <;> simp_all [put, keys]

theorem get?_eq_none_iff (key : α) (pairs : Assoc α β) :
    pairs.get? key = none ↔ key ∉ pairs.keys := by
  induction pairs with
  | nil => simp [get?, keys]
  | cons pair rest ih =>
    by_cases h : pair.1 = key
    · simp [get?, keys, h]
    · have h' : key ≠ pair.1 := fun e => h e.symm
      simpa [get?, keys, h, h'] using ih

end Assoc

end EditorTabs
