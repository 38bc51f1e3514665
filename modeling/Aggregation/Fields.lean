/-!
# Keyed fields

Documents, objects and bindings are all lists of keyed entries.  Two ways of
adding an entry are used: `Fields.insert` keeps a key where it first stood, and
`Fields.place` keeps the keys in ascending order.  Either way a key occurs once,
and the last value given for it counts.
-/

namespace Aggregation

abbrev Fields (α : Type) := List (String × α)

namespace Fields

variable {α : Type}

def keys (fields : Fields α) : List String :=
  fields.map Prod.fst

/-- The first value under a key. -/
def get? : Fields α → String → Option α
  | [], _ => none
  | (k, v) :: rest, key => if k = key then some v else get? rest key

def contains (fields : Fields α) (key : String) : Bool :=
  (get? fields key).isSome

/-- A key already present keeps its place and takes the new value; a new key
goes last. -/
def insert : Fields α → String → α → Fields α
  | [], key, value => [(key, value)]
  | (k, v) :: rest, key, value =>
    if k = key then (k, value) :: rest else (k, v) :: insert rest key value

/-- Inserts pairs one after another. -/
def ofPairs (pairs : List (String × α)) : Fields α :=
  pairs.foldl (fun fields pair => insert fields pair.1 pair.2) []

/-- Puts a new key before the first greater one; a key already present takes the
new value. -/
def place : Fields α → String → α → Fields α
  | [], key, value => [(key, value)]
  | (k, v) :: rest, key, value =>
    if k = key then (k, value) :: rest
    else if key < k then (key, value) :: (k, v) :: rest
    else (k, v) :: place rest key value

def placeAll (pairs : List (String × α)) : Fields α :=
  pairs.foldl (fun fields pair => place fields pair.1 pair.2) []

@[simp]
theorem get?_nil (key : String) : get? ([] : Fields α) key = none := rfl

theorem get?_insert (fields : Fields α) (key other : String) (value : α) :
    get? (insert fields key value) other =
      if key = other then some value else get? fields other := by
  induction fields with
  | nil => simp [insert, get?]
  | cons entry rest ih =>
    obtain ⟨k, v⟩ := entry
    by_cases hk : k = key
    · subst hk
      by_cases ho : k = other <;> simp [insert, get?, ho]
    · by_cases ho : k = other
      · subst ho
        simp [insert, get?, hk, Ne.symm hk]
      · simp [insert, get?, hk, ho, ih]

theorem get?_place (fields : Fields α) (key other : String) (value : α) :
    get? (place fields key value) other =
      if key = other then some value else get? fields other := by
  induction fields with
  | nil => simp [place, get?]
  | cons entry rest ih =>
    obtain ⟨k, v⟩ := entry
    by_cases hk : k = key
    · subst hk
      by_cases ho : k = other <;> simp [place, get?, ho]
    · by_cases hlt : key < k
      · simp [place, get?, hk, hlt]
      · by_cases ho : k = other
        · subst ho
          simp [place, get?, hk, hlt, Ne.symm hk]
        · simp [place, get?, hk, hlt, ho, ih]

end Fields

end Aggregation
