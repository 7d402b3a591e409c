/-!
# Dictionaries

A dictionary is a list of entries by ascending key, at most one a key. `insert` and `erase` keep
that order, so that two dictionaries with the same entries are equal, and writing one lists its keys
in order. `get?` answers what was inserted last.
-/
namespace TokenKeeper

abbrev Dict (α : Type) := List (String × α)

namespace Dict

variable {α β : Type}

def get? : Dict α → String → Option α
  | [], _ => none
  | (k, v) :: rest, key => if k = key then some v else get? rest key

def contains (d : Dict α) (key : String) : Bool :=
  (get? d key).isSome

def insert : Dict α → String → α → Dict α
  | [], key, value => [(key, value)]
  | (k, v) :: rest, key, value =>
    if k = key then (key, value) :: rest
    else if key < k then (key, value) :: (k, v) :: rest
    else (k, v) :: insert rest key value

def erase : Dict α → String → Dict α
  | [], _ => []
  | (k, v) :: rest, key => if k = key then erase rest key else (k, v) :: erase rest key

def insertAll (d : Dict α) (entries : List (String × α)) : Dict α :=
  entries.foldl (fun d e => insert d e.1 e.2) d

def ofList (entries : List (String × α)) : Dict α :=
  insertAll [] entries

def keys (d : Dict α) : List String :=
  d.map (·.1)

@[simp] theorem get?_nil (key : String) : get? ([] : Dict α) key = none := rfl

theorem get?_insert (d : Dict α) (key : String) (value : α) (other : String) :
    get? (insert d key value) other = if key = other then some value else get? d other := by
  induction d with
  | nil => simp [insert, get?]
  | cons e rest ih =>
    obtain ⟨k, v⟩ := e
    by_cases hk : k = key
    · by_cases ho : key = other <;> simp_all [insert, get?]
    · by_cases hlt : key < k
      · simp [insert, hk, hlt, get?]
      · by_cases ho : k = other
        · subst ho; simp [insert, hk, hlt, get?, Ne.symm hk]
        · simp [insert, hk, hlt, get?, ho, ih]

theorem get?_erase (d : Dict α) (key other : String) :
    get? (erase d key) other = if key = other then none else get? d other := by
  induction d with
  | nil => simp [erase, get?]
  | cons e rest ih =>
    obtain ⟨k, v⟩ := e
    by_cases hk : k = key <;> by_cases ho : key = other <;> simp_all [erase, get?]

end Dict
end TokenKeeper
