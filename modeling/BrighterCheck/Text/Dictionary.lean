/-!
# Dictionaries

A dictionary is a list of entries in strictly increasing order of their keys. Storing under a key
that is present replaces the entry, so that `find?` answers what was stored last (`find?_insert`).
-/

namespace BrighterCheck

/-- Values under keys, in increasing order of the keys. -/
abbrev Dictionary (κ α : Type) := List (κ × α)

namespace Dictionary

variable {κ α : Type} [LT κ] [DecidableLT κ] [DecidableEq κ]

/-- The dictionary with `value` stored under `key`. -/
def insert (key : κ) (value : α) : Dictionary κ α → Dictionary κ α
  | [] => [(key, value)]
  | (k, v) :: rest =>
    if key < k then (key, value) :: (k, v) :: rest
    else if key = k then (key, value) :: rest
    else (k, v) :: insert key value rest

omit [LT κ] [DecidableLT κ] in
/-- The value stored under `key`. -/
def find? (d : Dictionary κ α) (key : κ) : Option α :=
  match d with
  | [] => none
  | (k, v) :: rest => if key = k then some v else find? rest key

/-- What is found is what was stored last under the key. -/
theorem find?_insert (d : Dictionary κ α) (key k : κ) (value : α) :
    (insert key value d).find? k = if k = key then some value else d.find? k := by
  induction d with
  | nil => simp [insert, find?]
  | cons entry rest ih =>
    obtain ⟨k', v⟩ := entry
    simp only [insert]
    split
    · simp [find?]
    · split
      · subst_vars
        simp only [find?]
        split <;> rfl
      · rename_i h
        simp only [find?, ih]
        split
        · rename_i h'
          rw [if_neg fun e => h (e.symm.trans h')]
        · rfl

end Dictionary

end BrighterCheck
