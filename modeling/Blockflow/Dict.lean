/-!
# Dictionaries in insertion order

A dictionary is the list of its entries in the order in which their keys first came. Overwriting a
key keeps its place.
-/

namespace Blockflow

abbrev Dict (α : Type) := List (String × α)

namespace Dict

variable {α : Type}

/-- The value of the first entry with this key. -/
def get? (key : String) : Dict α → Option α
  | [] => none
  | (k, v) :: rest => if k = key then some v else get? key rest

def has (key : String) (d : Dict α) : Bool := (d.get? key).isSome

/-- Give a key a value: in its old place if it is present, at the end otherwise. -/
def put (key : String) (value : α) : Dict α → Dict α
  | [] => [(key, value)]
  | (k, v) :: rest => if k = key then (k, value) :: rest else (k, v) :: put key value rest

/-- Remove the entries with this key. -/
def erase (key : String) (d : Dict α) : Dict α := d.filter (·.1 ≠ key)

def keys (d : Dict α) : List String := d.map (·.1)

@[simp] theorem get?_nil (key : String) : get? key ([] : Dict α) = none := rfl

@[simp] theorem get?_put (key other : String) (value : α) (d : Dict α) :
    get? other (put key value d) = if key = other then some value else get? other d := by
  induction d with
  | nil => simp [put, get?]
  | cons entry rest ih =>
    obtain ⟨k, v⟩ := entry
    by_cases hk : k = key
    · subst hk
      by_cases ho : k = other <;> simp [put, get?, ho]
    · by_cases ho : k = other
      · subst ho
        simp [put, get?, hk, Ne.symm hk]
      · simp [put, get?, hk, ho, ih]

@[simp] theorem get?_erase (key other : String) (d : Dict α) :
    get? other (erase key d) = if key = other then none else get? other d := by
  induction d with
  | nil => simp [erase]
  | cons entry rest ih =>
    obtain ⟨k, v⟩ := entry
    simp only [erase] at ih ⊢
    by_cases hk : k = key
    · subst hk
      by_cases ho : k = other <;> simp_all [get?]
    · by_cases ho : k = other
      · subst ho
        simp [hk, get?, Ne.symm hk]
      · simp_all [get?]

theorem length_erase_lt {key : String} {value : α} {d : Dict α} (h : d.get? key = some value) :
    (d.erase key).length < d.length := by
  induction d with
  | nil => simp at h
  | cons entry rest ih =>
    obtain ⟨k, v⟩ := entry
    have hle : (rest.filter (·.1 ≠ key)).length ≤ rest.length := List.length_filter_le ..
    simp only [erase] at ih ⊢
    by_cases hk : k = key
    · rw [List.filter_cons_of_neg (by simpa using hk), List.length_cons]
      omega
    · rw [List.filter_cons_of_pos (by simpa using hk)]
      have := ih (by simpa [get?, hk] using h)
      simp only [List.length_cons]
      omega

end Dict

end Blockflow
