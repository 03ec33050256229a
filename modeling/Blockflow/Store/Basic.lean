import Blockflow.Record
import Blockflow.Store.Name

/-!
# Stores

A store keeps one record under each key, in the order of the keys. The key of a record is its name
without the blanks around it, so names that differ only there are names of the same record. A name
that is not safe is refused and nothing is changed.

Records are kept on file. A record is what is read back from its file, which is the record itself
unless it has coordinates that are not finite: these have no written form.
-/

namespace Blockflow

/-- Records that can be kept in a store. -/
class Record (ρ : Type) where
  name : ρ → String
  diagram : ρ → Diagram
  toJson : HandleKeys → ρ → Json
  schema : Schema.Reader ρ

instance : Record SavedProject :=
  ⟨SavedProject.name, SavedProject.diagram, SavedProject.toJson, SavedProject.schema⟩

instance : Record SavedFunction :=
  ⟨SavedFunction.name, SavedFunction.subgraph, SavedFunction.toJson, SavedFunction.schema⟩

namespace Record

variable {ρ : Type} [Record ρ]

/-- The text in which a record is stored. -/
def fileText (record : ρ) : String := (toJson .file record).render .file

/-- The record that is read back from the file of a record. -/
def reread (record : ρ) : Checked ρ := schema [] (toJson .file record).readBack

end Record

/-! ## Dictionaries with increasing keys -/

namespace Dict

variable {α : Type}

/-- Are the keys increasing? -/
def Sorted (d : Dict α) : Prop := (d.map (·.1)).Pairwise (· < ·)

/-- Give a key a value in a dictionary whose keys are increasing. -/
def insert (key : String) (value : α) : Dict α → Dict α
  | [] => [(key, value)]
  | (k, v) :: rest =>
    if key < k then (key, value) :: (k, v) :: rest
    else if key = k then (key, value) :: rest
    else (k, v) :: insert key value rest

@[simp] theorem get?_insert (key other : String) (value : α) (d : Dict α) :
    get? other (d.insert key value) = if key = other then some value else get? other d := by
  induction d with
  | nil => simp [insert, get?]
  | cons entry rest ih =>
    obtain ⟨k, v⟩ := entry
    simp only [insert]
    split
    · rfl
    · split
      · next hk =>
        subst hk
        by_cases ho : key = other <;> simp [get?, ho]
      · next hk =>
        by_cases ho : k = other
        · subst ho
          simp [get?, hk]
        · simp [get?, ho, ih]

theorem mem_keys_insert {key k : String} {value : α} {d : Dict α}
    (h : k ∈ (d.insert key value).map (·.1)) : k = key ∨ k ∈ d.map (·.1) := by
  induction d with
  | nil => simpa [insert] using h
  | cons entry rest ih =>
    obtain ⟨k', v⟩ := entry
    simp only [insert] at h
    split at h
    · simpa using h
    · split at h
      · next hk => subst hk; simpa using h
      · simp only [List.map_cons, List.mem_cons] at h ⊢
        rcases h with h | h
        · exact .inr (.inl h)
        · exact (ih h).imp id .inr

theorem Sorted.insert {key : String} {value : α} {d : Dict α} (h : d.Sorted) :
    (d.insert key value).Sorted := by
  induction d with
  | nil => simp [Sorted, Dict.insert]
  | cons entry rest ih =>
    obtain ⟨k, v⟩ := entry
    simp only [Sorted, List.map_cons, List.pairwise_cons] at h
    obtain ⟨hk, hrest⟩ := h
    simp only [Dict.insert]
    split
    · next hlt =>
      simp only [Sorted, List.map_cons, List.pairwise_cons, List.mem_cons]
      exact ⟨fun a ha => ha.elim (· ▸ hlt) (String.lt_trans hlt <| hk a ·), hk, hrest⟩
    · next hlt =>
      split
      · next heq => subst heq; exact List.pairwise_cons.2 ⟨hk, hrest⟩
      · next hne =>
        refine List.pairwise_cons.2 ⟨fun a ha => ?_, ih hrest⟩
        rcases mem_keys_insert ha with rfl | ha
        · exact Std.lt_of_le_of_ne (String.not_lt.1 hlt) (Ne.symm hne)
        · exact hk a ha

theorem Sorted.erase {key : String} {d : Dict α} (h : d.Sorted) : (d.erase key).Sorted :=
  List.Pairwise.sublist (List.filter_sublist.map _) h

end Dict

/-! ## Stores -/

/-- Records by key, in the order of the keys. -/
structure Store (ρ : Type) where
  entries : Dict ρ := []
  sorted : entries.Sorted := by exact List.Pairwise.nil

namespace Store

variable {ρ : Type}

/-- The keys of the records. -/
def names (s : Store ρ) : List String := s.entries.keys

/-- Keep a record under its name, in place of the one that was there. -/
def save [Record ρ] (s : Store ρ) (record : ρ) : Except StoreError (Store ρ) := do
  let key ← checkName (Record.name record)
  if !(Record.diagram record).isWritable then throw .tooDeep
  checkFile key
  return { entries := s.entries.insert key record, sorted := s.sorted.insert }

/-- The record of a name as it was kept, if there is one. -/
def find (s : Store ρ) (name : String) : Except StoreError (Option ρ) := do
  return s.entries.get? (← fileKey name)

/-- The record of a name as it is read from its file, if there is one. -/
def load [Record ρ] (s : Store ρ) (name : String) : Except StoreError (Option ρ) := do
  match ← s.find name with
  | none => return none
  | some record =>
    match Record.reread record with
    | .ok record => return some record
    | .error faults => throw (.unreadable faults)

/-- Remove the record of a name; the truth value says whether there was one. -/
def delete (s : Store ρ) (name : String) : Except StoreError (Bool × Store ρ) := do
  let key ← fileKey name
  return (s.entries.has key, { entries := s.entries.erase key, sorted := s.sorted.erase })

/-- The record of a name that is safe as it stands; there is none of any other name. -/
def lookup [Record ρ] (s : Store ρ) (name : String) : Except StoreError (Option ρ) :=
  if isSafeLine name.toList then s.load name else .ok none

end Store

end Blockflow
