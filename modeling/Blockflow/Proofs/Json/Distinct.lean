import Blockflow.Diagram.Schema
import Blockflow.Proofs.Json.Reading

/-!
# Values without repeated keys

A JSON value that was read from a text has no object with a repeated key (`Json.distinct_of_parse`).
What a schema takes from such a value is again without repeated keys. Here this is followed as far
as the data of the blocks of a diagram.
-/

namespace Blockflow

/-! ## Dictionaries -/

namespace Dict

variable {α : Type} {key : String} {value : α}

/-- An entry of a changed dictionary is the new one or an old one. -/
theorem mem_put {entry : String × α} : ∀ {d : Dict α}, entry ∈ d.put key value →
    entry = (key, value) ∨ entry ∈ d
  | [], h => .inl (List.mem_singleton.mp h)
  | (k, v) :: rest, h => by
    rw [put] at h
    split at h
    next hk =>
      subst hk
      exact (List.mem_cons.mp h).imp id (List.mem_cons_of_mem _)
    next =>
      rcases List.mem_cons.mp h with heq | h
      · exact .inr (List.mem_cons.mpr (.inl heq))
      · exact (mem_put h).imp id (List.mem_cons_of_mem _)

/-- A new key takes the last place. -/
theorem put_of_notMem : ∀ {d : Dict α}, key ∉ d.keys → d.put key value = d ++ [(key, value)]
  | [], _ => rfl
  | (k, v) :: rest, h => by
    have hne : k ≠ key := fun heq => h (heq ▸ List.mem_cons_self)
    have hrest : key ∉ keys rest := fun hmem => h (List.mem_cons_of_mem _ hmem)
    rw [put, if_neg hne, put_of_notMem hrest, List.cons_append]

/-- Putting an entry repeats no key. -/
theorem nodup_keys_put : ∀ {d : Dict α}, d.keys.Nodup → (d.put key value).keys.Nodup
  | [], _ => by simp [put, keys]
  | (k, v) :: rest, h => by
    obtain ⟨hk, hrest⟩ := List.nodup_cons.mp h
    rw [put]
    split
    next => exact h
    next hne =>
      refine List.nodup_cons.mpr ⟨fun hmem => ?_, nodup_keys_put hrest⟩
      obtain ⟨entry, hentry, rfl⟩ := List.mem_map.mp hmem
      rcases mem_put hentry with rfl | hentry
      · exact hne rfl
      · exact hk (List.mem_map.mpr ⟨entry, hentry, rfl⟩)

/-- What is found under a key is an entry. -/
theorem mem_of_get? : ∀ {d : Dict α}, d.get? key = some value → (key, value) ∈ d
  | (k, v) :: rest, h => by
    rw [get?] at h
    split at h
    next hk =>
      subst hk
      cases h
      exact List.mem_cons_self
    next => exact List.mem_cons_of_mem _ (mem_of_get? h)

/-- If no key is repeated, every entry is found under its key. -/
theorem get?_of_mem : ∀ {d : Dict α}, d.keys.Nodup → (key, value) ∈ d → d.get? key = some value
  | (k, v) :: rest, hnodup, h => by
    obtain ⟨hk, hrest⟩ := List.nodup_cons.mp hnodup
    rw [get?]
    rcases List.mem_cons.mp h with heq | hmem
    · cases heq
      exact if_pos rfl
    · have hne : k ≠ key := fun heq => hk (heq ▸ List.mem_map.mpr ⟨_, hmem, rfl⟩)
      rw [if_neg hne, get?_of_mem hrest hmem]

end Dict

namespace Json

/-! ## Values -/

/-- Neither a list nor an object. -/
def IsScalar : Json → Prop
  | .arr _ | .obj _ => False
  | _ => True

/-- No object inside of the value has a repeated key. -/
inductive Distinct : Json → Prop where
  | scalar {value : Json} : value.IsScalar → Distinct value
  | arr {items : List Json} : (∀ item ∈ items, Distinct item) → Distinct (.arr items)
  | obj {members : Dict Json} : members.keys.Nodup → (∀ entry ∈ members, Distinct entry.2) →
      Distinct (.obj members)

namespace Distinct

theorem item {items : List Json} (h : Distinct (.arr items)) {item : Json} (hitem : item ∈ items) :
    item.Distinct := by
  cases h with
  | scalar h => exact absurd h id
  | arr h => exact h item hitem

theorem keys {members : Dict Json} (h : Distinct (.obj members)) : members.keys.Nodup := by
  cases h with
  | scalar h => exact absurd h id
  | obj h _ => exact h

theorem member {members : Dict Json} (h : Distinct (.obj members)) {entry : String × Json}
    (hentry : entry ∈ members) : entry.2.Distinct := by
  cases h with
  | scalar h => exact absurd h id
  | obj _ h => exact h entry hentry

theorem empty : Distinct (.obj []) := .obj List.nodup_nil fun _ h => absurd h List.not_mem_nil

/-- A list without repeated keys stays so with another such value. -/
theorem append {items : List Json} {value : Json} (h : Distinct (.arr items))
    (hvalue : value.Distinct) : Distinct (.arr (items ++ [value])) := by
  refine .arr fun item hitem => ?_
  rcases List.mem_append.mp hitem with hitem | hitem
  · exact h.item hitem
  · rwa [List.mem_singleton.mp hitem]

/-- An object without repeated keys stays so with another such member. -/
theorem put {members : Dict Json} {key : String} {value : Json} (h : Distinct (.obj members))
    (hvalue : value.Distinct) : Distinct (.obj (members.put key value)) := by
  refine .obj (Dict.nodup_keys_put h.keys) fun entry hentry => ?_
  rcases Dict.mem_put hentry with rfl | hentry
  · exact hvalue
  · exact h.member hentry

end Distinct

/-! ## Values that are read -/

/-- A number that is read is a scalar. -/
theorem isScalar_of_readNumber? {negative : Bool} {s : List Char} {value : Json} {width : Nat}
    (h : readNumber? negative s = some (.scalar value, width)) : value.IsScalar := by
  unfold readNumber? at h
  simp only at h
  -- whatever the digits are, a number is a scalar or is faulty
  repeat' split at h
  all_goals cases h
  all_goals trivial

theorem isScalar_of_readNamed? {s : List Char} {value : Json} {width : Nat}
    (h : readNamed? s = some (value, width)) : value.IsScalar := by
  obtain ⟨⟨name, named⟩, hmem, hnamed⟩ := List.exists_of_findSome?_eq_some h
  simp only at hnamed
  split at hnamed
  next =>
    cases hnamed
    have hall : ∀ entry ∈ namedValues, entry.2.IsScalar := by
      simp [namedValues, IsScalar]
    exact hall _ hmem
  next => cases hnamed

theorem IsAtom.isScalar {value : Json} (h : value.IsAtom) : value.IsScalar := by
  cases h with
  | named h => exact isScalar_of_readNamed? h
  | number h => exact isScalar_of_readNumber? h

/-- Reading never repeats a key: a later member replaces an earlier one. -/
theorem kept_distinct : Kept Distinct where
  atom h := .scalar h.isScalar
  str _ := .scalar trivial
  noItems := .arr nofun
  append := Distinct.append
  noMembers := Distinct.empty
  put := Distinct.put

/-- **A value that was read from a text has no repeated keys.** -/
theorem distinct_of_parse {text : List Char} {value : Json} (h : parse text = .ok value) :
    value.Distinct :=
  kept_distinct.of_parse h

/-- A property that a list has with all of its items, and an object with all of its members. -/
class Hereditary (V : Json → Prop) : Prop where
  item {items : List Json} {value : Json} : V (.arr items) → value ∈ items → V value
  member {members : Dict Json} {entry : String × Json} :
    V (.obj members) → entry ∈ members → V entry.2

instance : Hereditary Distinct where
  item h hitem := h.item hitem
  member h hentry := h.member hentry

end Json

/-! ## What a schema reads -/

namespace Checked

variable {α β : Type}

/-- Two checks pass together exactly when both pass. -/
theorem both_eq_ok {x : Checked α} {y : Checked β} {a : α} {b : β} :
    both x y = .ok (a, b) ↔ x = .ok a ∧ y = .ok b := by
  cases x <;> cases y <;> simp [both]

theorem exists_of_map_eq_ok {x : Checked α} {f : α → β} {b : β} (h : Except.map f x = .ok b) :
    ∃ a, x = .ok a ∧ f a = b := by
  cases x with
  | error => cases h
  | ok a => exact ⟨a, rfl, Except.ok.inj h⟩

/-- If all of some checks pass, each of the values was checked. -/
theorem ok_mem_of_all {a : α} : ∀ {l : List (Checked α)} {as : List α}, all l = .ok as → a ∈ as →
    .ok a ∈ l
  | [], as, h, ha => by
    cases h
    cases ha
  | first :: rest, as, h, ha => by
    rw [all] at h
    obtain ⟨⟨b, bs⟩, hboth, rfl⟩ := exists_of_map_eq_ok h
    obtain ⟨hfirst, hrest⟩ := both_eq_ok.mp hboth
    rcases List.mem_cons.mp ha with rfl | ha
    · exact List.mem_cons.mpr (.inl hfirst.symm)
    · exact List.mem_cons_of_mem _ (ok_mem_of_all hrest ha)

end Checked

namespace Schema

open Checked

variable {α : Type} {V : Json → Prop} {reader : Reader α} {P : α → Prop} {members : Dict Json}
  {path : List PathStep} {key : String} {a : α}

/-- What is read from a value with the one property has the other property. -/
def Gives (V : Json → Prop) (reader : Reader α) (P : α → Prop) : Prop :=
  ∀ path value a, V value → reader path value = .ok a → P a

section

variable [Json.Hereditary V]

/-- A required field has the property that its reader gives. -/
theorem Gives.required (h : Gives V reader P) (hmembers : V (.obj members))
    (hread : Schema.required members path key reader = .ok a) : P a := by
  unfold Schema.required at hread
  split at hread
  next value hget =>
    exact h _ value a (Json.Hereditary.member hmembers (Dict.mem_of_get? hget)) hread
  next => cases hread

/-- An optional field has the property that its reader gives, if the default has it. -/
theorem Gives.optional {absent : α} (h : Gives V reader P) (habsent : P absent)
    (hmembers : V (.obj members))
    (hread : Schema.optional members path key absent reader = .ok a) : P a := by
  unfold Schema.optional at hread
  split at hread
  next value hget =>
    exact h _ value a (Json.Hereditary.member hmembers (Dict.mem_of_get? hget)) hread
  next =>
    cases hread
    exact habsent

/-- The items of a list have the property that their reader gives. -/
theorem Gives.list (h : Gives V reader P) : Gives V (list reader) fun as => ∀ a ∈ as, P a := by
  intro path value as hvalue hread a ha
  unfold Schema.list at hread
  split at hread
  next items =>
    obtain ⟨i, hi, hitem⟩ := List.mem_mapIdx.mp (ok_mem_of_all hread ha)
    exact h _ _ a (Json.Hereditary.item hvalue (List.getElem_mem hi)) hitem
  next => cases hread

/-- A dictionary is read with the keys of the object. -/
theorem Gives.dict (h : Gives V reader P) :
    Gives V (dict reader) fun d =>
      (∃ members : Dict Json, V (.obj members) ∧ d.keys = members.keys) ∧
        ∀ entry ∈ d, P entry.2 := by
  intro path value d hvalue hread
  unfold Schema.dict at hread
  split at hread
  next members =>
    refine ⟨⟨members, hvalue, ?_⟩, fun entry hentry => ?_⟩
    · clear hvalue
      induction members generalizing d with
      | nil =>
        cases hread
        rfl
      | cons entry rest ih =>
        rw [List.map_cons, all] at hread
        obtain ⟨⟨first, others⟩, hboth, rfl⟩ := exists_of_map_eq_ok hread
        obtain ⟨hfirst, hothers⟩ := both_eq_ok.mp hboth
        obtain ⟨a, -, rfl⟩ := exists_of_map_eq_ok hfirst
        exact congrArg (entry.1 :: ·) (ih others hothers)
    · obtain ⟨member, hmember, heq⟩ := List.mem_map.mp (ok_mem_of_all hread hentry)
      obtain ⟨a, ha, rfl⟩ := exists_of_map_eq_ok heq
      exact h _ _ a (Json.Hereditary.member hvalue hmember) ha
  next => cases hread

end

/-- What is read from a value without repeated keys has this property. -/
def Ensures (reader : Reader α) (P : α → Prop) : Prop := Gives Json.Distinct reader P

theorem gives_anything : Gives V anything V := by
  intro path value a hvalue hread
  cases hread
  exact hvalue

theorem ensures_data : Ensures (dict anything) fun data => data.keys.Nodup := by
  intro path value data hvalue hread
  obtain ⟨⟨members, hmembers, hkeys⟩, -⟩ := gives_anything.dict path value data hvalue hread
  rw [hkeys]
  exact hmembers.keys

/-- A record is read from an object. -/
theorem exists_of_record {value : Json} {fields : Dict Json → Checked α}
    (h : record path value fields = .ok a) :
    ∃ members, value = .obj members ∧ fields members = .ok a := by
  unfold record at h
  split at h
  next members => exact ⟨members, rfl, h⟩
  next => cases h

/-- The data of a node that is read has no repeated key. -/
theorem ensures_node : Ensures node fun n => n.data.keys.Nodup := by
  intro path value n hvalue hread
  obtain ⟨members, rfl, hread⟩ := exists_of_record hread
  obtain ⟨⟨id, type, data, position⟩, hboth, rfl⟩ := exists_of_map_eq_ok hread
  obtain ⟨-, hboth⟩ := both_eq_ok.mp hboth
  obtain ⟨-, hboth⟩ := both_eq_ok.mp hboth
  exact ensures_data.optional Json.Distinct.empty.keys hvalue (both_eq_ok.mp hboth).1

/-- **In a diagram that is read, no key of the data of a block is repeated.** -/
theorem ensures_diagram : Ensures diagram fun d => ∀ n ∈ d.nodes, n.data.keys.Nodup := by
  intro path value d hvalue hread
  obtain ⟨members, rfl, hread⟩ := exists_of_record hread
  obtain ⟨⟨nodes, edges⟩, hboth, rfl⟩ := exists_of_map_eq_ok hread
  exact ensures_node.list.optional (fun _ h => absurd h List.not_mem_nil) hvalue
    (both_eq_ok.mp hboth).1

end Schema

end Blockflow
