import Blockflow.Proofs.Json.Distinct
import Blockflow.Store.Basic

/-!
# Records that are read back

A record that is written to a file and read again is the record as it was, except for numbers that
are not finite. They have no written form and become null. Where a coordinate was, null is refused,
so a record with such a coordinate cannot be read; in the data of a block, null is accepted. The
main results are `SavedFunction.yields_reread` and `SavedProject.yields_reread`.
-/

namespace Blockflow

theorem Dict.get?_map {α β : Type} (f : α → β) (key : String) (d : Dict α) :
    Dict.get? key (d.map fun (k, v) => (k, f v)) = (d.get? key).map f := by
  induction d with
  | nil => rfl
  | cons entry rest ih =>
    obtain ⟨k, v⟩ := entry
    rw [List.map_cons, Dict.get?, Dict.get?, ih]
    split <;> rfl

/-! ## Checked values -/

namespace Checked

variable {α β : Type} {x : Checked α} {y : Checked β} {p q : Prop} {a : α} {b : β}

/-- There is a value under a condition only, and which one it is. -/
def Yields (x : Checked α) (p : Prop) (a : α) : Prop := ∀ a', x = .ok a' ↔ p ∧ a' = a

theorem yields_ok : Yields (.ok a) True a := by
  intro a'
  simp [eq_comm]

theorem yields_error {faults : List SchemaFault} : Yields (.error faults) False a := by
  intro a'
  simp

theorem Yields.congr (h : x.Yields p a) {a₁ : α} (hp : p ↔ q) (ha : a = a₁) : x.Yields q a₁ := by
  intro a'
  rw [h a', hp, ha]

/-- A value can be changed after it was checked. -/
theorem Yields.map (h : x.Yields p a) (f : α → β) : Yields (Except.map f x) p (f a) := by
  intro b'
  cases x with
  | error =>
    have hp : ¬p := fun hp => nomatch (h a).mpr ⟨hp, rfl⟩
    simp [Except.map, hp]
  | ok a₁ =>
    obtain ⟨hp, rfl⟩ := (h a₁).mp rfl
    simp [Except.map, hp, eq_comm]

/-- Two values are there together if each of them is. -/
theorem Yields.both (hx : x.Yields p a) (hy : y.Yields q b) :
    Yields (Checked.both x y) (p ∧ q) (a, b) := by
  rintro ⟨a', b'⟩
  rw [both_eq_ok, hx a', hy b', Prod.mk.injEq]
  exact and_and_and_comm

/-- A list of values is there if each of them is. -/
theorem Yields.all_cons {as : List α} {rest : List (Checked α)} (hx : x.Yields p a)
    (hrest : (all rest).Yields q as) : (all (x :: rest)).Yields (p ∧ q) (a :: as) := by
  rw [all]
  exact (hx.both hrest).map _

end Checked

/-! ## What is read back -/

theorem Json.readBackItems_eq_map : ∀ items : List Json, readBackItems items = items.map readBack
  | [] => rfl
  | item :: rest => by rw [readBackItems, readBackItems_eq_map rest, List.map_cons]

theorem Json.readBackMembers_eq_map :
    ∀ members : Dict Json, readBackMembers members = members.map fun (key, v) => (key, v.readBack)
  | [] => rfl
  | (key, v) :: rest => by rw [readBackMembers, readBackMembers_eq_map rest, List.map_cons]

/-- Has the number a written form? -/
def Binary64.isFinite : Binary64 → Bool
  | .finite .. => true
  | .infinite _ | .undefined => false

/-- Has every coordinate of the block a written form? -/
def DrawnNode.isFinite (n : DrawnNode) : Bool := n.position.all fun (_, x) => x.isFinite

/-- Has every coordinate of the diagram a written form? -/
def Diagram.isFinite (d : Diagram) : Bool := d.nodes.all DrawnNode.isFinite

/-- The block that is read back: in its data, null stands where a number is not finite. -/
def DrawnNode.readBack (n : DrawnNode) : DrawnNode :=
  { n with data := Json.readBackMembers n.data }

def Diagram.readBack (d : Diagram) : Diagram := { d with nodes := d.nodes.map DrawnNode.readBack }

namespace Schema

open Checked

variable {α β : Type}

/-- The reader accepts what is written for the values that are `fine`, and reads them as `back`. -/
def ReadsBack (reader : Reader α) (write : β → Json) (fine : β → Bool) (back : β → α) : Prop :=
  ∀ path b, (reader path (write b).readBack).Yields (fine b = true) (back b)

/-! ## Readers of values -/

theorem readsBack_text : ReadsBack text Json.str (fun _ => true) id :=
  fun _ _ => yields_ok.congr (by simp) rfl

theorem readsBack_text? : ReadsBack text? Json.ofText? (fun _ => true) id
  | _, none | _, some _ => yields_ok.congr (by simp) rfl

theorem readsBack_anything : ReadsBack anything id (fun _ => true) Json.readBack :=
  fun _ _ => yields_ok.congr (by simp) rfl

theorem readsBack_coordinate : ReadsBack coordinate Json.float Binary64.isFinite id
  | _, .finite .. => yields_ok.congr (by simp [Binary64.isFinite]) rfl
  | _, .infinite _ | _, .undefined => yields_error.congr (by simp [Binary64.isFinite]) rfl

/-- A list is read back item by item. -/
theorem readsBack_list {item : Reader α} {write : β → Json} {fine : β → Bool} {back : β → α}
    (h : ReadsBack item write fine back) :
    ReadsBack (list item) (fun l => .arr (l.map write)) (List.all · fine) (List.map back) := by
  intro path l
  rw [Json.readBack, Json.readBackItems_eq_map, List.map_map, list]
  -- the place of an item in the whole list does not matter
  generalize hread : (fun i value => item (path ++ [.index i]) value) = read
  have hitem : ∀ i b, (read i (write b).readBack).Yields (fine b = true) (back b) := by
    intro i b
    rw [← hread]
    exact h _ b
  clear hread
  induction l generalizing read with
  | nil => exact yields_ok.congr (by simp) rfl
  | cons b rest ih =>
    rw [List.map_cons, List.mapIdx_cons]
    exact ((hitem 0 b).all_cons (ih _ fun i => hitem (i + 1))).congr (by simp) rfl

/-- A dictionary is read back entry by entry. -/
theorem readsBack_dict {item : Reader α} {write : β → Json} {fine : β → Bool} {back : β → α}
    (h : ReadsBack item write fine back) :
    ReadsBack (dict item) (fun d : Dict β => .obj (d.map fun (key, b) => (key, write b)))
      (List.all · fun (_, b) => fine b) (List.map fun (key, b) => (key, back b)) := by
  intro path d
  rw [Json.readBack, Json.readBackMembers_eq_map, List.map_map, dict]
  induction d with
  | nil => exact yields_ok.congr (by simp) rfl
  | cons entry rest ih =>
    obtain ⟨key, b⟩ := entry
    rw [List.map_cons, List.map_cons]
    exact (((h _ b).map (key, ·)).all_cons ih).congr (by simp) rfl

/-- The data of a block are read as they were. -/
theorem readsBack_data :
    ReadsBack (dict anything) (fun data : Dict Json => .obj data) (fun _ => true)
      Json.readBackMembers := by
  intro path data
  have h := readsBack_dict readsBack_anything path data
  simpa [Json.readBackMembers_eq_map] using h

/-! ## Readers of records -/

section

variable {reader : Reader α} {write : β → Json} {fine : β → Bool} {back : β → α}
  {members : Dict Json} {path : List PathStep} {key : String} {b : β}

theorem get?_readBackMembers {value : Json} (h : members.get? key = some value) :
    Dict.get? key (Json.readBackMembers members) = some value.readBack := by
  rw [Json.readBackMembers_eq_map, Dict.get?_map, h, Option.map_some]

/-- A required field is read back if its value is. -/
theorem ReadsBack.required (h : ReadsBack reader write fine back)
    (hget : members.get? key = some (write b)) :
    (Schema.required (Json.readBackMembers members) path key reader).Yields (fine b = true)
      (back b) := by
  rw [Schema.required, get?_readBackMembers hget]
  exact h _ b

/-- An optional field that is given is read back if its value is. -/
theorem ReadsBack.optional (h : ReadsBack reader write fine back)
    (hget : members.get? key = some (write b)) {absent : α} :
    (Schema.optional (Json.readBackMembers members) path key absent reader).Yields (fine b = true)
      (back b) := by
  rw [Schema.optional, get?_readBackMembers hget]
  exact h _ b

/-- A handle that is written under its second key is read if there is none under the first. -/
theorem yields_handle {other : String} {side : Option String} (hkey : members.get? key = none)
    (hget : members.get? other = some (.ofText? side)) :
    (handle (Json.readBackMembers members) path key other).Yields True side := by
  have hhas : Dict.has key (Json.readBackMembers members) = false := by
    rw [Dict.has, Json.readBackMembers_eq_map, Dict.get?_map, hkey]
    rfl
  rw [handle, hhas]
  exact (readsBack_text?.optional hget).congr (by simp) rfl

end

/-- A node with finite coordinates is read back. -/
theorem readsBack_node : ReadsBack node DrawnNode.toJson DrawnNode.isFinite DrawnNode.readBack := by
  intro path n
  refine (((readsBack_text.required (b := n.id) (by rfl)).both
    ((readsBack_text.required (b := n.type) (by rfl)).both
      ((readsBack_data.optional (b := n.data) (by rfl)).both
        ((readsBack_dict readsBack_coordinate).optional (b := n.position) (by rfl))))).map _).congr
    ?_ ?_
  · simp [DrawnNode.isFinite]
  · simp [DrawnNode.readBack]

/-- Edges are read as they were: the keys of files are accepted beside those of the editor. -/
theorem readsBack_edge : ReadsBack edge (DrawnEdge.toJson .file) (fun _ => true) id := by
  intro path e
  refine (((readsBack_text.optional (b := e.id) (by rfl)).both
    ((readsBack_text.required (b := e.source) (by rfl)).both
      ((readsBack_text.required (b := e.target) (by rfl)).both
        ((yields_handle (by rfl) (by rfl)).both (yields_handle (by rfl) (by rfl)))))).map _).congr
    ?_ ?_
  · simp
  · rfl

/-- A diagram with finite coordinates is read back. -/
theorem readsBack_diagram :
    ReadsBack diagram (Diagram.toJson .file) Diagram.isFinite Diagram.readBack := by
  intro path d
  refine ((((readsBack_list readsBack_node).optional (b := d.nodes) (by rfl)).both
    ((readsBack_list readsBack_edge).optional (b := d.edges) (by rfl))).map _).congr ?_ ?_
  · simp [Diagram.isFinite]
  · simp [Diagram.readBack]

end Schema

/-- **A saved function can be read if its coordinates are finite, and is then read as it was**, up
to numbers in the data of its blocks that are not finite. -/
theorem SavedFunction.yields_reread (f : SavedFunction) :
    (Record.reread f).Yields (f.subgraph.isFinite = true)
      { f with subgraph := f.subgraph.readBack } := by
  refine (((Schema.readsBack_text.required (b := f.name) (by rfl)).both
    (((Schema.readsBack_list Schema.readsBack_text).optional (b := f.params) (by rfl)).both
      ((Schema.readsBack_text.optional (b := f.description) (by rfl)).both
        (Schema.readsBack_diagram.required (b := f.subgraph) (by rfl))))).map _).congr ?_ ?_
  · simp
  · simp

/-- **A saved project can be read if its coordinates are finite, and is then read as it was**, up to
numbers in the data of its blocks that are not finite. -/
theorem SavedProject.yields_reread (p : SavedProject) :
    (Record.reread p).Yields (p.diagram.isFinite = true)
      { p with diagram := p.diagram.readBack } := by
  refine (((Schema.readsBack_text.required (b := p.name) (by rfl)).both
    (((Schema.readsBack_dict Schema.readsBack_text).optional (b := p.code) (by rfl)).both
      (Schema.readsBack_diagram.optional (b := p.diagram) (by rfl)))).map _).congr ?_ ?_
  · simp
  · simp

/-- A diagram whose data are texts is read as it was. -/
theorem Diagram.readBack_eq_self {d : Diagram}
    (h : ∀ n ∈ d.nodes, ∀ entry ∈ n.data, ∃ s, entry.2 = .str s) : d.readBack = d := by
  have hnode : ∀ n ∈ d.nodes, n.readBack = n := by
    intro n hn
    have hdata : Json.readBackMembers n.data = n.data := by
      rw [Json.readBackMembers_eq_map]
      refine (List.map_congr_left fun entry hentry => ?_).trans (List.map_id _)
      obtain ⟨key, value⟩ := entry
      obtain ⟨s, rfl⟩ := h n hn _ hentry
      rfl
    rw [DrawnNode.readBack, hdata]
  rw [Diagram.readBack, List.map_congr_left hnode, List.map_id']

end Blockflow
