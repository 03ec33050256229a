import Blockflow.Proofs.Json.RoundTrip
import Blockflow.Proofs.Store.Reread

/-!
# The files of records

The text in which a record is stored is JSON, and reading it gives what the store takes the record
to be read back as (`Record.ofText?_fileText`). A record that was itself read from JSON, and whose
numbers are finite, is read from its file as it was.
-/

namespace Blockflow

/-! ## Finite numbers -/

namespace Json

mutual

/-- Is every number inside of the value finite? -/
def isFinite : Json → Bool
  | .float value => value.isFinite
  | .arr items => isFiniteItems items
  | .obj members => isFiniteMembers members
  | _ => true

def isFiniteItems : List Json → Bool
  | [] => true
  | item :: rest => item.isFinite && isFiniteItems rest

def isFiniteMembers : List (String × Json) → Bool
  | [] => true
  | (_, value) :: rest => value.isFinite && isFiniteMembers rest

end

theorem isFiniteItems_eq_all : ∀ items : List Json, isFiniteItems items = items.all isFinite
  | [] => rfl
  | item :: rest => by rw [isFiniteItems, isFiniteItems_eq_all rest, List.all_cons]

theorem isFiniteMembers_eq_all :
    ∀ members : Dict Json, isFiniteMembers members = members.all fun entry => entry.2.isFinite
  | [] => rfl
  | (key, value) :: rest => by rw [isFiniteMembers, isFiniteMembers_eq_all rest, List.all_cons]

mutual

/-- A value whose numbers are finite is read as it was written. -/
theorem readBack_of_isFinite : ∀ {value : Json}, value.isFinite = true → value.readBack = value
  | .null, _ | .bool _, _ | .int _, _ | .str _, _ => rfl
  | .float (.finite ..), _ => rfl
  | .float (.infinite _), h | .float .undefined, h => by cases h
  | .arr items, h => by rw [readBack, readBackItems_of_isFinite h]
  | .obj members, h => by rw [readBack, readBackMembers_of_isFinite h]

theorem readBackItems_of_isFinite :
    ∀ {items : List Json}, isFiniteItems items = true → readBackItems items = items
  | [], _ => rfl
  | item :: rest, h => by
    rw [isFiniteItems, Bool.and_eq_true] at h
    rw [readBackItems, readBack_of_isFinite h.1, readBackItems_of_isFinite h.2]

theorem readBackMembers_of_isFinite :
    ∀ {members : Dict Json}, isFiniteMembers members = true → readBackMembers members = members
  | [], _ => rfl
  | (key, value) :: rest, h => by
    rw [isFiniteMembers, Bool.and_eq_true] at h
    rw [readBackMembers, readBack_of_isFinite h.1, readBackMembers_of_isFinite h.2]

end

end Json

/-! ## Records that a schema accepts -/

namespace Schema

open Checked Json

/-- A whole number becomes a number of the format. -/
theorem isProper_ofInt (n : Int) : (Binary64.ofInt n).IsProper := Binary64.isProper_ofDecimal _ _ _

/-- Digits with a point and an exponent are read as a number of the format. -/
theorem isProper_of_magnitude? {negative : Bool} {s : List Char} {x : Binary64}
    (h : magnitude? negative s = some x) : x.IsProper := by
  unfold magnitude? at h
  simp only at h
  split at h
  next =>
    cases h
    trivial
  next =>
    split at h
    next =>
      cases h
      trivial
    next =>
      -- all that is not a name is rounded, with a fraction or without
      split at h
      all_goals
        split at h
        · cases h
        · split at h
          · cases h
            exact Binary64.isProper_ofDecimal _ _ _
          · split at h
            · cases h
              exact Binary64.isProper_ofDecimal _ _ _
            · cases h
          · cases h

/-- A text that is read as a number gives a number of the format. -/
theorem isProper_of_number? {s : List Char} {x : Binary64} (h : number? s = some x) :
    x.IsProper := by
  unfold number? at h
  split at h <;> exact isProper_of_magnitude? h

theorem isProper_of_textNumber? {s : List Char} {x : Binary64} (h : textNumber? s = some x) :
    x.IsProper := by
  unfold textNumber? at h
  simp only at h
  split at h
  next hnumber =>
    cases h
    exact isProper_of_number? hnumber
  next =>
    split at h
    next => cases h
    next => exact isProper_of_number? h

/-- A coordinate is a number of the format. -/
theorem gives_coordinate : Gives Storable coordinate Binary64.IsProper := by
  intro path value x hvalue hread
  unfold coordinate at hread
  split at hread
  next =>
    cases hread
    cases hvalue with
    | float h => exact h
  next n =>
    have hproper := isProper_ofInt n
    split at hread
    next hfinite =>
      cases hread
      exact hfinite ▸ hproper
    next => cases hread
  next =>
    cases hread
    exact isProper_ofInt _
  next =>
    split at hread
    next hnumber =>
      cases hread
      exact isProper_of_textNumber? hnumber
    next => cases hread
  next => cases hread

/-- A dictionary that is read is written as an object that can be read. -/
theorem gives_dict {α : Type} {reader : Reader α} {write : α → Json}
    (h : Gives Storable reader fun a => (write a).Storable) :
    Gives Storable (dict reader) fun d : Dict α =>
      (Json.obj (d.map fun (key, a) => (key, write a))).Storable := by
  intro path value d hvalue hread
  obtain ⟨⟨members, hmembers, hkeys⟩, hentries⟩ := h.dict path value d hvalue hread
  have hmap : Dict.keys (d.map fun (key, a) => (key, write a)) = d.keys := by simp [Dict.keys]
  refine .obj ?_ fun entry hentry => ?_
  · rw [hmap, hkeys]
    exact hmembers.keys
  · obtain ⟨member, hmember, rfl⟩ := List.mem_map.mp hentry
    exact hentries member hmember

theorem gives_data : Gives Storable (dict anything) fun data => (Json.obj data).Storable := by
  intro path value data hvalue hread
  have hvalues : Gives Storable anything fun value => (id value).Storable := gives_anything
  simpa using gives_dict hvalues path value data hvalue hread

/-- A position can be stored. -/
theorem gives_position :
    Gives Storable (dict coordinate) fun position =>
      (Json.obj (position.map fun (key, x) => (key, .float x))).Storable :=
  gives_dict fun path value x hvalue hread => .float (gives_coordinate path value x hvalue hread)

theorem gives_code :
    Gives Storable (dict text) fun code =>
      (Json.obj (code.map fun (language, code) => (language, .str code))).Storable :=
  gives_dict fun _ _ code _ _ => .str code

theorem storable_empty : (Json.obj []).Storable := .obj List.nodup_nil nofun

theorem storable_ofText? : ∀ s : Option String, (Json.ofText? s).Storable
  | none => .null
  | some s => .str s

theorem storable_edge (e : DrawnEdge) : (e.toJson .file).Storable := by
  refine .obj (show ["id", "source", "target", "source_handle", "target_handle"].Nodup by decide) ?_
  simp [storable_ofText?, Storable.str]

/-- A node that is read can be stored. -/
theorem gives_node : Gives Storable node fun n => n.toJson.Storable := by
  intro path value n hvalue hread
  obtain ⟨members, rfl, hread⟩ := exists_of_record hread
  obtain ⟨⟨id, type, data, position⟩, hboth, rfl⟩ := exists_of_map_eq_ok hread
  obtain ⟨-, hboth⟩ := both_eq_ok.mp hboth
  obtain ⟨-, hboth⟩ := both_eq_ok.mp hboth
  obtain ⟨hdata, hposition⟩ := both_eq_ok.mp hboth
  have hdata := gives_data.optional storable_empty hvalue hdata
  have hposition := gives_position.optional (by exact storable_empty) hvalue hposition
  refine .obj (show ["id", "type", "data", "position"].Nodup by decide) ?_
  simp [hdata, hposition, Storable.str]

/-- A diagram that is read can be stored. -/
theorem gives_diagram : Gives Storable diagram fun d => (d.toJson .file).Storable := by
  intro path value d hvalue hread
  obtain ⟨members, rfl, hread⟩ := exists_of_record hread
  obtain ⟨⟨nodes, edges⟩, hboth, rfl⟩ := exists_of_map_eq_ok hread
  have hnodes := gives_node.list.optional (by simp) hvalue (both_eq_ok.mp hboth).1
  have hnodes : (Json.arr (nodes.map DrawnNode.toJson)).Storable :=
    .arr (List.forall_mem_map.mpr hnodes)
  have hedges : (Json.arr (edges.map (DrawnEdge.toJson .file))).Storable :=
    .arr (List.forall_mem_map.mpr fun e _ => storable_edge e)
  refine .obj (show ["nodes", "edges"].Nodup by decide) ?_
  simp [hnodes, hedges]

theorem storable_emptyDiagram : (Diagram.toJson .file {}).Storable := by
  refine .obj (show ["nodes", "edges"].Nodup by decide) ?_
  simp [Storable.arr]

/-- A project that is read can be stored. -/
theorem gives_savedProject :
    Gives Storable SavedProject.schema fun p => (p.toJson .file).Storable := by
  intro path value p hvalue hread
  obtain ⟨members, rfl, hread⟩ := exists_of_record hread
  obtain ⟨⟨name, code, diagram⟩, hboth, rfl⟩ := exists_of_map_eq_ok hread
  obtain ⟨-, hboth⟩ := both_eq_ok.mp hboth
  obtain ⟨hcode, hdiagram⟩ := both_eq_ok.mp hboth
  have hcode := gives_code.optional (by exact storable_empty) hvalue hcode
  have hdiagram := gives_diagram.optional storable_emptyDiagram hvalue hdiagram
  refine .obj (show ["name", "code", "diagram"].Nodup by decide) ?_
  simp [hcode, hdiagram, Storable.str]

/-- A function that is read can be stored. -/
theorem gives_savedFunction :
    Gives Storable SavedFunction.schema fun f => (f.toJson .file).Storable := by
  intro path value f hvalue hread
  obtain ⟨members, rfl, hread⟩ := exists_of_record hread
  obtain ⟨⟨name, params, description, subgraph⟩, hboth, rfl⟩ := exists_of_map_eq_ok hread
  obtain ⟨-, hboth⟩ := both_eq_ok.mp hboth
  obtain ⟨-, hboth⟩ := both_eq_ok.mp hboth
  have hsubgraph := gives_diagram.required hvalue (both_eq_ok.mp hboth).2
  have hparams : (Json.arr (params.map .str)).Storable :=
    .arr (List.forall_mem_map.mpr fun param _ => .str param)
  refine .obj (show ["name", "params", "description", "subgraph"].Nodup by decide) ?_
  simp [hparams, hsubgraph, Storable.str]

end Schema

/-! ## Files -/

namespace Record

variable {ρ : Type} [Record ρ]

/-- The record that a text writes, if it is JSON and has the form of such a record. -/
def ofText? (text : List Char) : Option ρ :=
  match Json.parse text with
  | .ok value => (schema [] value).toOption
  | .error _ => none

/-- The record is one that the schema accepts: it was read from JSON. -/
def Accepted (record : ρ) : Prop :=
  ∃ text value path, Json.parse text = .ok value ∧ schema path value = .ok record

/-- What was read from a text is accepted. -/
theorem accepted_of_ofText? {text : List Char} {record : ρ} (h : ofText? text = some record) :
    Accepted record := by
  unfold ofText? at h
  split at h
  next value hparse =>
    refine ⟨text, value, [], hparse, ?_⟩
    cases hread : schema (ρ := ρ) [] value with
    | error =>
      rw [hread] at h
      cases h
    | ok read =>
      rw [hread] at h
      rw [Option.some.inj h]
  next => cases h

/-- Is every number of the record finite? -/
def isFinite (record : ρ) : Bool := (toJson .file record).isFinite

/-- Reading the file of a record gives what the store takes it to be read back as. -/
theorem ofText?_fileText {record : ρ} (h : (toJson .file record).Storable) :
    ofText? (fileText record).toList = (reread record).toOption := by
  have hparse : Json.parse (fileText record).toList = .ok (toJson .file record).readBack := by
    rw [fileText, Json.render, String.toList_ofList]
    exact Json.parse_write h .file
  rw [ofText?, hparse]
  rfl

end Record

/-- A node with finite numbers is read back as it is. -/
theorem DrawnNode.isFinite_of_toJson {n : DrawnNode} (h : n.toJson.isFinite = true) :
    n.isFinite = true ∧ n.readBack = n := by
  simp only [DrawnNode.toJson, Json.isFinite, Json.isFiniteMembers, Bool.and_eq_true,
    true_and, and_true] at h
  obtain ⟨hdata, hposition⟩ := h
  constructor
  · rw [Json.isFiniteMembers_eq_all, List.all_map] at hposition
    exact hposition
  · rw [DrawnNode.readBack, Json.readBackMembers_of_isFinite hdata]

/-- A diagram whose numbers are finite is read as it was. -/
theorem Diagram.isFinite_of_toJson {d : Diagram} (h : (d.toJson .file).isFinite = true) :
    d.isFinite = true ∧ d.readBack = d := by
  simp only [Diagram.toJson, Json.isFinite, Json.isFiniteMembers, Bool.and_eq_true,
    and_true, Json.isFiniteItems_eq_all, List.all_map] at h
  have hnodes : ∀ n ∈ d.nodes, n.toJson.isFinite = true := List.all_eq_true.mp h.1
  constructor
  · exact List.all_eq_true.mpr fun n hn => (n.isFinite_of_toJson (hnodes n hn)).1
  · rw [Diagram.readBack, List.map_congr_left fun n hn => (n.isFinite_of_toJson (hnodes n hn)).2,
      List.map_id']

/-- A project with finite numbers is read back as it is. -/
theorem SavedProject.reread_of_isFinite {p : SavedProject} (h : Record.isFinite p = true) :
    Record.reread p = .ok p := by
  have hdiagram : (p.diagram.toJson .file).isFinite = true := by
    simp only [Record.isFinite, Record.toJson, SavedProject.toJson, Json.isFinite,
      Json.isFiniteMembers, Bool.and_eq_true, and_true, true_and] at h
    exact h.2
  obtain ⟨hfinite, hback⟩ := Diagram.isFinite_of_toJson hdiagram
  exact (p.yields_reread p).mpr ⟨hfinite, by rw [hback]⟩

/-- A function with finite numbers is read back as it is. -/
theorem SavedFunction.reread_of_isFinite {f : SavedFunction} (h : Record.isFinite f = true) :
    Record.reread f = .ok f := by
  have hsubgraph : (f.subgraph.toJson .file).isFinite = true := by
    simp only [Record.isFinite, Record.toJson, SavedFunction.toJson, Json.isFinite,
      Json.isFiniteMembers, Bool.and_eq_true, and_true, true_and] at h
    exact h.2
  obtain ⟨hfinite, hback⟩ := Diagram.isFinite_of_toJson hsubgraph
  exact (f.yields_reread f).mpr ⟨hfinite, by rw [hback]⟩

/-- **A record that a schema accepted, and whose numbers are finite, is read from its file as it
was**, be it a project or a function; and this is the record that a store loads. -/
theorem Record.ofText?_fileText_eq_self :
    (∀ p : SavedProject, Record.Accepted p → Record.isFinite p = true →
      Record.ofText? (Record.fileText p).toList = some p ∧ Record.reread p = .ok p) ∧
    (∀ f : SavedFunction, Record.Accepted f → Record.isFinite f = true →
      Record.ofText? (Record.fileText f).toList = some f ∧ Record.reread f = .ok f) := by
  constructor
  · rintro p ⟨text, value, path, hparse, hread⟩ hfinite
    have hstorable := Schema.gives_savedProject path value p (Json.storable_of_parse hparse) hread
    have hreread := SavedProject.reread_of_isFinite hfinite
    rw [Record.ofText?_fileText hstorable, hreread]
    exact ⟨rfl, rfl⟩
  · rintro f ⟨text, value, path, hparse, hread⟩ hfinite
    have hstorable := Schema.gives_savedFunction path value f (Json.storable_of_parse hparse) hread
    have hreread := SavedFunction.reread_of_isFinite hfinite
    rw [Record.ofText?_fileText hstorable, hreread]
    exact ⟨rfl, rfl⟩

/-- A value that has the form of both kinds of records. -/
def quotedSample : Json :=
  .obj [("name", .str "\" \\ \x00 \u2028 \x7f é"),
    ("code", .obj [("python", .str "x = 1\n"), ("java", .str "")]),
    ("diagram", .obj [
      ("nodes", .arr [.obj [("id", .str "n"), ("type", .str "assign"),
        ("data", .obj [("z", .arr [.null, .int (-12), .arr [.float (.finite false 1 (-1074))]]),
          ("a", .obj [("k", .str "\t")])]),
        ("position", .obj [("y", .str "-0.1"), ("x", .int 7)])]]),
      ("edges", .arr [.obj [("source", .str "n"), ("target", .str "n"),
        ("sourceHandle", .str "next")]])]),
    ("subgraph", .obj [("nodes", .arr [.obj [("id", .str "f"), ("type", .str "functionDefine"),
      ("position", .obj [("x", .float (.finite true 7205759403792794 (-56)))])]])])]

/-- Texts with quotes, a backslash, NUL, U+2028 and U+007F, nested values and numbers with a
fraction are read as they were. -/
theorem Record.ofText?_fileText_quoted :
    ∃ (p : SavedProject) (f : SavedFunction),
      (Record.Accepted p ∧ Record.isFinite p = true ∧ p.name = "\" \\ \x00 \u2028 \x7f é" ∧
        Record.ofText? (Record.fileText p).toList = some p ∧ Record.reread p = .ok p) ∧
      (Record.Accepted f ∧ Record.isFinite f = true ∧ f.name = p.name ∧
        Record.ofText? (Record.fileText f).toList = some f ∧ Record.reread f = .ok f) := by
  have hproject : (Record.ofText? (Json.write .compact 0 quotedSample)).any
      (fun p : SavedProject =>
        Record.isFinite p && p.name == "\" \\ \x00 \u2028 \x7f é") = true := by
    decide +kernel
  have hfunction : (Record.ofText? (Json.write .compact 0 quotedSample)).any
      (fun f : SavedFunction =>
        Record.isFinite f && f.name == "\" \\ \x00 \u2028 \x7f é") = true := by
    decide +kernel
  obtain ⟨p, hp, hpcheck⟩ := (Option.any_eq_true _ _).mp hproject
  obtain ⟨f, hf, hfcheck⟩ := (Option.any_eq_true _ _).mp hfunction
  rw [Bool.and_eq_true, beq_iff_eq] at hpcheck hfcheck
  have hp := Record.accepted_of_ofText? hp
  have hf := Record.accepted_of_ofText? hf
  exact ⟨p, f,
    ⟨hp, hpcheck.1, hpcheck.2, Record.ofText?_fileText_eq_self.1 p hp hpcheck.1⟩,
    ⟨hf, hfcheck.1, hfcheck.2.trans hpcheck.2.symm,
      Record.ofText?_fileText_eq_self.2 f hf hfcheck.1⟩⟩

end Blockflow
