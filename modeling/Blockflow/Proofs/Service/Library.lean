import Blockflow.Proofs.Program.Names
import Blockflow.Proofs.Program.Redrawn
import Blockflow.Proofs.Service.Isolation
import Blockflow.Proofs.Service.Saving

/-!
# The library

What is kept in the library is kept under its own name, and can be compiled there on its own
(`SavedFunction.Compiles`). This holds of every record when it is saved, and no request takes it
away (`Service.Sound.receive`), so it holds after every sequence of requests. But a record is read
from its file whenever it is used, and the file of a record with a coordinate that is not finite
cannot be read. So an entry of the library is the record that was kept exactly if its coordinates
are finite (`Service.library_reads_iff`).
-/

namespace Blockflow

/-! ## Names of fragments -/

/-- The name of a fragment has no blanks around it: they are taken away when the name is loaded,
except behind a separator, and names have no separators. -/
theorem Graph.trim_name_eq {d : Diagram} {g : Graph} {root : String} {f : Fragment} {name : String}
    (hload : Graph.load d = .ok g) (hextract : g.extract root = .ok f) (hname : f.name = .text name)
    (hisName : Text.isName (Text.trim name).toList = true) : Text.trim name = name := by
  obtain ⟨n, hn, -, -, -, hfname, -, -⟩ := extract_eq_ok hextract
  rw [hname] at hfname
  cases hget : n.data.get? "name" with
  | none =>
    rw [hget] at hfname
    cases hfname
    rfl
  | some value =>
    rw [hget] at hfname
    cases hfname
    rw [(load_eq_ok hload).1] at hn
    obtain ⟨drawn, -, rfl⟩ := List.mem_map.mp hn
    obtain ⟨_, -, -, hvalue⟩ := Node.exists_of_mem_data (Dict.mem_of_get? hget)
    rcases FieldValue.ofJson?_eq_some hvalue with ⟨s, hs, htidy⟩ | ⟨_, hs, -⟩
    · cases hs
      exact htidy.trim_eq_of_notMem fun hmark =>
        absurd (Text.isNameChar_of_mem hisName hmark) (by decide)
    · cases hs

/-! ## Records that can be compiled -/

/-- Definitions keep their names when the program is finished. -/
theorem Assembly.names_finish (a : Assembly) (main : Block) :
    (a.finish main).functions.map FunctionDef.name = a.names .function ∧
      (a.finish main).classes.map ClassDef.name = a.names .classDef := by
  rw [finish, List.map_map, List.map_map]
  exact ⟨List.map_congr_left fun f _ => f.name_typed a.calls, rfl⟩

/-- The record can be compiled on its own: it is kept under its name, its graph is loaded and is
valid, and its program, with the calls left as they are, has a function or a class of that name. -/
structure SavedFunction.Compiles (key : String) (record : SavedFunction) : Prop where
  name : record.name = key
  isName : Text.isName key.toList = true
  builds : ∃ g b, Graph.load record.subgraph = .ok g ∧ g.Valid ∧ g.buildAlone defaultLimit = .ok b ∧
    (key ∈ b.program.functions.map FunctionDef.name ∨ key ∈ b.program.classes.map ClassDef.name)

namespace Service

variable {s : Service} {r : FunctionSaving}

/-- **A record that is not refused can be compiled on its own.** -/
theorem compiles_of_functionRecord {lib : Library} {record : SavedFunction}
    (h : functionRecord lib r = .ok record) : record.Compiles (Text.trim record.name) := by
  obtain ⟨f, g, b, name, hcut, hload, hvalid, hbuild, hname, rfl⟩ := functionRecord_eq_ok.mp h
  obtain ⟨whole, hwhole, hextract⟩ := bind_eq_ok.mp hcut
  have hrooted := Graph.rooted_of_load hwhole hextract hload
  obtain ⟨n, hn, hid, hdef⟩ := hrooted.definition
  obtain ⟨type, hb, htype⟩ := Node.isDefinition_iff.mp hdef
  have hdefined := Graph.definedName_of_load hextract hload hname hn hid
  have hisName := hvalid.isName_definition (Graph.tidy_of_load hload) hn hb htype
  obtain ⟨main, a, -, hassemble, -⟩ := Graph.build_eq_ok.mp hbuild
  obtain ⟨alone, halone⟩ := hvalid.exists_buildAlone_iff.mpr ⟨main, a, hassemble⟩
  obtain ⟨main', a', hassemble', hprogram⟩ := Graph.buildAlone_eq_ok halone
  have hmem := hrooted.mem_names hvalid hassemble' hn hid hb htype
  rw [hdefined] at hisName hmem
  refine ⟨(Graph.trim_name_eq hwhole hextract hname hisName).symm, hisName,
    g, alone, hload, hvalid, halone, ?_⟩
  rw [hprogram, (a'.names_finish main').1, (a'.names_finish main').2]
  cases type with
  | function => exact .inl hmem
  | classDef => exact .inr hmem
  | _ => cases htype

/-- If no key of the body is repeated, the fragment in the record is read back as it was. -/
theorem readBack_of_functionRecord {lib : Library} {record : SavedFunction} {body : Json}
    (hbody : body.Distinct) (hread : readBody functionSaving body = .ok r)
    (h : functionRecord lib r = .ok record) : record.subgraph.readBack = record.subgraph := by
  obtain ⟨f, g, b, name, hcut, hload, hvalid, -, -, rfl⟩ := functionRecord_eq_ok.mp h
  exact fragment_readBack_eq hbody hread hcut hload hvalid

/-! ## Sequences of requests -/

/-- The service after a sequence of requests. -/
def after (s : Service) (sequence : List Arrival) : Service :=
  sequence.foldl (fun s a => (s.receive a).2) s

/-- Every record of the library can be compiled on its own, and has a fragment that is read back as
it was. -/
def Sound (s : Service) : Prop :=
  ∀ key record, s.functions.entries.get? key = some record →
    record.Compiles key ∧ record.subgraph.readBack = record.subgraph

/-- **No request makes the library unsound**: what is saved has been compiled before, and the rest
stays as it was. -/
theorem Sound.receive (h : s.Sound) {a : Arrival} (hbody : a.body.Distinct) :
    (s.receive a).2.Sound := by
  cases effect s a with
  | none hsame =>
    rw [hsame]
    exact h
  | projects hstore =>
    rw [hstore]
    exact h
  | functions hstore _ _ hchange =>
    rw [hstore]
    intro key record hget
    cases hchange with
    | saved _ hrecord hsave =>
      obtain ⟨r, hread, hrecord⟩ := bind_eq_ok.mp hrecord
      simp only [Store.save_eq_ok hsave, Dict.get?_insert] at hget
      split at hget
      next hkey =>
        cases hget
        rw [← hkey]
        exact ⟨compiles_of_functionRecord hrecord, readBack_of_functionRecord hbody hread hrecord⟩
      next => exact h key record hget
    | deleted _ hdelete =>
      obtain ⟨_, -, hdelete⟩ := bind_eq_ok.mp hdelete
      obtain ⟨-, rfl⟩ := Prod.mk.inj (Except.ok.inj hdelete)
      simp only [Dict.get?_erase] at hget
      split at hget
      next => cases hget
      next => exact h key record hget

theorem Sound.after : ∀ {sequence : List Arrival} {s : Service}, s.Sound →
    (∀ a ∈ sequence, a.body.Distinct) → (s.after sequence).Sound
  | [], _, h, _ => h
  | a :: _, _, h, hbodies =>
    (h.receive (hbodies a List.mem_cons_self)).after fun b hb =>
      hbodies b (List.mem_cons_of_mem a hb)

theorem sound_empty : ({} : Service).Sound := nofun

theorem get?_library (key : String) :
    s.library.get? key = (s.functions.entries.get? key).map Record.reread :=
  Dict.get?_map _ _ _

/-- **After every sequence of requests, every record of the library can be compiled on its own.**
The entry of the library is what is read from the file of the record: the record itself if its
coordinates are finite, and otherwise nothing at all. -/
theorem library_reads_iff {sequence : List Arrival}
    (hbodies : ∀ a ∈ sequence, ∃ text, Json.parse text = .ok a.body) {key : String}
    {entry : Checked SavedFunction}
    (h : (({} : Service).after sequence).library.get? key = some entry) :
    ∃ record, (({} : Service).after sequence).functions.entries.get? key = some record ∧
      record.Compiles key ∧ ∀ read, entry = .ok read ↔
        record.subgraph.isFinite = true ∧ read = record := by
  have hdistinct : ∀ a ∈ sequence, a.body.Distinct := by
    intro a ha
    obtain ⟨text, htext⟩ := hbodies a ha
    exact Json.distinct_of_parse htext
  rw [get?_library] at h
  obtain ⟨record, hrecord, rfl⟩ := Option.map_eq_some_iff.mp h
  obtain ⟨hcompiles, hback⟩ := sound_empty.after hdistinct key record hrecord
  refine ⟨record, hrecord, hcompiles, fun read => ?_⟩
  have hyields := record.yields_reread read
  rw [hback] at hyields
  exact hyields

/-- A request to save a definition. -/
def saving (body : Json) : Arrival := { method := "POST", path := "save-function", body }

theorem place?_saving (body : Json) : (saving body).place? = some .saveFunction := by
  have hplace : Service.place? "save-function" none = some .saveFunction := by decide +kernel
  have hmethod : "POST".toUpper = Place.saveFunction.method := by decide +kernel
  exact Arrival.place?_eq_some hplace hmethod

/-- What is in the library after a definition was saved. -/
theorem Saves.get?_library_saving {body : Json} {f : Fragment} {g : Graph} {b : Build} {n : Node}
    (h : s.Saves body r f g b) (hn : n ∈ g.nodes) (hid : n.id = r.root) :
    ∃ name, (s.receive (saving body)).2.library.get? n.definedName =
      some (Record.reread (recordOf r f name)) := by
  obtain ⟨name, hlibrary⟩ := h.get?_library {} hn hid
  refine ⟨name, ?_⟩
  rw [receive_of_place (place?_saving body)]
  exact (hlibrary _).trans (if_pos rfl)

/-- The definition has this name, and its coordinates are finite or not. -/
def isDrawn (finite : Bool) (name : String) : FunctionSaving × Fragment × Graph × Build → Bool
  | (r, f, g, _) => f.diagram.isFinite == finite &&
      g.nodes.any fun n => n.id = r.root && n.definedName = name

/-- A class with a method is saved between two other requests. -/
theorem library_reads_iff_class :
    ∃ body, Json.parse (savingText (nested "f") "c") = .ok body ∧
      ∃ record, (({} : Service).after
          [deletingFunction "C", saving body, listingFunctions]).library.get? "C" =
        some (.ok record) ∧ record.Compiles "C" := by
  have hsample : (Json.parse (savingText (nested "f") "c")).toOption.any (fun body =>
      (savedWithin 2 {} body).any (isDrawn true "C")) = true := by
    decide +kernel
  obtain ⟨body, r, f, g, b, hparse, h, hcheck⟩ := exists_saves hsample
  simp only [isDrawn, Bool.and_eq_true, List.any_eq_true, decide_eq_true_eq, beq_iff_eq] at hcheck
  obtain ⟨hfinite, n, hn, hid, hname⟩ := hcheck
  obtain ⟨name, hentry⟩ := h.get?_library_saving hn hid
  rw [hname] at hentry
  have hstatus : (({} : Service).receive (deletingFunction "C")).1.status = 404 := by decide +kernel
  have hreading : listingFunctions.isReading = true := by decide +kernel
  have hafter : ({} : Service).after [deletingFunction "C", saving body, listingFunctions] =
      (({} : Service).receive (saving body)).2 := by
    have hfirst : (({} : Service).receive (deletingFunction "C")).2 = {} :=
      receive_of_failed fun h => absurd (hstatus.symm.trans h) (by decide)
    refine (receive_of_isReading hreading _).trans ?_
    exact congrArg (fun s : Service => (s.receive (saving body)).2) hfirst
  have hbodies : ∀ a ∈ [deletingFunction "C", saving body, listingFunctions],
      ∃ text, Json.parse text = .ok a.body := by
    have hnull : Json.parse "null".toList = .ok .null := by rfl
    intro a ha
    simp only [List.mem_cons, List.not_mem_nil, or_false] at ha
    rcases ha with rfl | rfl | rfl
    · exact ⟨_, hnull⟩
    · exact ⟨_, hparse⟩
    · exact ⟨_, hnull⟩
  rw [← hafter] at hentry
  obtain ⟨record, -, hcompiles, hreads⟩ := library_reads_iff hbodies hentry
  have hread := ((recordOf r f name).yields_reread _).mpr ⟨hfinite, rfl⟩
  obtain ⟨-, hsame⟩ := (hreads _).mp hread
  rw [hread, hsame] at hentry
  exact ⟨body, hparse, record, hentry, hcompiles⟩

/-- A function without a body that is drawn at infinity. -/
def atInfinity : List Char :=
  Json.write .compact 0 (.obj [("graph", .obj [("nodes", .arr [.obj [("id", .str "f"),
    ("type", .str "functionDefine"), ("data", .obj [("name", .str "f")]),
    ("position", .obj [("x", .str "inf")])]])]), ("root_id", .str "f")])

/-- Not every entry of the library can be compiled: one that is drawn at infinity cannot be read. -/
theorem not_forall_library_compiles :
    ¬ ∀ sequence : List Arrival, (∀ a ∈ sequence, ∃ text, Json.parse text = .ok a.body) →
      ∀ key entry, (({} : Service).after sequence).library.get? key = some entry →
        ∃ record, entry = .ok record ∧ record.Compiles key := by
  intro hall
  have hsample : (Json.parse atInfinity).toOption.any (fun body =>
      (savedWithin 2 {} body).any (isDrawn false "f")) = true := by
    decide +kernel
  obtain ⟨body, r, f, g, b, hparse, h, hcheck⟩ := exists_saves hsample
  simp only [isDrawn, Bool.and_eq_true, List.any_eq_true, decide_eq_true_eq, beq_iff_eq] at hcheck
  obtain ⟨hinfinite, n, hn, hid, -⟩ := hcheck
  obtain ⟨name, hentry⟩ := h.get?_library_saving hn hid
  have hbodies : ∀ a ∈ [saving body], ∃ text, Json.parse text = .ok a.body := by
    intro a ha
    cases List.mem_singleton.mp ha
    exact ⟨_, hparse⟩
  obtain ⟨record, hread, -⟩ := hall [saving body] hbodies _ _ hentry
  have hfinite := (((recordOf r f name).yields_reread _).mp hread).1
  exact absurd (hinfinite.symm.trans hfinite) (by decide)

end Service

end Blockflow
