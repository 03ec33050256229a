import Blockflow.Proofs.Program.Caller
import Blockflow.Proofs.Program.Fragment
import Blockflow.Proofs.Store.Reread
import Blockflow.Service.Basic

/-!
# Saving functions

A definition is saved if its fragment, as a graph of its own, has a program with the functions that
are saved already (`Service.Saves`). A call of the function is compiled in another way: the fragment
is read back from its file, and its calls are resolved on behalf of the call. The two ways differ in
two places. A coordinate that is not finite cannot be read back. And the classes of the fragment
come too late to answer calls of methods. In all other cases a function that was saved can be called
(`Service.saveFunction_callable_iff`).
-/

namespace Blockflow

/-! ## Stores -/

theorem Store.save_eq_ok {ρ : Type} [Record ρ] {s s' : Store ρ} {record : ρ}
    (h : s.save record = .ok s') :
    s'.entries = s.entries.insert (Text.trim (Record.name record)) record := by
  unfold save at h
  obtain ⟨key, hkey, h⟩ := bind_eq_ok.mp h
  have hkey : key = Text.trim (Record.name record) := by
    unfold checkName at hkey
    simp only at hkey
    split at hkey
    next => exact (Except.ok.inj hkey).symm
    next => cases hkey
  split at h
  next => cases h
  next =>
    obtain ⟨_, -, h⟩ := bind_eq_ok.mp h
    cases h
    rw [hkey]

namespace Service

variable {s : Service} {runner : RunnerSetting} {body : Json} {r : FunctionSaving} {f : Fragment}
  {g : Graph} {b : Build}

/-! ## Requests that succeed -/

/-- The record that is kept for a fragment. -/
def recordOf (r : FunctionSaving) (f : Fragment) (name : String) : SavedFunction :=
  { name, params := f.params, description := r.description, subgraph := f.diagram }

/-- The body of a request asks for a definition that can be saved: its fragment is a valid graph
that can be built, and has a name under which there can be a record. -/
structure Saves (s : Service) (body : Json) (r : FunctionSaving) (f : Fragment) (g : Graph)
    (b : Build) : Prop where
  read : readBody functionSaving body = .ok r
  cut : fragment r.diagram r.root = .ok f
  load : Graph.load f.diagram = .ok g
  valid : g.Valid
  build : g.build defaultLimit s.library = .ok b
  stored : ∃ name store, f.name = .text name ∧ s.functions.save (recordOf r f name) = .ok store

theorem readBody_status {α : Type} {reader : Schema.Reader α} {response : Response}
    (h : readBody reader body = .error response) : response.status = 422 := by
  have hfaults : ∀ checked : Checked α,
      checked.mapError Response.schemaFaults = .error response → response.status = 422 := by
    intro checked hchecked
    cases checked with
    | ok => cases hchecked
    | error =>
      cases hchecked
      rfl
  exact hfaults _ h

theorem exists_of_readBody {α : Type} {reader : Schema.Reader α} {a : α}
    (h : readBody reader body = .ok a) : ∃ path, reader path body = .ok a := by
  have hok : ∀ checked : Checked α,
      checked.mapError Response.schemaFaults = .ok a → checked = .ok a := by
    intro checked hchecked
    cases checked with
    | ok => exact congrArg Except.ok (Except.ok.inj hchecked)
    | error => cases hchecked
  cases body with
  | null => cases h
  | _ => exact ⟨[.key "body"], hok _ h⟩

theorem ensures_functionSaving :
    Schema.Ensures functionSaving fun r => ∀ n ∈ r.diagram.nodes, n.data.keys.Nodup := by
  intro path value r hvalue hread
  obtain ⟨members, rfl, hread⟩ := Schema.exists_of_record hread
  obtain ⟨⟨diagram, root, description⟩, hboth, rfl⟩ := Checked.exists_of_map_eq_ok hread
  exact Schema.ensures_diagram.required hvalue (Checked.both_eq_ok.mp hboth).1

theorem functionRecord_status {lib : Library} {response : Response}
    (h : functionRecord lib r = .error response) : response.status ≠ 200 := by
  unfold functionRecord at h
  simp only at h
  split at h
  next failure _ =>
    cases h
    cases failure <;>
      simp [Response.ofFailure, Response.compileError, Response.refusal, Response.broken]
  next f _ =>
    split at h
    next => cases h
    next =>
      cases h
      simp [Response.broken]

theorem functionRecord_eq_ok {lib : Library} {record : SavedFunction} :
    functionRecord lib r = .ok record ↔
      ∃ f g b name, fragment r.diagram r.root = .ok f ∧ Graph.load f.diagram = .ok g ∧ g.Valid ∧
        g.build defaultLimit lib = .ok b ∧ f.name = .text name ∧ record = recordOf r f name := by
  unfold functionRecord
  simp only
  constructor
  · intro h
    split at h
    next => cases h
    next f hchecked =>
      obtain ⟨f', hcut, h'⟩ := bind_eq_ok.mp hchecked
      obtain ⟨g, hload, h'⟩ := bind_eq_ok.mp h'
      obtain ⟨p, hprogram, h'⟩ := bind_eq_ok.mp h'
      cases h'
      obtain ⟨_, hvalid, hprogram⟩ := bind_eq_ok.mp hprogram
      obtain ⟨b, hbuild, -⟩ := bind_eq_ok.mp hprogram
      split at h
      next name hname =>
        cases h
        exact ⟨f, g, b, name, hcut, hload, Graph.ensureValid_eq_ok.mp hvalid, hbuild, hname, rfl⟩
      next => cases h
  · rintro ⟨f, g, b, name, hcut, hload, hvalid, hbuild, hname, rfl⟩
    have hprogram : g.program lib = .ok b.program :=
      bind_eq_ok.mpr ⟨(), Graph.ensureValid_eq_ok.mpr hvalid, bind_eq_ok.mpr ⟨b, hbuild, rfl⟩⟩
    simp only [hcut, hload, hprogram, bind, Except.bind, pure, Except.pure, hname, recordOf]

/-- If no key of the body is repeated, the fragment is read back as it was. -/
theorem fragment_readBack_eq (hbody : body.Distinct) (hread : readBody functionSaving body = .ok r)
    (hcut : fragment r.diagram r.root = .ok f) (hload : Graph.load f.diagram = .ok g)
    (hvalid : g.Valid) : f.diagram.readBack = f.diagram := by
  obtain ⟨whole, hwhole, hextract⟩ := bind_eq_ok.mp hcut
  obtain ⟨path, hread⟩ := exists_of_readBody hread
  have hkeys := ensures_functionSaving path body r hbody hread
  exact Diagram.readBack_eq_self fun n hn entry hentry =>
    Graph.exists_str_of_load hwhole hextract hload hvalid hkeys hn hentry

/-- The service after a function was saved. -/
theorem Saves.handle_eq (h : s.Saves body r f g b) (runner : RunnerSetting) :
    ∃ name store, f.name = .text name ∧ s.functions.save (recordOf r f name) = .ok store ∧
      s.handle runner ⟨.saveFunction, body⟩ =
        (.success (.obj [("success", .bool true), ("name", .str name)]),
          { s with functions := store }) := by
  obtain ⟨name, store, hname, hstore⟩ := h.stored
  have hrecord : readBody functionSaving body >>= functionRecord s.library =
      .ok (recordOf r f name) :=
    bind_eq_ok.mpr ⟨r, h.read, functionRecord_eq_ok.mpr
      ⟨f, g, b, name, h.cut, h.load, h.valid, h.build, hname, rfl⟩⟩
  refine ⟨name, store, hname, hstore, ?_⟩
  simp only [handle, hrecord, save, hstore, withFunctions]
  rfl

/-- **A function is saved exactly if everything up to its store succeeds.** -/
theorem saveFunction_status_iff (runner : RunnerSetting) :
    (s.handle runner ⟨.saveFunction, body⟩).1.status = 200 ↔ ∃ r f g b, s.Saves body r f g b := by
  constructor
  · intro h
    unfold handle at h
    simp only at h
    split at h
    next record hrecord =>
      obtain ⟨r, hread, hrecord⟩ := bind_eq_ok.mp hrecord
      obtain ⟨f, g, b, name, hcut, hload, hvalid, hbuild, hname, rfl⟩ :=
        functionRecord_eq_ok.mp hrecord
      refine ⟨r, f, g, b, hread, hcut, hload, hvalid, hbuild, name, ?_⟩
      unfold save at h
      split at h
      next e _ => cases e <;> cases h
      next store hstore => exact ⟨store, hname, hstore⟩
    next response hresponse =>
      cases hread : readBody functionSaving body with
      | error =>
        rw [hread] at hresponse
        cases hresponse
        rw [readBody_status hread] at h
        cases h
      | ok r =>
        rw [hread] at hresponse
        exact absurd h (functionRecord_status hresponse)
  · rintro ⟨r, f, g, b, h⟩
    obtain ⟨name, store, -, -, hhandle⟩ := h.handle_eq runner
    rw [hhandle]
    rfl

/-! ## Calling what was saved -/

namespace Saves

variable {n : Node} {id : String}

/-- In the library, the name of the function now stands for its record, and every other name for
what it stood for. -/
theorem get?_library (h : s.Saves body r f g b) (runner : RunnerSetting) (hn : n ∈ g.nodes)
    (hid : n.id = r.root) :
    ∃ name, ∀ other, (s.handle runner ⟨.saveFunction, body⟩).2.library.get? other =
      if n.definedName = other then some (Record.reread (recordOf r f name))
      else s.library.get? other := by
  obtain ⟨whole, -, hextract⟩ := bind_eq_ok.mp h.cut
  obtain ⟨name, store, hname, hstore, hhandle⟩ := h.handle_eq runner
  refine ⟨name, fun other => ?_⟩
  rw [hhandle, Graph.definedName_of_load hextract h.load hname hn hid]
  simp only [library]
  rw [Dict.get?_map, Dict.get?_map, Store.save_eq_ok hstore, Dict.get?_insert]
  show Option.map _ (if Text.trim name = other then _ else _) = _
  split <;> rfl

/-- A fragment that is read back as it was can be called, unless it calls methods. -/
theorem exists_program_iff (h : s.Saves body r f g b) (hn : n ∈ g.nodes) (hid : n.id = r.root)
    (hb : n.block? = some .function) (hfinite : f.diagram.isFinite = true)
    (hback : f.diagram.readBack = f.diagram) :
    (∃ p, (Graph.caller id n.definedName).program
        (s.handle runner ⟨.saveFunction, body⟩).2.library = .ok p) ↔
      ∀ site ∈ b.calls, '.' ∉ site.name.toList := by
  obtain ⟨whole, hwhole, hextract⟩ := bind_eq_ok.mp h.cut
  obtain ⟨name, hlibrary⟩ := h.get?_library runner hn hid
  obtain ⟨main, a, -, hassemble, -⟩ := Graph.build_eq_ok.mp h.build
  have hdefines :=
    (Graph.rooted_of_load hwhole hextract h.load).mem_names h.valid hassemble hn hid hb rfl
  have hreread : Record.reread (recordOf r f name) = .ok (recordOf r f name) := by
    refine ((recordOf r f name).yields_reread _).mpr ⟨hfinite, ?_⟩
    simp only [recordOf, hback]
  have hget : (s.handle runner ⟨.saveFunction, body⟩).2.library.get? n.definedName =
      some (.ok (recordOf r f name)) := by
    rw [hlibrary, if_pos rfl, hreread]
  refine Graph.exists_program_caller_iff h.valid h.build h.load hassemble hdefines
    (h.valid.isName_definition (Graph.tidy_of_load h.load) hn hb rfl) hget fun other hne => ?_
  rw [hlibrary, if_neg (Ne.symm hne)]

/-- A fragment that cannot be read back cannot be called. -/
theorem program_eq_unreadable (h : s.Saves body r f g b) (hn : n ∈ g.nodes) (hid : n.id = r.root)
    (hb : n.block? = some .function) (hfinite : ¬ f.diagram.isFinite = true) :
    (Graph.caller id n.definedName).program (s.handle runner ⟨.saveFunction, body⟩).2.library =
      .error (.defect (.unreadableEntry n.definedName)) := by
  obtain ⟨name, hlibrary⟩ := h.get?_library runner hn hid
  cases hreread : Record.reread (recordOf r f name) with
  | ok => exact absurd (((recordOf r f name).yields_reread _).mp hreread).1 hfinite
  | error faults =>
    have hget : (s.handle runner ⟨.saveFunction, body⟩).2.library.get? n.definedName =
        some (.error faults) := by
      rw [hlibrary, if_pos rfl, hreread]
    have hisName := h.valid.isName_definition (Graph.tidy_of_load h.load) hn hb rfl
    exact Graph.program_caller_of_unreadable hisName hget

end Saves

/-- **A function that was saved can be called exactly if no method is called on its behalf** and
every coordinate of its fragment has a written form. It does not matter which functions are saved
already, nor what is inside of the definition. -/
theorem saveFunction_callable_iff {text : List Char} (hbody : Json.parse text = .ok body)
    (hok : (s.handle runner ⟨.saveFunction, body⟩).1.status = 200) :
    ∃ r f g b, s.Saves body r f g b ∧
      ∀ n ∈ g.nodes, n.id = r.root → n.block? = some .function → ∀ id,
        ((∃ p, (Graph.caller id n.definedName).program
            (s.handle runner ⟨.saveFunction, body⟩).2.library = .ok p) ↔
          f.diagram.isFinite = true ∧ ∀ site ∈ b.calls, '.' ∉ site.name.toList) := by
  obtain ⟨r, f, g, b, h⟩ := (saveFunction_status_iff runner).mp hok
  have hback :=
    fragment_readBack_eq (Json.distinct_of_parse hbody) h.read h.cut h.load h.valid
  refine ⟨r, f, g, b, h, fun n hn hid hb id => ?_⟩
  by_cases hfinite : f.diagram.isFinite = true
  · rw [h.exists_program_iff hn hid hb hfinite hback]
    exact (and_iff_right hfinite).symm
  · rw [h.program_eq_unreadable hn hid hb hfinite]
    simp [hfinite]

/-- What a request asks for, if it can be saved and its calls are resolved in at most `n` rounds.
Unlike the response it can be evaluated. -/
def savedWithin (n : Nat) (s : Service) (body : Json) :
    Option (FunctionSaving × Fragment × Graph × Build) := do
  let r ← (readBody functionSaving body).toOption
  let f ← (fragment r.diagram r.root).toOption
  let g ← (Graph.load f.diagram).toOption
  g.ensureValid.toOption
  let b ← (← g.buildWithin n defaultLimit s.library).toOption
  match f.name with
  | .text name =>
    let _ ← (s.functions.save (recordOf r f name)).toOption
    return (r, f, g, b)
  | .object _ => none

theorem toOption_eq_some {ε α : Type} {x : Except ε α} {a : α} :
    x.toOption = some a ↔ x = .ok a := by
  cases x <;> simp [Except.toOption]

theorem saves_of_savedWithin {n : Nat} (h : s.savedWithin n body = some (r, f, g, b)) :
    s.Saves body r f g b := by
  obtain ⟨r', hread, h⟩ := Option.bind_eq_some_iff.mp h
  obtain ⟨f', hcut, h⟩ := Option.bind_eq_some_iff.mp h
  obtain ⟨g', hload, h⟩ := Option.bind_eq_some_iff.mp h
  obtain ⟨_, hvalid, h⟩ := Option.bind_eq_some_iff.mp h
  obtain ⟨result, hresult, h⟩ := Option.bind_eq_some_iff.mp h
  obtain ⟨b', hb, h⟩ := Option.bind_eq_some_iff.mp h
  split at h
  next name hname =>
    obtain ⟨store, hstore, h⟩ := Option.bind_eq_some_iff.mp h
    cases h
    refine ⟨toOption_eq_some.mp hread, toOption_eq_some.mp hcut, toOption_eq_some.mp hload,
      Graph.ensureValid_eq_ok.mp (toOption_eq_some.mp hvalid), ?_,
      name, store, hname, toOption_eq_some.mp hstore⟩
    rw [Graph.build_eq_of_buildWithin hresult]
    exact toOption_eq_some.mp hb
  next => cases h

theorem exists_saves {k : Nat} {text : List Char}
    {check : FunctionSaving × Fragment × Graph × Build → Bool}
    (h : (Json.parse text).toOption.any (fun body => (s.savedWithin k body).any check) = true) :
    ∃ body r f g b, Json.parse text = .ok body ∧ s.Saves body r f g b ∧
      check (r, f, g, b) = true := by
  obtain ⟨body, hparse, h⟩ := (Option.any_eq_true _ _).mp h
  obtain ⟨⟨r, f, g, b⟩, hsaved, hcheck⟩ := (Option.any_eq_true _ _).mp h
  exact ⟨body, r, f, g, b, toOption_eq_some.mp hparse, saves_of_savedWithin hsaved, hcheck⟩

/-- A function with a class inside of it, an object of the class, and a call. -/
def nested (called : String) : Diagram where
  nodes :=
    [{ id := "f", type := "functionDefine", data := [("name", .str "f")]
       position := [("x", .finite false 5 (-1))] },
     { id := "c", type := "classDefine", data := [("name", .str "C")] },
     { id := "m", type := "functionDefine", data := [("name", .str "m")] },
     { id := "o", type := "createObject", data := [("className", .str "C"), ("name", .str "o")] },
     { id := "k", type := "functionCall", data := [("name", .str called)] }]
  edges :=
    [{ id := "e1", source := "f", target := "c", sourceHandle := some "body" },
     { id := "e2", source := "c", target := "m", sourceHandle := some "body" },
     { id := "e3", source := "c", target := "o" },
     { id := "e4", source := "o", target := "k" }]

/-- The text of a request to save the definition at a node. -/
def savingText (d : Diagram) (root : String) : List Char :=
  Json.write .file 0 (.obj [("graph", d.toJson .editor), ("root_id", .str root)])

/-- The definition is a function of this name, all coordinates are finite, and what was built is as
it should be. -/
def isSample (name : String) (check : Build → Bool) :
    FunctionSaving × Fragment × Graph × Build → Bool
  | (r, f, g, b) =>
    f.diagram.isFinite && check b &&
      g.nodes.any fun n => n.id = r.root && n.block? = some .function && n.definedName = name

theorem exists_sample {k : Nat} {text : List Char} {name : String} {check : Build → Bool}
    (h : (Json.parse text).toOption.any (fun body =>
      (s.savedWithin k body).any (isSample name check)) = true) :
    ∃ body r f g b, Json.parse text = .ok body ∧ s.Saves body r f g b ∧
      f.diagram.isFinite = true ∧ check b = true ∧
      ∃ n ∈ g.nodes, n.id = r.root ∧ n.block? = some .function ∧ n.definedName = name := by
  obtain ⟨body, r, f, g, b, hparse, hsaves, hsample⟩ := exists_saves h
  simp only [isSample, Bool.and_eq_true, List.any_eq_true, decide_eq_true_eq, and_assoc] at hsample
  exact ⟨body, r, f, g, b, hparse, hsaves, hsample⟩

theorem saveFunction_callable_iff_nested :
    ∃ body, Json.parse (savingText (nested "f") "f") = .ok body ∧
      (({} : Service).handle {} ⟨.saveFunction, body⟩).1.status = 200 ∧
      ∃ p, (Graph.caller "x" "f").program
        (({} : Service).handle {} ⟨.saveFunction, body⟩).2.library = .ok p := by
  -- the function calls itself, and has a class inside of it that it makes an object of
  have hsample : (Json.parse (savingText (nested "f") "f")).toOption.any (fun body =>
      (savedWithin 2 {} body).any
        (isSample "f" fun b => b.calls.all (!·.name.toList.contains '.'))) = true := by
    decide +kernel
  obtain ⟨body, r, f, g, b, hparse, h, hfinite, hcalls, n, hn, hid, hb, hname⟩ :=
    exists_sample hsample
  have hok := (saveFunction_status_iff {}).mpr ⟨r, f, g, b, h⟩
  obtain ⟨r', f', g', b', h', hiff⟩ := saveFunction_callable_iff hparse hok
  cases h.read.symm.trans h'.read
  cases h.cut.symm.trans h'.cut
  cases h.load.symm.trans h'.load
  cases h.build.symm.trans h'.build
  have hdots : ∀ site ∈ b.calls, '.' ∉ site.name.toList := by simpa using hcalls
  have hcallable := (hiff n hn hid hb "x").mpr ⟨hfinite, hdots⟩
  rw [hname] at hcallable
  exact ⟨body, hparse, hok, hcallable⟩

/-- Not every function that was saved can be called: a method of its own class is not found. -/
theorem not_forall_callable :
    ¬ ∀ (s : Service) (runner : RunnerSetting) (text : List Char) (body : Json)
      (r : FunctionSaving) (f : Fragment) (g : Graph) (n : Node) (id : String),
      Json.parse text = .ok body → (s.handle runner ⟨.saveFunction, body⟩).1.status = 200 →
      readBody functionSaving body = .ok r → fragment r.diagram r.root = .ok f →
      Graph.load f.diagram = .ok g → n ∈ g.nodes → n.id = r.root → n.block? = some .function →
      ∃ p, (Graph.caller id n.definedName).program
        (s.handle runner ⟨.saveFunction, body⟩).2.library = .ok p := by
  intro hall
  have hsample : (Json.parse (savingText (nested "o.m") "f")).toOption.any (fun body =>
      (savedWithin 2 {} body).any
        (isSample "f" fun b => b.calls.any (·.name.toList.contains '.'))) = true := by
    decide +kernel
  obtain ⟨body, r, f, g, b, hparse, h, hfinite, hcalls, n, hn, hid, hb, -⟩ := exists_sample hsample
  have hok := (saveFunction_status_iff {}).mpr ⟨r, f, g, b, h⟩
  have hcallable := hall _ {} _ _ r f g n "x" hparse hok h.read h.cut h.load hn hid hb
  have hback :=
    fragment_readBack_eq (Json.distinct_of_parse hparse) h.read h.cut h.load h.valid
  have hdots := (h.exists_program_iff hn hid hb hfinite hback).mp hcallable
  obtain ⟨site, hsite, hdot⟩ := List.any_eq_true.mp hcalls
  exact hdots site hsite (by simpa using hdot)

end Service

end Blockflow
