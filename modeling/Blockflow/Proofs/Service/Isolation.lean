import Blockflow.Service.Basic

/-!
# Two stores that do not touch

What a request can do to the service is said once, in `Service.Effect`: it changes nothing, or it
changes one of the two stores and succeeds. Requests for projects look at the projects only, and all
other requests at the functions only (`Service.receive_project`, `Service.receive_other`). So
requests of the one kind can be put into a sequence of requests or taken out of it, and the requests
of the other kind are answered as before (`Service.answersTo_filter`).
-/

namespace Blockflow.Service

/-! ## Requests as they arrive -/

/-- A request as it arrives, and the runner that is configured then. -/
structure Arrival where
  method : String
  path : String
  name : Option String := none
  body : Json := .null
  runner : RunnerSetting := {}

/-- The response to a request that arrives, and the service after it. -/
def receive (s : Service) (a : Arrival) : Response × Service :=
  s.respond a.runner a.method a.path a.name a.body

/-- The place where the request is made, if it is understood. -/
def Arrival.place? (a : Arrival) : Option Place :=
  (Request.ofRoute a.method a.path a.name a.body).toOption.map (·.place)

/-- Is the place about projects? -/
def Place.isProject : Place → Bool
  | .saveProject | .listProjects | .loadProject _ | .deleteProject _ => true
  | _ => false

/-- Is nothing saved or deleted at the place? -/
def Place.isReading : Place → Bool
  | .saveProject | .deleteProject _ | .saveFunction | .deleteFunction _ => false
  | _ => true

def Arrival.isProject (a : Arrival) : Bool := a.place?.any Place.isProject

def Arrival.isReading (a : Arrival) : Bool := a.place?.all Place.isReading

theorem Arrival.place?_eq_some {a : Arrival} {place : Place}
    (hplace : Service.place? a.path a.name = some place)
    (hmethod : a.method.toUpper = place.method) : a.place? = some place := by
  unfold Arrival.place? Request.ofRoute
  rw [hplace]
  simp only [if_pos hmethod]
  rfl

theorem receive_of_place {a : Arrival} {place : Place} (h : a.place? = some place) (s : Service) :
    s.receive a = s.handle a.runner ⟨place, a.body⟩ := by
  obtain ⟨r, hr, rfl⟩ := Option.map_eq_some_iff.mp h
  have hroute : Request.ofRoute a.method a.path a.name a.body = .ok ⟨r.place, a.body⟩ := by
    unfold Request.ofRoute at hr ⊢
    split at hr
    next => cases hr
    next =>
      split at hr
      next hmethod =>
        cases hr
        exact if_pos hmethod
      next => cases hr
  unfold receive respond
  rw [hroute]

/-- A request that is not understood is refused without a look at the stores. -/
theorem receive_of_none {a : Arrival} (h : a.place? = none) :
    ∃ response, ∀ s : Service, s.receive a = (response, s) := by
  unfold receive respond
  cases hroute : Request.ofRoute a.method a.path a.name a.body with
  | error response => exact ⟨_, fun _ => rfl⟩
  | ok r =>
    rw [Arrival.place?, hroute] at h
    cases h

/-! ## Effects -/

section

variable {ρ : Type}

theorem save_cases [Record ρ] (store : Store ρ) (record : ρ) :
    (save store record).2 = store ∨
      ((save store record).1.status = 200 ∧ store.save record = .ok (save store record).2) := by
  unfold save
  split
  next => exact .inl rfl
  next hsave => exact .inr ⟨rfl, hsave⟩

theorem delete_cases (store : Store ρ) (what name : String) :
    (delete store what name).2 = store ∨
      ((delete store what name).1.status = 200 ∧
        store.delete name = .ok (true, (delete store what name).2)) := by
  unfold delete
  split
  next => exact .inl rfl
  next => exact .inl rfl
  next hdelete => exact .inr ⟨rfl, hdelete⟩

end

/-- A request changes the library: a function is saved, or one is deleted. -/
inductive ChangesLibrary (s : Service) (a : Arrival) (functions : Store SavedFunction) : Prop where
  | saved {record : SavedFunction} : a.place? = some .saveFunction →
      readBody functionSaving a.body >>= functionRecord s.library = .ok record →
      s.functions.save record = .ok functions → ChangesLibrary s a functions
  | deleted {name : String} : a.place? = some (.deleteFunction name) →
      s.functions.delete name = .ok (true, functions) → ChangesLibrary s a functions

/-- What a request does to the service: nothing, or it changes one store, and then it succeeds and
was made to do so. -/
inductive Effect (s : Service) (a : Arrival) : Prop where
  | none : (s.receive a).2 = s → Effect s a
  | projects {store : Store SavedProject} : (s.receive a).2 = { s with projects := store } →
      (s.receive a).1.status = 200 → a.isReading = false → Effect s a
  | functions {store : Store SavedFunction} : (s.receive a).2 = { s with functions := store } →
      (s.receive a).1.status = 200 → a.isReading = false → ChangesLibrary s a store → Effect s a

theorem effect (s : Service) (a : Arrival) : Effect s a := by
  cases hplace : a.place? with
  | none =>
    obtain ⟨response, hresponse⟩ := receive_of_none hplace
    exact .none (by rw [hresponse])
  | some place =>
    have hreceive := receive_of_place hplace s
    have hreading : place.isReading = false → a.isReading = false := by
      intro h
      rw [Arrival.isReading, hplace]
      exact h
    cases place with
    | saveProject =>
      simp only [handle] at hreceive
      split at hreceive
      next project _ =>
        rcases save_cases s.projects project with hsame | ⟨hstatus, -⟩
        · exact .none (by rw [hreceive, withProjects, hsame])
        · exact .projects (by rw [hreceive]; rfl) (by rw [hreceive]; exact hstatus) (hreading rfl)
      next => exact .none (by rw [hreceive])
    | deleteProject name =>
      simp only [handle] at hreceive
      rcases delete_cases s.projects "Project" name with hsame | ⟨hstatus, -⟩
      · exact .none (by rw [hreceive, withProjects, hsame])
      · exact .projects (by rw [hreceive]; rfl) (by rw [hreceive]; exact hstatus) (hreading rfl)
    | saveFunction =>
      simp only [handle] at hreceive
      split at hreceive
      next record hrecord =>
        rcases save_cases s.functions record with hsame | ⟨hstatus, hsave⟩
        · exact .none (by rw [hreceive, withFunctions, hsame])
        · exact .functions (by rw [hreceive]; rfl) (by rw [hreceive]; exact hstatus) (hreading rfl)
            (.saved hplace hrecord hsave)
      next => exact .none (by rw [hreceive])
    | deleteFunction name =>
      simp only [handle] at hreceive
      rcases delete_cases s.functions "Function" name with hsame | ⟨hstatus, hdelete⟩
      · exact .none (by rw [hreceive, withFunctions, hsame])
      · exact .functions (by rw [hreceive]; rfl) (by rw [hreceive]; exact hstatus) (hreading rfl)
          (.deleted hplace hdelete)
    | _ => exact .none (by rw [hreceive]; rfl)

/-- A request that does not succeed changes nothing. -/
theorem receive_of_failed {s : Service} {a : Arrival} (h : (s.receive a).1.status ≠ 200) :
    (s.receive a).2 = s := by
  cases effect s a with
  | none hsame => exact hsame
  | projects _ hok => exact absurd hok h
  | functions _ hok => exact absurd hok h

/-- A request that only reads changes nothing. -/
theorem receive_of_isReading {a : Arrival} (h : a.isReading = true) (s : Service) :
    (s.receive a).2 = s := by
  cases effect s a with
  | none hsame => exact hsame
  | projects _ _ hnot => cases h.symm.trans hnot
  | functions _ _ hnot => cases h.symm.trans hnot

/-! ## What a response depends on -/

/-- Requests for projects look at the projects only, and leave the functions alone. -/
theorem receive_project {s t : Service} {a : Arrival} (ha : a.isProject = true)
    (h : s.projects = t.projects) :
    (s.receive a).1 = (t.receive a).1 ∧ (s.receive a).2.projects = (t.receive a).2.projects ∧
      (s.receive a).2.functions = s.functions := by
  unfold Arrival.isProject at ha
  obtain ⟨place, hplace, hproject⟩ := (Option.any_eq_true _ _).mp ha
  rw [receive_of_place hplace, receive_of_place hplace]
  obtain ⟨projects, functions⟩ := s
  obtain ⟨_, functions'⟩ := t
  cases h
  cases place with
  | saveProject =>
    simp only [handle]
    split <;> exact ⟨rfl, rfl, rfl⟩
  | listProjects | loadProject | deleteProject => exact ⟨rfl, rfl, rfl⟩
  | _ => cases hproject

/-- All other requests look at the functions only, and leave the projects alone. -/
theorem receive_other {s t : Service} {a : Arrival} (ha : a.isProject = false)
    (h : s.functions = t.functions) :
    (s.receive a).1 = (t.receive a).1 ∧ (s.receive a).2.functions = (t.receive a).2.functions ∧
      (s.receive a).2.projects = s.projects := by
  cases hplace : a.place? with
  | none =>
    obtain ⟨response, hresponse⟩ := receive_of_none hplace
    rw [hresponse, hresponse]
    exact ⟨rfl, h, rfl⟩
  | some place =>
    rw [Arrival.isProject, hplace] at ha
    rw [receive_of_place hplace, receive_of_place hplace]
    obtain ⟨projects, functions⟩ := s
    obtain ⟨projects', _⟩ := t
    cases h
    cases place with
    | saveFunction =>
      have hlibrary : library ⟨projects, functions⟩ = library ⟨projects', functions⟩ := rfl
      simp only [handle, hlibrary]
      split <;> exact ⟨rfl, rfl, rfl⟩
    | saveProject | listProjects | loadProject | deleteProject => cases ha
    | _ => exact ⟨rfl, rfl, rfl⟩

/-! ## Sequences of requests -/

/-- The responses to those requests of a sequence that are of the one kind. -/
def answersTo (kind : Arrival → Bool) : Service → List Arrival → List Response
  | _, [] => []
  | s, a :: rest =>
    let (response, s') := s.receive a
    if kind a then response :: answersTo kind s' rest else answersTo kind s' rest

/-- **Requests that leave the part of the service alone that the requests of the one kind look at
can be left out.** -/
theorem answersTo_filter {kind : Arrival → Bool} (Alike : Service → Service → Prop)
    (hkind : ∀ {s t a}, Alike s t → kind a = true →
      (s.receive a).1 = (t.receive a).1 ∧ Alike (s.receive a).2 (t.receive a).2)
    (hother : ∀ {s t a}, Alike s t → kind a = false → Alike (s.receive a).2 t) :
    ∀ (sequence : List Arrival) {s t : Service}, Alike s t →
      answersTo kind s sequence = answersTo kind t (sequence.filter kind)
  | [], _, _, _ => rfl
  | a :: rest, s, t, h => by
    by_cases ha : kind a = true
    · obtain ⟨hresponse, hafter⟩ := hkind h ha
      rw [List.filter_cons_of_pos ha]
      simp only [answersTo, if_pos ha, hresponse]
      rw [answersTo_filter Alike hkind hother rest hafter]
    · rw [List.filter_cons_of_neg ha]
      simp only [answersTo, if_neg ha]
      exact answersTo_filter Alike hkind hother rest (hother h (by simpa using ha))

theorem answersTo_isProject (s : Service) (sequence : List Arrival) :
    answersTo Arrival.isProject s sequence =
      answersTo Arrival.isProject s (sequence.filter Arrival.isProject) := by
  refine answersTo_filter (fun s t => s.projects = t.projects) ?_ ?_ sequence rfl
  · intro s t a h ha
    obtain ⟨hresponse, hprojects, -⟩ := receive_project ha h
    exact ⟨hresponse, hprojects⟩
  · intro s t a h ha
    exact (receive_other (t := s) ha rfl).2.2.trans h

theorem answersTo_not_isProject (s : Service) (sequence : List Arrival) :
    answersTo (!·.isProject) s sequence =
      answersTo (!·.isProject) s (sequence.filter (!·.isProject)) := by
  refine answersTo_filter (fun s t => s.functions = t.functions) ?_ ?_ sequence rfl
  · intro s t a h ha
    obtain ⟨hresponse, hfunctions, -⟩ := receive_other (by simpa using ha) h
    exact ⟨hresponse, hfunctions⟩
  · intro s t a h ha
    exact (receive_project (t := s) (by simpa using ha) rfl).2.2.trans h

/-- **Requests are atomic and the two stores do not touch.** A request that does not succeed changes
nothing, and neither does one that only reads. Sequences with the same requests for projects get the
same responses to them, whatever other requests they have; and sequences with the same other
requests get the same responses to those, whatever requests for projects they have. -/
theorem receive_isolated :
    (∀ (s : Service) (a : Arrival), (s.receive a).1.status ≠ 200 → (s.receive a).2 = s) ∧
    (∀ (s : Service) (a : Arrival), a.isReading = true → (s.receive a).2 = s) ∧
    (∀ (s : Service) (xs ys : List Arrival),
      xs.filter Arrival.isProject = ys.filter Arrival.isProject →
      answersTo Arrival.isProject s xs = answersTo Arrival.isProject s ys) ∧
    (∀ (s : Service) (xs ys : List Arrival),
      xs.filter (!·.isProject) = ys.filter (!·.isProject) →
      answersTo (!·.isProject) s xs = answersTo (!·.isProject) s ys) := by
  refine ⟨fun s a hstatus => receive_of_failed hstatus,
    fun s a hreading => receive_of_isReading hreading s, fun s xs ys h => ?_, fun s xs ys h => ?_⟩
  · rw [answersTo_isProject, h, ← answersTo_isProject]
  · rw [answersTo_not_isProject, h, ← answersTo_not_isProject]

/-- Save a project without blocks. -/
def savingProject (name : String) : Arrival :=
  { method := "POST", path := "save-project", body := .obj [("name", .str name)] }

/-- Save a function without a body. -/
def savingFunction (name : String) : Arrival :=
  { method := "POST", path := "save-function",
    body := .obj [("graph", .obj [("nodes", .arr [.obj [("id", .str "f"),
      ("type", .str "functionDefine"), ("data", .obj [("name", .str name)])]])]),
      ("root_id", .str "f")] }

def deletingFunction (name : String) : Arrival :=
  { method := "DELETE", path := "delete-function", name := some name }

def loadingProject (name : String) : Arrival :=
  { method := "GET", path := "load-project", name := some name }

def listingFunctions : Arrival := { method := "GET", path := "list-functions" }

/-- A project and a function of the same name, saved and asked for in two orders. -/
theorem receive_isolated_interleaved :
    ((({} : Service).receive (deletingFunction "f")).1.status = 404 ∧
      (({} : Service).receive (deletingFunction "f")).2 = {}) ∧
    (listingFunctions.isReading = true ∧ (({} : Service).receive listingFunctions).2 = {}) ∧
    answersTo Arrival.isProject {}
        [savingProject "f", savingFunction "f", deletingFunction "f", loadingProject "f"] =
      answersTo Arrival.isProject {} [savingProject "f", loadingProject "f", listingFunctions] ∧
    answersTo (!·.isProject) {} [savingFunction "f", savingProject "f", listingFunctions] =
      answersTo (!·.isProject) {} [savingFunction "f", listingFunctions, loadingProject "f"] := by
  have hplaces : (savingProject "f").isProject = true ∧ (loadingProject "f").isProject = true ∧
      (savingFunction "f").isProject = false ∧ (deletingFunction "f").isProject = false ∧
      listingFunctions.isProject = false := by decide +kernel
  obtain ⟨hsave, hload, hfunction, hdelete, hlist⟩ := hplaces
  have hstatus : (({} : Service).receive (deletingFunction "f")).1.status = 404 := by decide +kernel
  have hreading : listingFunctions.isReading = true := by decide +kernel
  have hfailed : (({} : Service).receive (deletingFunction "f")).1.status ≠ 200 :=
    fun h => absurd (hstatus.symm.trans h) (by decide)
  refine ⟨⟨hstatus, receive_isolated.1 _ _ hfailed⟩,
    ⟨hreading, receive_isolated.2.1 _ _ hreading⟩, receive_isolated.2.2.1 _ _ _ ?_,
    receive_isolated.2.2.2 _ _ _ ?_⟩
  · simp [hsave, hload, hfunction, hdelete, hlist]
  · simp [hsave, hload, hfunction, hlist]

end Blockflow.Service
