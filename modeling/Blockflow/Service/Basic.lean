import Blockflow.Block.Catalog
import Blockflow.Graph.Fragment
import Blockflow.Service.Request
import Blockflow.Store.Basic

/-!
# The service

The service keeps projects in one store and functions in another and answers requests. Only saving
and deleting change a store, and only if they succeed. The functions are the library that graphs are
compiled with.
-/

namespace Blockflow

/-- What the service keeps. -/
structure Service where
  projects : Store SavedProject := {}
  functions : Store SavedFunction := {}

/-- The runner that is configured, and what it replies. -/
structure RunnerSetting where
  url : Option String := none
  reply : Runner.Reply := .response 200 "OK" ""

namespace Service

/-- The saved functions as a library. -/
def library (s : Service) : Library :=
  s.functions.entries.map fun (key, record) => (key, Record.reread record)

/-! ## Requests that change nothing -/

/-- The definitions of all block types. -/
def blocks : Response :=
  .success (.obj (Catalog.standard.definitions.map fun (type, d) => (type, d.toJson)))

def issueReport (issues : List Issue) : Response :=
  .success (.obj [("valid", .bool issues.isEmpty),
    ("errors", .arr (issues.map fun i => .obj i.members))])

/-- All issues of a diagram. -/
def validate (d : Diagram) : Response :=
  match Graph.load d with
  | .error (.compile (.invalid issues)) => issueReport issues
  | .error e => .ofFailure e
  | .ok g =>
    match g.validate with
    | .ok issues => issueReport issues
    | .error _ => .broken

/-- The response to a result that may have failed. -/
def answer {α : Type} (f : α → Response) : Except Failure α → Response
  | .ok a => f a
  | .error e => .ofFailure e

def generate (s : Service) (language : Language) (d : Diagram) : Response :=
  answer (fun code => .success (.obj [("language", .str language.name), ("code", .str code)])) do
    (← (← Graph.load d).program s.library).render language

def generateAll (s : Service) (d : Diagram) : Response :=
  answer (fun codes => .success (.obj [("code",
    .obj (codes.map fun (language, code) => (language.name, .str code)))])) do
    (← Graph.load d).compileAll s.library

def execute (runner : RunnerSetting) (language : Language) (code : String) : Response :=
  let (sent, outcome) := Runner.run runner.url runner.reply language.name code
  let response : Response := match outcome with
    | .ok output =>
      .success (.obj [("stdout", .str output.stdout), ("stderr", .str output.stderr)])
    | .error .notConfigured => .refusal 503 (.str Runner.RunError.notConfigured.message)
    | .error (.tooDeep _) => .broken
    | .error e => .refusal 502 (.str e.message)
  { response with sent }

/-- The definition at a node of a diagram, as a fragment. -/
def fragment (d : Diagram) (root : String) : Except Failure Fragment := do
  (← Graph.load d).extract root

def extractFunction (d : Diagram) (root : String) : Response :=
  answer (fun f =>
    match f.name, f.diagram.isWritable with
    | .text name, true =>
      .success (.obj [("root_id", .str f.root), ("name", .str name),
        ("params", .ofTexts f.params), ("subgraph", f.diagram.toJson .editor)])
    | _, _ => .broken) (fragment d root)

/-- The response with a record of a store. -/
def load {ρ : Type} [Record ρ] (store : Store ρ) (what name : String) : Response :=
  match store.load name with
  | .error e => .ofStoreError e
  | .ok none => .notFound what
  | .ok (some record) => .success (Record.toJson .editor record)

/-! ## Requests that change a store -/

/-- Save a record; the result is the response and the store. -/
def save {ρ : Type} [Record ρ] (store : Store ρ) (record : ρ) : Response × Store ρ :=
  match store.save record with
  | .error e => (.ofStoreError e, store)
  | .ok store' =>
    (.success (.obj [("success", .bool true), ("name", .str (Record.name record))]), store')

/-- Delete a record; the result is the response and the store. -/
def delete {ρ : Type} (store : Store ρ) (what name : String) : Response × Store ρ :=
  match store.delete name with
  | .error e => (.ofStoreError e, store)
  | .ok (false, _) => (.notFound what, store)
  | .ok (true, store') => (.success (.obj [("success", .bool true)]), store')

/-- The record of a definition in a diagram. It is refused if it has no program with the library. -/
def functionRecord (lib : Library) (r : FunctionSaving) : Except Response SavedFunction :=
  let checked : Except Failure Fragment := do
    let f ← fragment r.diagram r.root
    let _ ← (← Graph.load f.diagram).program lib
    return f
  match checked with
  | .error e => .error (.ofFailure e)
  | .ok f =>
    match f.name with
    | .text name =>
      .ok { name, params := f.params, description := r.description, subgraph := f.diagram }
    | .object _ => .error .broken

/-! ## All requests -/

/-- The response to a request body that is read by `reader`. -/
def reading {α : Type} (reader : Schema.Reader α) (body : Json) (f : α → Response) : Response :=
  match readBody reader body with
  | .ok a => f a
  | .error response => response

/-- Change the projects. -/
def withProjects (s : Service) : Response × Store SavedProject → Response × Service
  | (response, projects) => (response, { s with projects })

/-- Change the functions. -/
def withFunctions (s : Service) : Response × Store SavedFunction → Response × Service
  | (response, functions) => (response, { s with functions })

/-- The response to a request, and the service after it. -/
def handle (s : Service) (runner : RunnerSetting) (r : Request) : Response × Service :=
  match r.place with
  | .blocks => (blocks, s)
  | .validate => (reading Schema.diagram r.body validate, s)
  | .generate => (reading generation r.body fun (language, d) => s.generate language d, s)
  | .generateAll => (reading generationAll r.body s.generateAll, s)
  | .execute =>
    (reading execution r.body fun (language, code) => execute runner language code, s)
  | .extractFunction => (reading extraction r.body fun (d, root) => extractFunction d root, s)
  | .listProjects => (.success (.obj [("projects", .ofTexts s.projects.names)]), s)
  | .loadProject name => (load s.projects "Project" name, s)
  | .listFunctions => (.success (.obj [("functions", .ofTexts s.functions.names)]), s)
  | .loadFunction name => (load s.functions "Function" name, s)
  | .saveProject =>
    match readBody SavedProject.schema r.body with
    | .ok project => s.withProjects (save s.projects project)
    | .error response => (response, s)
  | .deleteProject name => s.withProjects (delete s.projects "Project" name)
  | .saveFunction =>
    match readBody functionSaving r.body >>= functionRecord s.library with
    | .ok record => s.withFunctions (save s.functions record)
    | .error response => (response, s)
  | .deleteFunction name => s.withFunctions (delete s.functions "Function" name)

/-- The response to a request as it arrives, and the service after it. -/
def respond (s : Service) (runner : RunnerSetting) (method path : String) (name : Option String)
    (body : Json) : Response × Service :=
  match Request.ofRoute method path name body with
  | .ok request => s.handle runner request
  | .error response => (response.toMethod method, s)

end Service

end Blockflow
