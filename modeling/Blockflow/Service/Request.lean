import Blockflow.Code.Render
import Blockflow.Runner
import Blockflow.Service.Address
import Blockflow.Store.Error

/-!
# Requests and responses

The requests that the service understands, with their bodies still as JSON, the contents that the
bodies have to have, and the responses.
-/

namespace Blockflow.Service

/-! ## Responses -/

/-- A response: a status, a body unless something broke, and what was sent to the runner. -/
structure Response where
  status : Nat
  body : Option Json
  sent : List Runner.Submission := []

namespace Response

def success (body : Json) : Response := { status := 200, body := some body }

/-- A refusal with its reason. -/
def refusal (status : Nat) (detail : Json) : Response :=
  { status, body := some (.obj [("detail", detail)]) }

/-- Something broke that no request should be able to break. -/
def broken : Response := { status := 500, body := none }

/-- The response to an error of a store. A name that there can be no file for breaks the request. -/
def ofStoreError : StoreError → Response
  | .longName _ => broken
  | e => refusal 400 (.str e.message)

def notFound (what : String) : Response := refusal 404 (.str (what ++ " not found"))

/-- There is nothing to request at this place. -/
def noRoute : Response := refusal 404 (.str "Not Found")

def wrongMethod : Response := refusal 405 (.str "Method Not Allowed")

/-- The response as it is sent to a method: the method `HEAD` gets no body. -/
def toMethod (r : Response) (method : String) : Response :=
  if method.toUpper = "HEAD" then { r with body := none } else r

/-- The word for a fault in a request body. -/
def faultCode (kind : SchemaFaultKind) : String :=
  if kind = .notRecord then "model_attributes_type" else kind.code

def schemaFaults (faults : List SchemaFault) : Response :=
  refusal 422 (.arr (faults.map fun f => f.toJson (faultCode f.kind)))

def compileError (e : CompileError) : Response :=
  refusal 422 (.obj (("kind", .str e.kind) :: e.members))

def ofFailure : Failure → Response
  | .compile e => compileError e
  | .defect _ => broken

end Response

/-! ## Bodies -/

/-- Read a request body. -/
def readBody {α : Type} (reader : Schema.Reader α) (body : Json) : Except Response α :=
  let path : List PathStep := [.key "body"]
  (match body with
    | .null => Checked.fault path .missing
    | _ => reader path body).mapError Response.schemaFaults

/-- Read the name of a language. -/
def language : Schema.Reader Language
  | path, .str s =>
    match Language.ofName? s with
    | some language => .ok language
    | none => Checked.fault path .notChoice
  | path, _ => Checked.fault path .notChoice

/-- A diagram and the language of the code that is wanted. -/
def generation : Schema.Reader (Language × Diagram)
  | path, value =>
    Schema.record path value fun members =>
      Checked.both (Schema.required members path "language" language)
        (Schema.required members path "graph" Schema.diagram)

/-- A diagram whose code in all languages is wanted. -/
def generationAll : Schema.Reader Diagram
  | path, value =>
    Schema.record path value fun members => Schema.required members path "graph" Schema.diagram

/-- Code that is to be run. -/
def execution : Schema.Reader (Language × String)
  | path, value =>
    Schema.record path value fun members =>
      Checked.both (Schema.required members path "language" language)
        (Schema.required members path "code" Schema.text)

/-- A diagram and a definition in it. -/
def extraction : Schema.Reader (Diagram × String)
  | path, value =>
    Schema.record path value fun members =>
      Checked.both (Schema.required members path "graph" Schema.diagram)
        (Schema.required members path "root_id" Schema.text)

/-- A definition in a diagram that is to be saved, and its description. -/
structure FunctionSaving where
  diagram : Diagram
  root : String
  description : String

def functionSaving : Schema.Reader FunctionSaving
  | path, value =>
    Schema.record path value fun members =>
      (Checked.both (Schema.required members path "graph" Schema.diagram)
        (Checked.both (Schema.required members path "root_id" Schema.text)
          (Schema.optional members path "description" "" Schema.text))).map
      fun (diagram, root, description) => ⟨diagram, root, description⟩

/-! ## Requests -/

/-- A request: the place where it is made and its body, which most places do not look at. -/
structure Request where
  place : Place
  body : Json := .null

/-- The request that is made with a method at a path, with a name after it if there is one. The
letters of the method may be capitals or not. -/
def Request.ofRoute (method path : String) (name : Option String) (body : Json) :
    Except Response Request :=
  match place? path name with
  | none => .error .noRoute
  | some place =>
    if method.toUpper = place.method then .ok { place, body } else .error .wrongMethod

end Blockflow.Service
