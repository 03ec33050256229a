import Blockflow.Json.Reader

/-!
# The code runner

Code is run by a service outside, if one is configured: the code is submitted to it, and its reply
is read. There is a single submission for each piece of code.
-/

namespace Blockflow.Runner

/-- What is sent to the runner. -/
structure Submission where
  url : String
  language : String
  code : String
deriving DecidableEq, Repr

/-- What the runner answers. -/
inductive Reply where
  /-- the exchange itself failed -/
  | failed (text : String)
  /-- there was an answer, but it could not be decoded -/
  | garbled
  | response (status : Int) (reason body : String)
deriving DecidableEq, Repr

/-- What the code wrote. -/
structure Output where
  stdout : String
  stderr : String
deriving DecidableEq, Repr

inductive RunError where
  | notConfigured
  | requestFailed (text : String)
  | garbled
  | unexpectedPayload
  /-- lists and objects are nested too deep in the answer -/
  | tooDeep (text : String)
deriving DecidableEq, Repr

def RunError.message : RunError → String
  | .notConfigured => "No code runner is configured (set VISUAL_CODER_RUNNER_URL)"
  | .requestFailed text => "Code runner request failed: " ++ text
  | .garbled => "Code runner returned invalid JSON"
  | .unexpectedPayload => "Code runner returned an unexpected payload"
  | .tooDeep text => text

/-- The text without the slashes at its end. -/
def dropSlashes (s : String) : String :=
  String.ofList (s.toList.reverse.dropWhile (· = '/')).reverse

/-- The submission of a piece of code, if there is a runner. -/
def submission? (runner : Option String) (language code : String) : Option Submission :=
  match runner with
  | none => none
  | some base =>
    if base.isEmpty then none else some { url := dropSlashes base ++ "/run", language, code }

/-- The complaint about a status that stands for a failure. -/
def statusError? (url : String) (status : Int) (reason : String) : Option String :=
  let complaint (side : String) : String :=
    Json.intString status ++ " " ++ side ++ " Error: " ++ reason ++ " for url: " ++ url
  if 400 ≤ status && status < 500 then some (complaint "Client")
  else if 500 ≤ status && status < 600 then some (complaint "Server")
  else none

/-- The text of a stream in the answer; what counts as nothing is no text. -/
def streamText (payload : Dict Json) (key : String) : String :=
  match payload.get? key with
  | some value => if value.isEmpty then "" else value.plain
  | none => ""

/-- How many lists and objects may be inside of each other in an answer. -/
def depthLimit : Nat := 988

/-- What an answer that cannot be read leads to. -/
def readFailure (body : List Char) (e : Json.ReadError) : RunError :=
  match e.reason with
  | .number _ => .garbled
  | .tooDeepList | .tooDeepObject => .tooDeep e.reason.message
  | _ => .requestFailed (e.message body)

/-- What the reply to a submission says. -/
def Submission.output (s : Submission) : Reply → Except RunError Output
  | .failed text => .error (.requestFailed text)
  | .garbled => .error .garbled
  | .response status reason body =>
    match statusError? s.url status reason with
    | some complaint => .error (.requestFailed complaint)
    | none =>
      match Json.parseWithin depthLimit body.toList with
      | .error e => .error (readFailure body.toList e)
      | .ok (.obj payload) =>
        .ok { stdout := streamText payload "stdout", stderr := streamText payload "stderr" }
      | .ok _ => .error .unexpectedPayload

/-- Run a piece of code with a runner that gives this reply. -/
def run (runner : Option String) (reply : Reply) (language code : String) :
    List Submission × Except RunError Output :=
  match submission? runner language code with
  | none => ([], .error .notConfigured)
  | some s => ([s], s.output reply)

end Blockflow.Runner
