import Blockflow.Text.Percent
import Blockflow.Text.Word

/-!
# Addresses

An address is a path, perhaps followed by a query or a fragment, which do not matter here. Before a
path is looked up its dot segments are worked off and its escapes are read, twice: by the one who
sends the request and by the one who receives it. A path that ends in slashes is looked up without
them if there is nothing at the path itself, and is then an address of its own.
-/

namespace Blockflow.Service

/-- What can be requested. -/
inductive Place where
  | blocks | validate | generate | generateAll | execute
  | saveProject | listProjects | loadProject (name : String) | deleteProject (name : String)
  | extractFunction | saveFunction | listFunctions
  | loadFunction (name : String) | deleteFunction (name : String)
deriving DecidableEq, Repr

namespace Place

/-- The places that have a path of their own. -/
def fixed : List (String × Place) :=
  [("blocks", .blocks), ("validate", .validate), ("generate", .generate),
   ("generate-all", .generateAll), ("execute", .execute), ("save-project", .saveProject),
   ("list-projects", .listProjects), ("extract-function", .extractFunction),
   ("save-function", .saveFunction), ("list-functions", .listFunctions)]

/-- The places whose path goes on with a name. -/
def named : List (String × (String → Place)) :=
  [("load-project", .loadProject), ("delete-project", .deleteProject),
   ("load-function", .loadFunction), ("delete-function", .deleteFunction)]

/-- The method with which a request is made at a place. -/
def method : Place → String
  | .blocks | .listProjects | .loadProject _ | .listFunctions | .loadFunction _ => "GET"
  | .validate | .generate | .generateAll | .execute | .saveProject | .extractFunction
  | .saveFunction => "POST"
  | .deleteProject _ | .deleteFunction _ => "DELETE"

/-- The path under which all places are. -/
def root : List Char := "/api/".toList

/-- Is the path the given one, up to a line break at its end? -/
def isPath (path : List Char) (expected : String) : Bool :=
  path = root ++ expected.toList || path = root ++ expected.toList ++ ['\n']

/-- The name after a path that goes on with one. A name is not empty and has no slash. -/
def nameAfter? (path : List Char) (expected : String) : Option String :=
  let start := root ++ expected.toList ++ ['/']
  let name := path.drop start.length
  if start.isPrefixOf path && !name.isEmpty && !name.contains '/' then some (String.ofList name)
  else none

/-- The place at a path. -/
def atPath? (path : List Char) : Option Place :=
  (fixed.findSome? fun (expected, place) => if isPath path expected then some place else none) <|>
  named.findSome? fun (expected, place) => (nameAfter? path expected).map place

end Place

/-! ## From addresses to paths -/

/-- The segments of a path without dot segments: one dot is dropped, and two dots are dropped with
the segment before them, but the first segment stays. -/
def workOffDots (segments : List (List Char)) : List (List Char) :=
  segments.foldl (fun done segment =>
    if segment = ['.'] then done
    else if segment = ['.', '.'] then (if done = [[]] then done else done.dropLast)
    else done ++ [segment]) []

/-- The path of an address. -/
def pathOf (address : List Char) : List Char :=
  let path := address.takeWhile fun c => c ≠ '?' && c ≠ '#'
  let segments := workOffDots (Text.splitOn '/' path)
  Text.unescape (Text.unescape (List.intercalate ['/'] segments))

/-- How many times an address may lead to another one. -/
def redirectLimit : Nat := 20

/-- The place that an address leads to, where at most `redirects` more addresses may be tried. -/
def locate (redirects : Nat) (address : List Char) : Option Place :=
  let path := pathOf address
  match Place.atPath? path with
  | some place => some place
  | none =>
    let bare := (path.reverse.dropWhile (· = '/')).reverse
    match redirects with
    | 0 => none
    | redirects + 1 =>
      if bare ≠ path && (Place.atPath? bare).isSome then locate redirects bare else none

/-- The place of a path below the root, with a name after it if there is one. -/
def place? (path : String) (name : Option String) : Option Place :=
  let rest := match name with
    | some name => '/' :: Text.escape name.toList
    | none => []
  locate redirectLimit (Place.root ++ path.toList ++ rest)

end Blockflow.Service
