import Blockflow.Expression.Header
import Blockflow.Expression.Param
import Blockflow.Role

/-!
# Issues, errors and defects

An `Issue` is a finding about a graph, attributed to a node, to an edge or to both. A `CompileError`
ends a compilation and says which block is to blame. A `Defect` is met only where something was not
checked before; it says what the value is that cannot be worked with.
-/

namespace Blockflow

/-! ## Issues -/

/-- What an issue is about. -/
inductive IssueCause where
  | duplicateNode
  | unknownType (type : String)
  | edgeIdReused (id : String) (count : Nat)
  | missingEnd (edge endpoint : String)
  | unknownRole (edge handle : String)
  | roleNotAllowed (role : Role) (type : String)
  | roleShared (count : Nat) (role : Role)
  | unknownField (key type : String)
  | fieldMissing (field : String)
  | fieldNotText (field : String)
  | fieldNotIdentifier (field value : String)
  | fieldNotName (field value : String)
  | fieldNotChoice (field : String) (choices : List String)
  | badParams (field : String) (error : ParamError)
  | notMember
  | redefined (name : String)
  | wrongArity (className : String) (fields args : Nat)
  | rootMissing
  | notDefinition (type : String)
deriving DecidableEq, Repr

/-- A count as text. -/
def countText (n : Nat) : String := Json.intString n

def IssueCause.reason : IssueCause → String
  | .duplicateNode => "duplicate node id"
  | .unknownType type => "Unknown node type: " ++ type
  | .edgeIdReused id count => "Edge id '" ++ id ++ "' is used by " ++ countText count ++ " edges"
  | .missingEnd edge endpoint => "Edge " ++ edge ++ " references missing node '" ++ endpoint ++ "'"
  | .unknownRole edge handle => "Edge " ++ edge ++ ": unknown role '" ++ handle ++ "'"
  | .roleNotAllowed role type => "role '" ++ role.label ++ "' is not valid for " ++ type
  | .roleShared count role => countText count ++ " edges leave through role '" ++ role.label ++ "'"
  | .unknownField key type => "unknown field '" ++ key ++ "' for " ++ type
  | .fieldMissing field => "required field '" ++ field ++ "' is missing"
  | .fieldNotText field => "field '" ++ field ++ "' must be text"
  | .fieldNotIdentifier field value =>
    "field '" ++ field ++ "' is not a valid identifier: '" ++ value ++ "'"
  | .fieldNotName field value => "field '" ++ field ++ "' is not a valid name: '" ++ value ++ "'"
  | .fieldNotChoice field choices =>
    "field '" ++ field ++ "' must be one of " ++ (Json.arr (choices.map .str)).shown
  | .badParams field error => "field '" ++ field ++ "': " ++ error.message
  | .notMember =>
    "only variable declarations and function definitions may appear in a class body"
  | .redefined name => "'" ++ name ++ "' is defined more than once"
  | .wrongArity className fields args =>
    "'" ++ className ++ "' has " ++ countText fields ++ " fields but " ++ countText args ++
      " constructor arguments were given"
  | .rootMissing => "root node not found"
  | .notDefinition type => "only function or class definitions can be extracted, not " ++ type

/-- A finding about a graph. -/
structure Issue where
  cause : IssueCause
  node : Option String := none
  edge : Option String := none
deriving DecidableEq, Repr

namespace Issue

def reason (i : Issue) : String := i.cause.reason

/-- The id that a text is attributed to: the node, else the edge. An empty id does not count. -/
def place (i : Issue) : String :=
  match i.node.filter (!·.isEmpty), i.edge.filter (!·.isEmpty) with
  | some node, _ => node
  | none, some edge => edge
  | none, none => "graph"

def text (i : Issue) : String := i.place ++ ": " ++ i.reason

/-- The members of the JSON form. -/
def members (i : Issue) : Dict Json :=
  [("reason", .str i.reason), ("node_id", .ofText? i.node), ("edge_id", .ofText? i.edge)]

end Issue

/-! ## Compile errors -/

/-- Why the flow of control through a graph is not structured. -/
inductive FlowFault where
  | cycle
  | reachedTwice
  | unreached
  | missingEdge (role : Role)
  | tooDeep (limit : Int)
deriving DecidableEq, Repr

def FlowFault.reason : FlowFault → String
  | .cycle => "control-flow cycle outside a for/while loop"
  | .reachedTwice => "node is reached from more than one position"
  | .unreached => "node is part of a control-flow cycle no entry point reaches"
  | .missingEdge role => "missing required '" ++ role.label ++ "' edge"
  | .tooDeep limit => "blocks are nested deeper than " ++ Json.intString limit ++ " levels"

/-- Why a name does not refer to anything. -/
inductive ReferenceFault where
  | unknownFunction
  | notInEntry
  | unknownClass
deriving DecidableEq, Repr

def ReferenceFault.reason (name : String) : ReferenceFault → String
  | .unknownFunction =>
    "function '" ++ name ++ "' is not defined in the graph or the function library"
  | .notInEntry => "library entry '" ++ name ++ "' does not define a function of that name"
  | .unknownClass => "class '" ++ name ++ "' is not defined in the graph"

/-- Why a graph has no program, or a program no text. -/
inductive CompileError where
  | invalid (issues : List Issue)
  | controlFlow (node : String) (fault : FlowFault)
  | unresolved (node name : String) (fault : ReferenceFault)
  /-- a call whose name is an object, which is the name of no function -/
  | unresolvedObject (node : String) (members : Dict Json)
  | unsupported (language construct : String)
deriving Repr

namespace CompileError

def kind : CompileError → String
  | .invalid _ => "validation_error"
  | .controlFlow _ _ => "control_flow_error"
  | .unresolved _ _ _ | .unresolvedObject _ _ => "unresolved_reference"
  | .unsupported _ _ => "generation_error"

/-- Why the error arose, where it has a single reason. -/
def reason : CompileError → String
  | .invalid _ => ""
  | .controlFlow _ fault => fault.reason
  | .unresolved _ name fault => fault.reason name
  | .unresolvedObject _ members => ReferenceFault.unknownFunction.reason (Json.obj members).shown
  | .unsupported _ _ => "construct is not supported by this generator"

def message : CompileError → String
  | .invalid issues =>
    "Graph validation failed: " ++ (Json.arr (issues.map (.str ·.text))).shown
  | .controlFlow node fault => "Node '" ++ node ++ "': " ++ fault.reason
  | .unresolved node name fault => "Node '" ++ node ++ "': " ++ fault.reason name
  | .unresolvedObject node members =>
    "Node '" ++ node ++ "': " ++ ReferenceFault.unknownFunction.reason (Json.obj members).shown
  | .unsupported language construct =>
    language ++ ": " ++ construct ++ ": construct is not supported by this generator"

/-- The members of the JSON form, other than the kind. -/
def members (e : CompileError) : Dict Json :=
  ("message", .str e.message) ::
    match e with
    | .invalid issues => [("issues", .arr (issues.map fun i => .obj i.members))]
    | .controlFlow node _ => [("node_id", .str node), ("reason", .str e.reason)]
    | .unresolved node name _ =>
      [("node_id", .str node), ("name", .str name), ("reason", .str e.reason)]
    | .unresolvedObject node members =>
      [("node_id", .str node), ("name", .obj members), ("reason", .str e.reason)]
    | .unsupported language construct =>
      [("language", .str language), ("construct", .str construct), ("reason", .str e.reason)]

end CompileError

/-! ## Defects -/

/-- What cannot be worked with. -/
inductive Defect where
  /-- a value that is no text stands where an expression or a list is expected -/
  | notText (typeName : String)
  /-- an object stands where a text is searched -/
  | notSearchable
  /-- an object stands where the parts of a name are asked for -/
  | notDotted
  /-- an object stands where a name is looked up -/
  | notKey
  | badParams (error : ParamError)
  | badNumeral (error : NumeralError)
  | unknownLanguage (name : String)
  | unknownType (type : String)
  | missingNode (id : String)
  /-- lists are nested too deep -/
  | tooDeep
  /-- an entry of the library cannot be read -/
  | unreadableEntry (name : String)
deriving DecidableEq, Repr

def Defect.message : Defect → String
  | .notText typeName => "'" ++ typeName ++ "' object has no attribute 'strip'"
  | .notSearchable => "expected string or bytes-like object, got 'dict'"
  | .notDotted => "'dict' object has no attribute 'rsplit'"
  | .notKey => "unhashable type: 'dict'"
  | .badParams error => error.message
  | .badNumeral error => error.message
  | .unknownLanguage name => Text.quoted name ++ " is not a valid Language"
  | .unknownType type => Text.quoted ("Unknown node type: " ++ type)
  | .missingNode id => Text.quoted id
  | .tooDeep => "maximum recursion depth exceeded"
  | .unreadableEntry name => "entry " ++ Text.quoted name ++ " cannot be read"

/-- Why there is no result. -/
inductive Failure where
  | compile (error : CompileError)
  | defect (defect : Defect)
deriving Repr

end Blockflow
