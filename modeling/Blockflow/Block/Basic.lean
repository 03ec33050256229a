import Blockflow.Graph.Basic

/-!
# Blocks

The kinds of blocks: their names, the fields of their data and the exits through which edges may
leave them. Only the exits of a switch depend on its data, one for each of its cases.
-/

namespace Blockflow

inductive BlockType where
  | branch | switch | forLoop | whileLoop
  | function | classDef | call
  | declare | update | array | print | create
deriving DecidableEq, Repr

/-- What the text of a field has to be. -/
inductive FieldKind where
  | identifier | dottedName | expression | list | params | type
deriving DecidableEq, Repr

def FieldKind.name : FieldKind → String
  | .identifier => "IDENTIFIER"
  | .dottedName => "DOTTED_NAME"
  | .expression => "EXPRESSION"
  | .list => "LIST"
  | .params => "PARAMS"
  | .type => "TYPE"

/-- A field of the data of a block. -/
structure FieldSpec where
  name : String
  kind : FieldKind
  required : Bool := true
  default : Option String := none
  choices : Option (List String) := none
  description : String := ""
deriving DecidableEq, Repr

/-- An exit of a block. -/
structure RoleSpec where
  role : Role
  required : Bool := false
  description : String := ""
deriving DecidableEq, Repr

namespace BlockType

/-- All kinds of blocks. -/
def all : List BlockType :=
  [.branch, .switch, .forLoop, .whileLoop, .function, .classDef, .call, .declare, .update, .array,
   .print, .create]

/-- The type that a node of the graph has. -/
def name : BlockType → String
  | .branch => "if"
  | .switch => "switch"
  | .forLoop => "for"
  | .whileLoop => "while"
  | .function => "functionDefine"
  | .classDef => "classDefine"
  | .call => "functionCall"
  | .declare => "assign"
  | .update => "assign2"
  | .array => "array"
  | .print => "print"
  | .create => "createObject"

def ofName? (s : String) : Option BlockType := all.find? (·.name = s)

def isLoop : BlockType → Bool
  | .forLoop | .whileLoop => true
  | _ => false

def isDefinition : BlockType → Bool
  | .function | .classDef => true
  | _ => false

/-- A field that declares a type. -/
def typeField (description : String) : FieldSpec :=
  { name := "dataType", kind := .type, required := false
    choices := some ValueType.declarable.keys, description }

/-- A list that may be left out. -/
def listField (name : String) : FieldSpec :=
  { name, kind := .list, required := false, default := some "" }

/-- The fields of the data, in order. -/
def fields : BlockType → List FieldSpec
  | .branch => [{ name := "condition", kind := .expression }]
  | .switch =>
    [{ name := "subject", kind := .expression, description := "Value to switch on" },
     { name := "cases", kind := .list, description := "Comma-separated case values" }]
  | .forLoop =>
    [{ name := "init", kind := .expression, description := "e.g. i = 0" },
     { name := "condition", kind := .expression, description := "e.g. i < 10" },
     { name := "step", kind := .expression, description := "e.g. i++" }]
  | .whileLoop => [{ name := "condition", kind := .expression }]
  | .function =>
    [{ name := "name", kind := .identifier, description := "Function name" },
     { name := "params", kind := .params, required := false, default := some ""
       description := "Comma-separated parameters, optionally typed (int n)" }]
  | .classDef => [{ name := "name", kind := .identifier, description := "Class name" }]
  | .call =>
    [{ name := "name", kind := .dottedName, description := "Function name" }, listField "args"]
  | .declare =>
    [{ name := "name", kind := .identifier, description := "Variable name" },
     { name := "value", kind := .expression, description := "Initial value" },
     typeField "Declared type"]
  | .update => [{ name := "name", kind := .identifier }, { name := "value", kind := .expression }]
  | .array =>
    [{ name := "name", kind := .identifier }, listField "values", typeField "Element type"]
  | .print => [{ name := "value", kind := .expression }]
  | .create =>
    [{ name := "className", kind := .identifier },
     { name := "name", kind := .identifier, description := "Variable name" }, listField "args"]

/-- The exits of a block; `cases` are the values of the cases of a switch. -/
def exits (cases : List String) : BlockType → List RoleSpec
  | .branch =>
    [{ role := .whenTrue, required := true, description := "Runs when the condition holds" },
     { role := .whenFalse, description := "Runs otherwise" },
     { role := .next, description := "Continues after the branch" }]
  | .switch =>
    cases.mapIdx (fun i value => { role := .case i, description := "case " ++ value }) ++
      [{ role := .default, description := "No case matched" },
       { role := .next, description := "Continues after the switch" }]
  | .forLoop | .whileLoop =>
    [{ role := .body, description := "Loop body" },
     { role := .next, description := "Continues after the loop" }]
  | .function =>
    [{ role := .body, description := "Function body" },
     { role := .next, description := "Continues after the definition" }]
  | .classDef =>
    [{ role := .body, description := "Fields and methods" },
     { role := .next, description := "Continues after the definition" }]
  | .call | .declare | .update | .array | .print | .create =>
    [{ role := .next, description := "Next statement" }]

/-- The roles of the exits that lead into a nested block, in the order in which the blocks are
built. -/
def slotRoles (cases : List String) : BlockType → List Role
  | .branch => [.whenTrue, .whenFalse]
  | .switch => cases.mapIdx (fun i _ => .case i) ++ [.default]
  | .forLoop | .whileLoop | .function | .classDef => [.body]
  | .call | .declare | .update | .array | .print | .create => []

end BlockType

namespace Node

/-- The kind of block that a node is, if its type is known. -/
def block? (n : Node) : Option BlockType := BlockType.ofName? n.type

/-- The value of a field; a field that is not given has the empty text. -/
def given (n : Node) (field : String) : FieldValue := FieldValue.given (n.data.get? field)

/-- The entries of a field that is a list. -/
def list (n : Node) (field : String) : Except Defect (List String) := do
  return Expression.splitList (← (n.given field).expression)

/-- The exits of a node whose kind is known. -/
def exits (n : Node) (type : BlockType) : Except Defect (List RoleSpec) :=
  if type = .switch then do return type.exits (← n.list "cases") else .ok (type.exits [])

end Node

end Blockflow
