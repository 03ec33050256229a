import Blockflow.FieldValue

/-!
# Programs

A program as all target languages share it: classes, functions and the statements of the main block.
Expressions are kept as they were entered. Every statement and definition remembers the node that it
was built from.
-/

namespace Blockflow

/-- A variable with its first value. -/
structure Declaration where
  name : String
  value : FieldValue
  type : ValueType := .unknown
  node : String := ""

inductive Statement where
  | declare (declaration : Declaration)
  | assign (name value : FieldValue) (node : String)
  | array (name : FieldValue) (elements : List String) (type : ValueType) (node : String)
  | print (value : FieldValue) (node : String)
  | branch (cond : FieldValue) (yes no : List Statement) (node : String)
  | switch (subject : String) (type : ValueType) (cases : List (String × List Statement))
      (default : List Statement) (node : String)
  /-- `declares` is false when the loop variable exists before the loop -/
  | forLoop (init : String) (cond step : FieldValue) (declares : Bool) (body : List Statement)
      (node : String)
  | whileLoop (cond : FieldValue) (body : List Statement) (node : String)
  | call (name : String) (args : List String) (node : String)
  | create (className name : FieldValue) (args : List String) (node : String)
  /-- a statement that no target language has a text for -/
  | foreign (construct : String)
deriving Inhabited

abbrev Block := List Statement

structure FunctionDef where
  name : String
  params : List Param := []
  body : Block := []
  node : String := ""

/-- A member of a class. -/
inductive Member where
  | field (declaration : Declaration)
  | method (function : FunctionDef)
  /-- a statement that no target language has a place for in a class -/
  | stray (statement : Statement)

structure ClassDef where
  name : String
  members : List Member := []
  node : String := ""
  /-- is some object of the class created with arguments? -/
  hasConstructor : Bool := false

structure Program where
  classes : List ClassDef := []
  functions : List FunctionDef := []
  main : Block := []

/-- A part of a program: a statement or a definition. -/
inductive Part where
  | statement (statement : Statement)
  | function (function : FunctionDef)
  | classDef (classDef : ClassDef)

namespace Statement

/-- The node that a statement was built from. -/
def node : Statement → String
  | .declare d => d.node
  | .assign _ _ node | .array _ _ _ node | .print _ node | .branch _ _ _ node
  | .switch _ _ _ _ node | .forLoop _ _ _ _ _ node | .whileLoop _ _ node | .call _ _ node
  | .create _ _ _ node => node
  | .foreign _ => ""

end Statement

namespace ClassDef

def fields (c : ClassDef) : List Declaration :=
  c.members.filterMap fun
    | .field d => some d
    | _ => none

def methods (c : ClassDef) : List FunctionDef :=
  c.members.filterMap fun
    | .method f => some f
    | _ => none

end ClassDef

/-! ## Walking through a program -/

mutual

/-- A statement and all statements inside of it, depth first. -/
def Statement.walk : Statement → List Statement
  | s@(.branch _ yes no _) => s :: (Block.walk yes ++ Block.walk no)
  | s@(.switch _ _ cases default _) => s :: (Block.walkCases cases ++ Block.walk default)
  | s@(.forLoop _ _ _ _ body _) => s :: Block.walk body
  | s@(.whileLoop _ body _) => s :: Block.walk body
  | s => [s]

/-- All statements of a block, depth first. -/
def Block.walk : List Statement → List Statement
  | [] => []
  | s :: rest => s.walk ++ Block.walk rest

/-- All statements of the cases of a switch. -/
def Block.walkCases : List (String × List Statement) → List Statement
  | [] => []
  | (_, block) :: rest => Block.walk block ++ Block.walkCases rest

end

namespace Part

def node : Part → String
  | .statement s => s.node
  | .function f => f.node
  | .classDef c => c.node

end Part

/-- A function and all statements of its body. -/
def FunctionDef.walk (f : FunctionDef) : List Part :=
  .function f :: (Block.walk f.body).map .statement

def Member.walk : Member → List Part
  | .field d => [.statement (.declare d)]
  | .method f => f.walk
  | .stray s => s.walk.map .statement

def ClassDef.walk (c : ClassDef) : List Part := .classDef c :: c.members.flatMap Member.walk

/-- All parts of a program, depth first: classes, functions, main block. -/
def Program.walk (p : Program) : List Part :=
  p.classes.flatMap ClassDef.walk ++ p.functions.flatMap FunctionDef.walk ++
    (Block.walk p.main).map .statement

/-- All statements of a program. -/
def Program.statements (p : Program) : List Statement :=
  p.walk.filterMap fun
    | .statement s => some s
    | _ => none

end Blockflow
