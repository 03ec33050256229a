import Blockflow.Block.Basic

/-!
# The catalog of block types

The catalog says which class of blocks each type of node stands for. It starts with the classes of
the language of blocks and can be extended; a type keeps the class that it was given first. What an
editor shows of a type is its `BlockDefinition`.
-/

namespace Blockflow

/-- A class of blocks: one of the language, or one that was added and is known by its name only. -/
inductive BlockClass where
  | standard (type : BlockType)
  | custom (name : String)
deriving DecidableEq, Repr

/-- What is shown of a class of the language. -/
structure BlockLabel where
  className : String
  /-- the group of classes that the class belongs to -/
  group : String
  category : String
  title : String
  description : String

/-- What is shown of the classes of the language. -/
def BlockType.blockLabel : BlockType → BlockLabel
  | .branch => ⟨"IfElseBlock", "control", "Control", "If / Else", "Branch on a condition"⟩
  | .switch =>
    ⟨"SwitchCaseBlock", "control", "Control", "Switch Case",
      "Select a branch by comparing a value against cases"⟩
  | .forLoop => ⟨"ForLoopBlock", "control", "Control", "For Loop", "C-style counting loop"⟩
  | .whileLoop =>
    ⟨"WhileLoopBlock", "control", "Control", "While Loop", "Repeat while a condition holds"⟩
  | .function =>
    ⟨"DefineFunctionBlock", "definitions", "Functions", "Define Function",
      "Hoisted out of the statement sequence, or a method inside a class body."⟩
  | .classDef =>
    ⟨"DefineClassBlock", "definitions", "Functions", "Define Class",
      "Class whose body chain holds field declarations and methods."⟩
  | .call =>
    ⟨"CallFunctionBlock", "definitions", "Functions", "Call Function",
      "Call a function defined on the canvas or saved in the library"⟩
  | .declare =>
    ⟨"DeclareVariableBlock", "statements", "Variables", "Declare Variable",
      "Declare a variable with an initial value"⟩
  | .update =>
    ⟨"UpdateVariableBlock", "statements", "Variables", "Update Variable",
      "Assign a new value to an existing variable"⟩
  | .array =>
    ⟨"ArrayDeclarationBlock", "statements", "Variables", "Array Declaration",
      "Declare an array from a comma-separated list of values"⟩
  | .print => ⟨"PrintBlock", "statements", "Output", "Print", "Write a value to standard output"⟩
  | .create =>
    ⟨"CreateObjectBlock", "statements", "Objects", "Create Object",
      "Instantiate a class into a new variable"⟩

/-- A type of block as it is shown in an editor. -/
structure BlockDefinition where
  type : String
  title : String
  category : String
  description : String
  fields : List FieldSpec
  /-- the labels of the exits -/
  exits : List String

namespace BlockClass

def name : BlockClass → String
  | .standard type => type.blockLabel.className
  | .custom name => name

/-- The name of a class with the place it comes from. -/
def qualifiedName : BlockClass → String
  | .standard type =>
    "visual_coder.blocks." ++ type.blockLabel.group ++ "." ++ type.blockLabel.className
  | .custom name => "scratch." ++ name

/-- The class of a name: one of the language if there is one of that name. -/
def ofName (name : String) : BlockClass :=
  match BlockType.all.find? (·.blockLabel.className = name) with
  | some type => .standard type
  | none => .custom name

/-- The entries of the list of cases that raw data hold. -/
def rawCases (data : Dict Json) : Except Defect (List String) :=
  match data.get? "cases" with
  | some (.str s) => .ok (Expression.splitList s)
  | some value => if value.isEmpty then .ok [] else .error (.notText value.typeName)
  | none => .ok []

/-- The exits of a block of the class with these data. -/
def exits (data : Dict Json) : BlockClass → Except Defect (List RoleSpec)
  | .standard .switch => (rawCases data).map BlockType.switch.exits
  | .standard type => .ok (type.exits [])
  | .custom _ => .ok [{ role := .next, description := "Next statement" }]

/-- The labels of the exits; the cases of a switch share one. -/
def exitLabels : BlockClass → List String
  | .standard .switch => ["case-<i>", Role.default.label, Role.next.label]
  | .standard type => (type.exits []).map (·.role.label)
  | .custom _ => [Role.next.label]

def definition (type : String) : BlockClass → BlockDefinition
  | .standard block =>
    { type
      title := block.blockLabel.title
      category := block.blockLabel.category
      description := block.blockLabel.description
      fields := block.fields
      exits := (BlockClass.standard block).exitLabels }
  | .custom name =>
    { type
      title := name
      category := "Uncategorized"
      description := "Block " ++ name ++ "."
      fields := []
      exits := (BlockClass.custom name).exitLabels }

end BlockClass

/-! ## JSON forms -/

def FieldSpec.toJson (f : FieldSpec) : Json :=
  .obj [("kind", .str f.kind.name), ("required", .bool f.required),
    ("default", .ofText? f.default),
    ("choices", match f.choices with
      | some choices => .ofTexts choices
      | none => .null),
    ("description", .str f.description)]

def RoleSpec.toJson (r : RoleSpec) : Json :=
  .obj [("role", .str r.role.label), ("required", .bool r.required),
    ("description", .str r.description)]

def BlockDefinition.toJson (d : BlockDefinition) : Json :=
  .obj [("block_type", .str d.type), ("display_name", .str d.title),
    ("category", .str d.category), ("description", .str d.description),
    ("fields", .obj (d.fields.map fun f => (f.name, f.toJson))),
    ("roles", .ofTexts d.exits)]

/-! ## Catalogs -/

/-- A type that is already taken by another class. -/
structure TypeTaken where
  type : String
  owner : BlockClass

def TypeTaken.message (e : TypeTaken) : String :=
  "Block type '" ++ e.type ++ "' is already registered by " ++ e.owner.qualifiedName

/-- The classes of the types, in the order in which the types were registered. -/
abbrev Catalog := Dict BlockClass

namespace Catalog

/-- The catalog of the language. -/
def standard : Catalog := BlockType.all.map fun type => (type.name, .standard type)

/-- The groups of the classes of the language, in order. -/
def groups : List String := (BlockType.all.map (·.blockLabel.group)).eraseDups

/-- Let a type stand for a class, unless it stands for another one. -/
def register (c : Catalog) (type : String) (cls : BlockClass) : Except TypeTaken Catalog :=
  match c.get? type with
  | some owner => if owner = cls then .ok c else .error ⟨type, owner⟩
  | none => .ok (c.put type cls)

/-- The class that a type stands for. -/
def find (c : Catalog) (type : String) : Except Defect BlockClass :=
  match c.get? type with
  | some cls => .ok cls
  | none => .error (.unknownType type)

def definitions (c : Catalog) : Dict BlockDefinition :=
  c.map fun (type, cls) => (type, cls.definition type)

end Catalog

end Blockflow
