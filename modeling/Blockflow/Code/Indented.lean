import Blockflow.Code.Line
import Blockflow.Code.Writer

/-!
# Code with indented suites

The text of a program in Python, where blocks are marked by indentation: a header line that ends in
a colon and the lines of the block one level deeper. A block that has no lines of its own is written
as `pass`.

Inside of a method the fields of the class are qualified: `fields` are the names that are written
with `self.` before them.
-/

namespace Blockflow.Indented

open Expression

/-- An expression, with the fields of the class qualified. -/
def expr (fields : List String) (text : String) : String :=
  qualify fields "self." (spell .words text)

def args (fields : List String) (texts : List String) : String :=
  commaList (texts.map (expr fields))

/-- The text of a statement that is one line. -/
def leaf? (fields : List String) : Statement → Option String
  | .declare d => some (d.name ++ " = " ++ expr fields d.value.shown)
  | .assign name value _ =>
    let target := if fields.contains name.shown then "self." ++ name.shown else name.shown
    some (target ++ " = " ++ expr fields value.shown)
  | .array name elements _ _ => some (name.shown ++ " = [" ++ args fields elements ++ "]")
  | .print value _ =>
    match splitConcat? value.shown with
    | none => some ("print(" ++ expr fields value.shown ++ ")")
    | some parts => some ("print(" ++ args fields parts ++ ", sep=\"\")")
  | .call name arguments _ => some (name ++ "(" ++ args fields arguments ++ ")")
  | .create className name arguments _ =>
    some (name.shown ++ " = " ++ className.shown ++ "(" ++ args fields arguments ++ ")")
  | _ => none

/-- A header and the lines of its block. -/
def suite (header : String) (block : List Line) : List Line :=
  Line.flush (header ++ ":") ::
    deepen (if block.isEmpty then [Line.flush "pass"] else block)

/-- The header of a loop over a range. The start is left out when it is zero and the step is one. -/
def rangeHeader (fields : List String) (c : Counter) : String :=
  let start := expr fields c.start
  let stop := expr fields c.stop
  let bounds :=
    if c.amount ≠ 1 then [start, stop, Json.intString c.amount]
    else if start = "0" then [stop]
    else [start, stop]
  "for " ++ c.name ++ " in range(" ++ commaList bounds ++ ")"

/-- Is there nothing but blanks in the text? -/
def isBlankText (s : String) : Bool := Text.allBlank s.toList

/-- The line that starts a loop which does not count through a range. -/
def initLines (fields : List String) (init : String) : List Line :=
  match LoopInit.parse? init with
  | some i => [Line.flush (i.name ++ " = " ++ expr fields i.value)]
  | none => if isBlankText init then [] else [Line.flush (expr fields init)]

/-- A loop which does not count through a range: the step is the last statement of its body. -/
def plainLoop (fields : List String) (init cond step : String) (emptyBody : Bool)
    (body : List Line) : List Line :=
  let test := if isBlankText cond then "True" else expr fields cond
  let last :=
    if !isBlankText step then [Line.flush (LoopStep.statement step)]
    else if emptyBody then [Line.flush "pass"]
    else []
  initLines fields init ++ Line.flush ("while " ++ test ++ ":") :: deepen (body ++ last)

/-- A loop with a header. It goes through a range if the header counts. -/
def loopLines (fields : List String) (init cond step : String) (emptyBody : Bool)
    (body : List Line) : List Line :=
  match Counter.parse init cond step with
  | .ok (some c) => suite (rangeHeader fields c) body
  | _ => plainLoop fields init cond step emptyBody body

def testText (fields : List String) : Test → String
  | .holds cond => expr fields cond
  | .equals subject value => expr fields subject ++ " == " ++ expr fields value

/-- A switch is always a chain, so there are no labels. -/
def writer (fields : List String) : Writer Line where
  leaf s := (leaf? fields s).toList.map Line.flush
  first test := suite ("if " ++ testText fields test)
  next test := suite ("elif " ++ testText fields test)
  final := suite "else"
  closing := []
  labels _ _ := false
  labelled _ inner := inner
  label _ inner := inner
  forLoop init cond step _ emptyBody := loopLines fields init cond step emptyBody
  whileLoop cond := suite ("while " ++ expr fields cond)

def statement (fields : List String) : Statement → List Line := (writer fields).statement

def block (fields : List String) : List Statement → List Line := (writer fields).block

/-! ## Definitions -/

def function (f : FunctionDef) : List Line :=
  let names := f.params.map Param.name
  suite ("def " ++ f.name ++ "(" ++ commaList names ++ ")") (block [] f.body)

/-- A method of a class with the given fields. A parameter hides a field of the same name. -/
def method (fields : List String) (f : FunctionDef) : List Line :=
  let names := "self" :: f.params.map Param.name
  let visible := fields.filter (!names.contains ·)
  suite ("def " ++ f.name ++ "(" ++ commaList names ++ ")") (block visible f.body)

/-- The method that gives the fields their first values. Arguments of a constructor override the
values that were declared. -/
def initializer (c : ClassDef) : List Line :=
  if c.hasConstructor then
    let params := c.fields.map fun d => d.name ++ "=" ++ expr [] d.value.shown
    suite ("def __init__(self, " ++ commaList params ++ ")")
      (c.fields.map fun d => Line.flush ("self." ++ d.name ++ " = " ++ d.name))
  else
    suite "def __init__(self)"
      (c.fields.map fun d => Line.flush ("self." ++ d.name ++ " = " ++ expr [] d.value.shown))

/-- A class: the method that gives the fields their first values, then the other methods. A class
without members is written as `pass`. -/
def classDef (c : ClassDef) : List Line :=
  let methods := c.methods.map (method (c.fields.map Declaration.name))
  let groups := if c.fields.isEmpty then methods else initializer c :: methods
  Line.flush ("class " ++ c.name ++ ":") ::
    deepen (if c.members.isEmpty then [Line.flush "pass"] else spaced groups)

/-- The lines of a program: classes, functions, each followed by two blank lines, and the main
block. -/
def program (p : Program) : List Line :=
  (p.classes.map classDef ++ p.functions.map function).flatMap (· ++ [Line.blank, Line.blank]) ++
    block [] p.main

end Blockflow.Indented
