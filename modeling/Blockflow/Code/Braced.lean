import Blockflow.Code.Line
import Blockflow.Code.Writer

/-!
# Code with braces

The text of a program in Java, C++ and C#, where blocks stand between braces. The three languages
share their statements; they differ in the names of types, in the place of an opening brace, in a
few statements and in what surrounds the program.
-/

namespace Blockflow.Braced

open Expression

inductive Dialect where
  | java | cpp | csharp
deriving DecidableEq, Repr

namespace Dialect

def language : Dialect → Language
  | .java => .java
  | .cpp => .cpp
  | .csharp => .csharp

/-- Does an opening brace stand on a line of its own? -/
def braceAlone : Dialect → Bool
  | .csharp => true
  | .java | .cpp => false

/-- The class that holds the functions of a program, where they cannot stand on their own. -/
def mainClass? : Dialect → Option String
  | .java => some "Main"
  | .cpp => none
  | .csharp => some "Program"

end Dialect

/-! ## Types -/

/-- Where a type is named. -/
inductive TypePlace where
  | localVar | field | param | element
deriving DecidableEq, Repr

/-- The name for a type that is not known. -/
def unknownTypeName : Dialect → TypePlace → String
  | .java, .localVar => "var"
  | .java, _ => "Object"
  | .cpp, .localVar | .cpp, .param => "auto"
  | .cpp, _ => "std::any"
  | .csharp, .localVar => "var"
  | .csharp, .element => "object"
  | .csharp, _ => "dynamic"

def typeName (dialect : Dialect) (place : TypePlace) : ValueType → String
  | .int => "int"
  | .float => "double"
  | .string =>
    match dialect with
    | .java => "String"
    | .cpp => "std::string"
    | .csharp => "string"
  | .bool =>
    match dialect with
    | .java => "boolean"
    | .cpp | .csharp => "bool"
  | .char => "char"
  | .unknown => unknownTypeName dialect place

/-! ## Lines -/

/-- The start of a block. -/
def opening (dialect : Dialect) (header : String) : List Line :=
  if dialect.braceAlone then [Line.flush header, Line.flush "\x7b"]
  else [Line.flush (header ++ " \x7b")]

/-- The end of a block and the start of the one that continues it. -/
def reopening (dialect : Dialect) (header : String) : List Line :=
  if dialect.braceAlone then [Line.flush "\x7d", Line.flush header, Line.flush "\x7b"]
  else [Line.flush ("\x7d " ++ header ++ " \x7b")]

/-- A header and the lines of its block. -/
def braced (dialect : Dialect) (header : String) (body : List Line) : List Line :=
  opening dialect header ++ deepen body ++ [Line.flush "\x7d"]

/-! ## Statements of one line -/

/-- Where a statement stands: in which language, in a class of the user or not, and which functions
the program has. -/
structure Site where
  dialect : Dialect
  inClass : Bool := false
  functions : List String := []

namespace Site

def expr (site : Site) (text : String) : String := spell site.dialect.language.spelling text

def args (site : Site) (texts : List String) : String := commaList (texts.map site.expr)

def typeName (site : Site) (place : TypePlace) (type : ValueType) : String :=
  Braced.typeName site.dialect place type

/-- How a function is called: from inside of a user's class, through the class that holds it. -/
def callTarget (site : Site) (name : String) : String :=
  match site.dialect.mainClass? with
  | some main => if site.inClass && site.functions.contains name then main ++ "." ++ name else name
  | none => name

def printText (site : Site) (value : String) : String :=
  match site.dialect with
  | .java => "System.out.println(" ++ site.expr value ++ ");"
  | .csharp => "Console.WriteLine(" ++ site.expr value ++ ");"
  | .cpp =>
    let parts := (splitConcat? value).getD [value]
    "std::cout << " ++ " << ".intercalate (parts.map site.expr) ++ " << std::endl;"

def arrayText (site : Site) (name : String) (elements : List String) (type : ValueType) : String :=
  let element := site.typeName .element type
  let values := site.args elements
  match site.dialect with
  | .java => element ++ "[] " ++ name ++ " = \x7b" ++ values ++ "\x7d;"
  | .cpp => "std::vector<" ++ element ++ "> " ++ name ++ " = \x7b" ++ values ++ "\x7d;"
  | .csharp =>
    if elements.isEmpty then element ++ "[] " ++ name ++ " = \x7b \x7d;"
    else element ++ "[] " ++ name ++ " = \x7b " ++ values ++ " \x7d;"

def createText (site : Site) (className name : String) (arguments : List String) : String :=
  match site.dialect with
  | .cpp =>
    if arguments.isEmpty then className ++ " " ++ name ++ ";"
    else className ++ " " ++ name ++ "(" ++ site.args arguments ++ ");"
  | .java | .csharp =>
    className ++ " " ++ name ++ " = new " ++ className ++ "(" ++ site.args arguments ++ ");"

/-- The text of a statement that is one line. -/
def leaf? (site : Site) : Statement → Option String
  | .declare d =>
    some (site.typeName .localVar d.type ++ " " ++ d.name ++ " = " ++
      site.expr d.value.shown ++ ";")
  | .assign name value _ => some (name.shown ++ " = " ++ site.expr value.shown ++ ";")
  | .array name elements type _ => some (site.arrayText name.shown elements type)
  | .print value _ => some (site.printText value.shown)
  | .call name arguments _ => some (site.callTarget name ++ "(" ++ site.args arguments ++ ");")
  | .create className name arguments _ =>
    some (site.createText className.shown name.shown arguments)
  | _ => none

/-! ## Headers -/

/-- The initialiser of a loop. The declared type is kept when its name is not a known one. -/
def initText (site : Site) (init : String) (declares : Bool) : String :=
  match LoopInit.parse? init with
  | none => site.expr init
  | some i =>
    let assignment := i.name ++ " = " ++ site.expr i.value
    if !declares then assignment
    else
      let inferred := site.typeName .localVar (infer [] i.value)
      let type := match i.declared with
        | none => inferred
        | some name =>
          match ValueType.ofDeclared? name with
          | some type => site.typeName .localVar type
          | none => if ["var", "auto", "let"].contains name then inferred else name
      type ++ " " ++ assignment

def loopHeader (site : Site) (init cond step : String) (declares : Bool) : String :=
  "for (" ++ site.initText init declares ++ "; " ++ site.expr cond ++ "; " ++ site.expr step ++ ")"

/-- Can the type not be selected on by a switch of the language? -/
def needsChain (site : Site) (type : ValueType) : Bool :=
  match site.dialect with
  | .java => type = .float || type = .bool
  | .cpp => !(type = .int || type = .char || type = .bool || type = .unknown)
  | .csharp => false

/-- Has a switch to be written as a chain of branches? -/
def switchAsChain (site : Site) (subject : ValueType) (values : List String) : Bool :=
  (subject :: values.map fun value => literalType value.toList).any site.needsChain

/-- The label of a case, or of the default. -/
def labelText (site : Site) : Option String → String
  | some value => "case " ++ site.expr value ++ ":"
  | none => "default:"

/-- A case of a switch; it never falls through to the next one. -/
def caseLines (label : String) (body : List Line) : List Line :=
  Line.flush label :: deepen (body ++ [Line.flush "break;"])

end Site

/-! ## Statements -/

def Site.testText (site : Site) : Test → String
  | .holds cond => site.expr cond
  | .equals subject value => site.expr subject ++ " == " ++ site.expr value

def writer (site : Site) : Writer Line where
  leaf s := (site.leaf? s).toList.map Line.flush
  first test inner := opening site.dialect ("if (" ++ site.testText test ++ ")") ++ deepen inner
  next test inner :=
    reopening site.dialect ("else if (" ++ site.testText test ++ ")") ++ deepen inner
  final inner := reopening site.dialect "else" ++ deepen inner
  closing := [Line.flush "\x7d"]
  labels type values := !site.switchAsChain type values
  labelled subject := braced site.dialect ("switch (" ++ site.expr subject ++ ")")
  label value? := Site.caseLines (site.labelText value?)
  forLoop init cond step declares _ :=
    braced site.dialect (site.loopHeader init cond step declares)
  whileLoop cond := braced site.dialect ("while (" ++ site.expr cond ++ ")")

def statement (site : Site) : Statement → List Line := (writer site).statement

def block (site : Site) : List Statement → List Line := (writer site).block

/-! ## Definitions -/

/-- Words before a text, with a blank after them if there are any. -/
def modified (modifiers text : String) : String :=
  if modifiers.isEmpty then text else modifiers ++ " " ++ text

def paramList (site : Site) (params : List Param) : String :=
  commaList (params.map fun p => site.typeName .param p.type ++ " " ++ p.name)

/-- The first line of a function without its modifiers. -/
def signature (site : Site) (f : FunctionDef) : String :=
  "void " ++ f.name ++ "(" ++ paramList site f.params ++ ")"

def function (site : Site) (modifiers : String) (f : FunctionDef) : List Line :=
  braced site.dialect (modified modifiers (signature site f)) (block site f.body)

def fieldLine (site : Site) (modifiers : String) (d : Declaration) : Line :=
  Line.flush (modified modifiers
    (site.typeName .field d.type ++ " " ++ d.name ++ " = " ++ site.expr d.value.shown ++ ";"))

/-- The parameters of the constructor that takes every field in order. -/
def fieldParams (site : Site) (c : ClassDef) : String :=
  commaList (c.fields.map fun d => site.typeName .field d.type ++ " " ++ d.name)

/-- A constructor without arguments and one that takes every field in order. -/
def constructors (site : Site) (modifiers : String) (c : ClassDef) : List Line :=
  match site.dialect with
  | .cpp =>
    let inits := commaList (c.fields.map fun d => d.name ++ "(" ++ d.name ++ ")")
    [Line.flush (c.name ++ "() \x7b\x7d"),
     Line.flush (c.name ++ "(" ++ fieldParams site c ++ ") : " ++ inits ++ " \x7b\x7d")]
  | .java | .csharp =>
    braced site.dialect (modified modifiers (c.name ++ "()")) [] ++ Line.blank ::
      braced site.dialect (modified modifiers (c.name ++ "(" ++ fieldParams site c ++ ")"))
        (c.fields.map fun d => Line.flush ("this." ++ d.name ++ " = " ++ d.name ++ ";"))

/-- Fields, then constructors, then methods, with blank lines between them. -/
def classBody (site : Site) (fieldModifiers methodModifiers : String) (c : ClassDef) : List Line :=
  let methods := c.methods.map (function { site with inClass := true } methodModifiers)
  let fields := c.fields.map (fieldLine site fieldModifiers)
  let ctors := if c.hasConstructor then Line.blank :: constructors site methodModifiers c else []
  let separator := if c.fields.isEmpty || methods.isEmpty then [] else [Line.blank]
  fields ++ ctors ++ separator ++ spaced methods

def classDef (site : Site) (c : ClassDef) : List Line :=
  match site.dialect with
  | .java => braced site.dialect ("class " ++ c.name) (classBody site "" "public" c)
  | .csharp => braced site.dialect ("class " ++ c.name) (classBody site "public" "public" c)
  | .cpp =>
    [Line.flush ("class " ++ c.name ++ " \x7b"), Line.flush "public:"] ++
      deepen (classBody site "" "" c) ++ [Line.flush "\x7d;"]

/-! ## Programs -/

/-- Does a program declare an array, at any depth? -/
def usesArrays (p : Program) : Bool :=
  p.statements.any fun
    | .array _ _ _ _ => true
    | _ => false

/-- Does a program declare an array or a field of a type that is not known? -/
def usesUntyped (p : Program) : Bool :=
  (p.statements.any fun
    | .array _ _ type _ => type = .unknown
    | _ => false) ||
  p.classes.any fun c => c.fields.any (·.type = .unknown)

/-- The headers that a C++ program includes, in order. -/
def includes (p : Program) : List String :=
  (if usesUntyped p then ["any"] else []) ++ ["iostream", "string"] ++
    (if usesArrays p then ["vector"] else [])

/-- The declarations before the definitions of a C++ program. A function that is the only definition
needs none. -/
def prototypes (site : Site) (p : Program) : List Line :=
  if 1 < p.functions.length || (!p.functions.isEmpty && !p.classes.isEmpty) then
    p.functions.map (fun f => Line.flush (signature site f ++ ";")) ++ [Line.blank]
  else []

/-- Definitions, each with a blank line after it. -/
def definitions (groups : List (List Line)) : List Line := groups.flatMap (· ++ [Line.blank])

def cppProgram (p : Program) : List Line :=
  let site : Site := { dialect := .cpp }
  let head := (includes p).map (fun h => Line.flush ("#include <" ++ h ++ ">")) ++ [Line.blank]
  head ++ prototypes site p ++ definitions (p.classes.map (classDef site)) ++
    definitions (p.functions.map (function site "")) ++
    braced .cpp "int main()" (block site p.main ++ [Line.flush "return 0;"])

/-- A program whose functions are members of a main class. -/
def classProgram (dialect : Dialect) (head : List Line) (mainClass modifiers entry : String)
    (p : Program) : List Line :=
  let site : Site := { dialect, functions := p.functions.map FunctionDef.name }
  head ++ definitions (p.classes.map (classDef site)) ++
    braced dialect ("public class " ++ mainClass)
      (definitions (p.functions.map (function site modifiers)) ++
        braced dialect entry (block site p.main))

/-- The lines of a program. -/
def program (p : Program) : Dialect → List Line
  | .cpp => cppProgram p
  | .java =>
    classProgram .java [] "Main" "static" "public static void main(String[] args)" p
  | .csharp =>
    classProgram .csharp [Line.flush "using System;", Line.blank] "Program" "public static"
      "public static void Main(string[] args)" p

end Blockflow.Braced
