import Blockflow.Issue

/-!
# Lines of code

Code is put together as lines with a level of indentation each. A line without text is a blank line
and has no indentation when it is written.
-/

namespace Blockflow

/-- The target languages. -/
inductive Language where
  | python | java | cpp | csharp
deriving DecidableEq, Repr

namespace Language

def all : List Language := [.python, .java, .cpp, .csharp]

def name : Language → String
  | .python => "python"
  | .java => "java"
  | .cpp => "cpp"
  | .csharp => "csharp"

def ofName? (s : String) : Option Language := all.find? (·.name = s)

/-- How expressions are spelled in a language. -/
def spelling : Language → Expression.Spelling
  | .python => .words
  | .cpp => .signsNullptr
  | .java | .csharp => .signs

end Language

structure Line where
  level : Nat
  text : String
deriving DecidableEq, Repr

namespace Line

/-- A line without indentation. -/
def flush (text : String) : Line := ⟨0, text⟩

def blank : Line := ⟨0, ""⟩

/-- The line one level deeper. -/
def deeper (l : Line) : Line := ⟨l.level + 1, l.text⟩

def isBlank (l : Line) : Bool := l.text.isEmpty

/-- The line as it is written, indented by four per level. -/
def write (l : Line) : String :=
  if l.isBlank then "" else String.ofList (List.replicate (4 * l.level) ' ') ++ l.text

end Line

/-- Lines one level deeper. -/
def deepen (lines : List Line) : List Line := lines.map Line.deeper

/-- Groups of lines with a blank line between two groups. -/
def spaced : List (List Line) → List Line
  | [] => []
  | [group] => group
  | group :: rest => group ++ Line.blank :: spaced rest

/-- Lines as a text, without blank lines at its end. -/
def writeLines (lines : List Line) : String :=
  let kept := (lines.reverse.dropWhile Line.isBlank).reverse
  String.join (kept.map fun l => l.write ++ "\n")

/-- Texts with a comma between two of them. -/
def commaList (texts : List String) : String := ", ".intercalate texts

end Blockflow
