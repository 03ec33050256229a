import Blockflow.Code.Braced
import Blockflow.Code.Fault
import Blockflow.Code.Indented
import Blockflow.Program.Linking

/-!
# Code of a program

The text of a program in a target language, and the code of a graph: the graph is checked, its
program is built once, and the program is rendered.
-/

namespace Blockflow

/-- The lines of a program in a language. -/
def Program.lines (p : Program) : Language → List Line
  | .python => Indented.program p
  | .java => Braced.program p .java
  | .cpp => Braced.program p .cpp
  | .csharp => Braced.program p .csharp

/-- The text of a program in a language. -/
def Program.render (p : Program) (language : Language) : Except Failure String :=
  match p.fault? language with
  | some failure => .error failure
  | none => .ok (writeLines (p.lines language))

/-- The text of a program in the language of the given name. -/
def Program.renderNamed (p : Program) (name : String) : Except Failure String :=
  match Language.ofName? name with
  | some language => p.render language
  | none => .error (.defect (.unknownLanguage name))

/-- The code of a graph in one language; an unknown language is noticed after the program was
built. -/
def Graph.compile (g : Graph) (lib : Library) (name : String) : Except Failure String := do
  (← g.program lib).renderNamed name

/-- The code of a graph in all languages. -/
def Graph.compileAll (g : Graph) (lib : Library) : Except Failure (List (Language × String)) := do
  let p ← g.program lib
  Language.all.mapM fun language => do return (language, ← p.render language)

end Blockflow
