import Blockflow.Diagram.Schema
import Blockflow.Json.Writer

/-!
# Saved records

The two kinds of records that are kept under a name: projects, which hold a diagram and the code
made from it, and functions, which hold the diagram of a definition. A record is written as JSON and
read back from it.
-/

namespace Blockflow

/-- A diagram with the code made from it, by language. -/
structure SavedProject where
  name : String
  code : Dict String := []
  diagram : Diagram := {}

/-- A definition that other diagrams can call. -/
structure SavedFunction where
  name : String
  params : List String := []
  description : String := ""
  subgraph : Diagram

namespace SavedProject

def schema : Schema.Reader SavedProject
  | path, value =>
    Schema.record path value fun members =>
      (Checked.both (Schema.required members path "name" Schema.text)
        (Checked.both (Schema.optional members path "code" [] (Schema.dict Schema.text))
          (Schema.optional members path "diagram" {} Schema.diagram))).map
      fun (name, code, diagram) => ⟨name, code, diagram⟩

def toJson (keys : HandleKeys) (p : SavedProject) : Json :=
  .obj [("name", .str p.name),
    ("code", .obj (p.code.map fun (language, code) => (language, .str code))),
    ("diagram", p.diagram.toJson keys)]

end SavedProject

namespace SavedFunction

def schema : Schema.Reader SavedFunction
  | path, value =>
    Schema.record path value fun members =>
      (Checked.both (Schema.required members path "name" Schema.text)
        (Checked.both (Schema.optional members path "params" [] (Schema.list Schema.text))
          (Checked.both (Schema.optional members path "description" "" Schema.text)
            (Schema.required members path "subgraph" Schema.diagram)))).map
      fun (name, params, description, subgraph) => ⟨name, params, description, subgraph⟩

def toJson (keys : HandleKeys) (f : SavedFunction) : Json :=
  .obj [("name", .str f.name), ("params", .arr (f.params.map .str)),
    ("description", .str f.description), ("subgraph", f.subgraph.toJson keys)]

end SavedFunction

end Blockflow
