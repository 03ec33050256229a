import Blockflow.Json.Basic

/-!
# Diagrams as they are drawn

The nodes and edges of an editor's canvas, before anything is checked or normalised, and their JSON
form.
-/

namespace Blockflow

/-- A block on the canvas. -/
structure DrawnNode where
  id : String
  type : String
  data : Dict Json := []
  position : Dict Binary64 := []

/-- An arrow on the canvas. -/
structure DrawnEdge where
  id : String := ""
  source : String
  target : String
  sourceHandle : Option String := none
  targetHandle : Option String := none
deriving DecidableEq, Repr

/-- A canvas. -/
structure Diagram where
  nodes : List DrawnNode := []
  edges : List DrawnEdge := []
deriving Inhabited

/-- The keys under which the handles of an edge are written. -/
structure HandleKeys where
  source : String
  target : String

namespace HandleKeys

/-- The keys that an editor uses. -/
def editor : HandleKeys := ⟨"sourceHandle", "targetHandle"⟩

/-- The keys in stored files. -/
def file : HandleKeys := ⟨"source_handle", "target_handle"⟩

end HandleKeys

def DrawnNode.toJson (n : DrawnNode) : Json :=
  .obj [("id", .str n.id), ("type", .str n.type), ("data", .obj n.data),
    ("position", .obj (n.position.map fun (key, x) => (key, .float x)))]

def DrawnEdge.toJson (keys : HandleKeys) (e : DrawnEdge) : Json :=
  .obj [("id", .str e.id), ("source", .str e.source), ("target", .str e.target),
    (keys.source, .ofText? e.sourceHandle), (keys.target, .ofText? e.targetHandle)]

/-- How many values may be inside of each other in the data of a block that is written. -/
def levelLimit : Nat := 255

/-- Can the diagram be written, or are the data of a block nested too deep? -/
def Diagram.isWritable (d : Diagram) : Bool :=
  d.nodes.all fun n => n.data.all fun (_, value) => value.levels ≤ levelLimit

def Diagram.toJson (keys : HandleKeys) (d : Diagram) : Json :=
  .obj [("nodes", .arr (d.nodes.map DrawnNode.toJson)),
    ("edges", .arr (d.edges.map (DrawnEdge.toJson keys)))]

end Blockflow
