import Blockflow.Graph.Reach

/-!
# Fragments

A fragment is a function or class definition cut out of a graph, with everything that can be reached
from it. The way on from the definition leads back into the surrounding program and is not followed.
What a fragment calls is not a part of it.
-/

namespace Blockflow

/-- A definition that is cut out of a graph. -/
structure Fragment where
  root : String
  /-- the name as it is given in the data of the definition -/
  name : FieldValue
  params : List String
  nodes : List Node
  edges : List Edge

def Node.toDrawn (n : Node) : DrawnNode :=
  { id := n.id, type := n.type
    data := n.data.map fun (key, value) => (key, value.toJson)
    position := n.position }

def Edge.toDrawn (e : Edge) : DrawnEdge :=
  { id := e.id, source := e.source, target := e.target, sourceHandle := e.handle }

namespace Fragment

/-- The fragment as a diagram of its own. -/
def diagram (f : Fragment) : Diagram :=
  { nodes := f.nodes.map Node.toDrawn, edges := f.edges.map Edge.toDrawn }

end Fragment

namespace Graph

/-- The edges other than those that lead on from a node. -/
def edgesWithin (g : Graph) (root : String) : List Edge :=
  g.edges.filter fun e => !(e.source = root && e.role = some .next)

/-- The nodes that belong to the definition at `root`. -/
def extent (g : Graph) (root : String) : List String :=
  search ((g.edgesWithin root).filter (g.hasNode ·.target)) [] [root]

/-- The definition at a node, cut out of the graph. -/
def extract (g : Graph) (root : String) : Except Failure Fragment := do
  let refuse (cause : IssueCause) : Except Failure Fragment :=
    .error (.compile (.invalid [{ cause, node := some root }]))
  match g.node? root with
  | none => refuse .rootMissing
  | some n =>
    if n.block?.any BlockType.isDefinition then
      let params ← (n.list "params").mapError Failure.defect
      let included := g.extent root
      return {
        root
        name := (n.data.get? "name").getD (.text "")
        params
        nodes := g.nodes.filter (included.contains ·.id)
        edges := (g.edgesWithin root).filter fun e =>
          included.contains e.source && included.contains e.target }
    else refuse (.notDefinition n.type)

end Graph

end Blockflow
