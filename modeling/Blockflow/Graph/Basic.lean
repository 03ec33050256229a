import Blockflow.Diagram.Basic
import Blockflow.FieldValue

/-!
# Graphs

A graph is a diagram whose node ids are distinct, whose block data are normalised to texts as far as
possible, and whose edges have roles. The order of the nodes is the order of the statements.
-/

namespace Blockflow

/-! ## Block data -/

/-- The keys of block data that only matter for display. -/
def displayKeys : List String := ["label"]

/-- How many lists may be inside of each other in the data of a block. -/
def listLimit : Nat := 330

/-- Are there lists in the data of a block that are nested too deep? What is only for display is not
looked at. -/
def hasDeepList (data : Dict Json) : Bool :=
  data.any fun (key, value) => !displayKeys.contains key && listLimit < value.listDepth

/-- The data of a block without what is for display only and without nulls. -/
def normalizeData (data : Dict Json) : Dict FieldValue :=
  data.filterMap fun (key, value) =>
    if displayKeys.contains key then none else (FieldValue.ofJson? value).map (key, ·)

/-! ## Nodes, edges and graphs -/

structure Node where
  id : String
  type : String
  data : Dict FieldValue := []
  position : Dict Binary64 := []

/-- An edge; its role is missing when its handle stands for none. -/
structure Edge where
  id : String
  source : String
  target : String
  handle : Option String := none
  role : Option Role := none
deriving DecidableEq, Repr

structure Graph where
  nodes : List Node
  edges : List Edge
  /-- every node has an id of its own -/
  nodup : (nodes.map Node.id).Nodup

namespace Graph

/-- The ids of the nodes in order. -/
def ids (g : Graph) : List String := g.nodes.map Node.id

def hasNode (g : Graph) (id : String) : Bool := g.ids.contains id

def node? (g : Graph) (id : String) : Option Node := g.nodes.find? (·.id = id)

/-- The edges that lead to a node, in order. -/
def incoming (g : Graph) (id : String) : List Edge := g.edges.filter (·.target = id)

/-- The edges that leave a node, in order. -/
def outgoing (g : Graph) (id : String) : List Edge := g.edges.filter (·.source = id)

/-- The edge that leaves a node in a role; the first one, should there be several. -/
def edgeFor (g : Graph) (id : String) (role : Role) : Option Edge :=
  (g.outgoing id).find? (·.role = some role)

end Graph

/-! ## Loading a diagram -/

def Node.ofDrawn (n : DrawnNode) : Node :=
  { id := n.id, type := n.type, data := normalizeData n.data, position := n.position }

/-- An edge; one without an id gets one from its ends and its handle. -/
def Edge.ofDrawn (e : DrawnEdge) : Edge :=
  let handle := match e.sourceHandle with
    | some s => if s.isEmpty then "next" else s
    | none => "next"
  { id := if e.id.isEmpty then e.source ++ "->" ++ e.target ++ ":" ++ handle else e.id
    source := e.source
    target := e.target
    handle := e.sourceHandle
    role := (Role.parse e.sourceHandle).toOption }

/-- The entries of a list that have come before, in order. -/
def repeats (seen : List String) : List String → List String
  | [] => []
  | s :: rest => if seen.contains s then s :: repeats seen rest else repeats (s :: seen) rest

/-- The graph of a diagram, unless its data are nested too deep or node ids are used twice. -/
def Graph.load (d : Diagram) : Except Failure Graph :=
  let nodes := d.nodes.map Node.ofDrawn
  if d.nodes.any (hasDeepList ·.data) then .error (.defect .tooDeep)
  else if h : (nodes.map Node.id).Nodup then
    .ok { nodes, edges := d.edges.map Edge.ofDrawn, nodup := h }
  else
    .error (.compile (.invalid ((repeats [] (nodes.map Node.id)).map fun id =>
      { cause := .duplicateNode, node := some id })))

end Blockflow
