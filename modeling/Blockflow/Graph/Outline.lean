import Blockflow.Graph.Reach

/-!
# Outlines

The outline of a graph is what one sees when walking through it from its entry points: chains of
nodes along the `next` exits, and inside of a node the chains behind its other exits. A node has one
place in the outline; where the walk comes to a node for the second time, or cannot go on for
another reason, the outline has a fault instead of a chain.

The walk never comes to a node that it is inside of, so the nodes that are not on the path to the
present place become fewer with every step: this is why it ends.
-/

namespace Blockflow

/-- A chain of nodes. -/
inductive Outline where
  | done
  | fault (node : String) (fault : FlowFault)
  /-- an edge leads to a node that is not there -/
  | missing (id : String)
  /-- a node, the chains behind its exits other than `next`, and the rest of the chain -/
  | step (node : Node) (slots : List (Role × Outline)) (next : Outline)

/-- Apply a function to every item of a list from left to right, handing a state along. -/
def mapAccum {σ α β : Type} (f : σ → α → β × σ) : σ → List α → List β × σ
  | s, [] => ([], s)
  | s, a :: rest =>
    let (b, s) := f s a
    let (bs, s) := mapAccum f s rest
    (b :: bs, s)

namespace Graph

/-- How many nodes are not on the path. -/
def offPath (g : Graph) (path : List String) : Nat :=
  g.nodes.countP fun n => !path.contains n.id

theorem offPath_cons_lt {g : Graph} {path : List String} {id : String} {n : Node}
    (hn : g.node? id = some n) (hp : path.contains id = false) :
    g.offPath (id :: path) < g.offPath path := by
  have hmem : n ∈ g.nodes := List.mem_of_find?_eq_some hn
  have hid : n.id = id := by simpa using List.find?_some hn
  unfold offPath
  clear hn
  generalize g.nodes = nodes at hmem
  have hle : ∀ l : List Node, l.countP (fun m => !(id :: path).contains m.id) ≤
      l.countP (fun m => !path.contains m.id) := fun l =>
    List.countP_mono_left fun m _ h => by simp_all
  induction nodes with
  | nil => simp at hmem
  | cons m rest ih =>
    by_cases hm : n = m
    · subst hm
      rw [List.countP_cons_of_neg (by simp [hid]),
        List.countP_cons_of_pos (by simpa [hid] using hp)]
      have := hle rest
      omega
    · have hr : n ∈ rest := by simpa [hm] using hmem
      have := ih hr
      rw [List.countP_cons, List.countP_cons]
      have hone : (if (!(id :: path).contains m.id) = true then 1 else 0) ≤
          (if (!path.contains m.id) = true then 1 else 0) := by
        by_cases h : m.id = id <;> simp_all
      omega

end Graph

/-- The roles of the exits of a node that lead into a nested block. -/
def Node.slotRoles (n : Node) : List Role :=
  match n.block? with
  | none => []
  | some type =>
    type.slotRoles (if type = .switch then (n.list "cases").toOption.getD [] else [])

/-- Must a block of this node's kind have an edge in the role? -/
def Node.requires (n : Node) (role : Role) : Bool :=
  match n.block? with
  | none => false
  | some type => (type.exits []).any fun spec => spec.role = role && spec.required

/-- The loops that a nested block of a node is in. A definition starts afresh. -/
def Node.enclosing (n : Node) (loops : List String) : List String :=
  match n.block? with
  | none => loops
  | some type =>
    if type.isLoop then n.id :: loops else if type.isDefinition then [] else loops

/-- Where an edge leads: a back edge to a loop around its source only closes the body of the loop
and leads nowhere. -/
def follow (back loops : List String) (e : Edge) : Option String :=
  if back.contains e.id && loops.contains e.target then none else some e.target

/-- What a walk through a graph needs to know. -/
structure Tour where
  graph : Graph
  back : List String
  /-- how deep blocks may be nested -/
  limit : Int

/-- What is behind one exit of a node, where `enter` gives the chain that starts at a target. -/
def Tour.slot (t : Tour) (node : Node) (inner : List String) (depth : Nat)
    (enter : List String → String → Outline × List String) (placed : List String) (role : Role) :
    (Role × Outline) × List String :=
  match t.graph.edgeFor node.id role with
  | none =>
    ((role, if node.requires role then .fault node.id (.missingEdge role) else .done), placed)
  | some e =>
    match follow t.back inner e with
    | none => ((role, .done), placed)
    | some target =>
      if t.limit < depth + 1 then ((role, .fault node.id (.tooDeep t.limit)), placed)
      else
        let (block, placed) := enter placed target
        ((role, block), placed)

/-- The chain that starts at a node, and the nodes that have been placed. `path` are the nodes
before and around the start, `loops` the loops around it, `depth` the number of blocks around it,
and `placed` the nodes that have a place already. -/
def Tour.chain (t : Tour) (path loops : List String) (depth : Nat) (placed : List String)
    (start : String) : Outline × List String :=
  if hp : path.contains start then (.fault start .cycle, placed)
  else if placed.contains start then (.fault start .reachedTwice, placed)
  else
    match hn : t.graph.node? start with
    | none => (.missing start, placed)
    | some node =>
      have : t.graph.offPath (start :: path) < t.graph.offPath path :=
        Graph.offPath_cons_lt hn (by simpa using hp)
      let inner := node.enclosing loops
      let (slots, placed) :=
        mapAccum (t.slot node inner depth fun placed target =>
          t.chain (start :: path) inner (depth + 1) placed target) (start :: placed) node.slotRoles
      match (t.graph.edgeFor start .next).bind (follow t.back loops) with
      | none => (.step node slots .done, placed)
      | some target =>
        let (next, placed) := t.chain (start :: path) loops depth placed target
        (.step node slots next, placed)
termination_by t.graph.offPath path

/-- The chains of a graph from its entry points in order, and the nodes that have been placed. -/
def Graph.outline (g : Graph) (limit : Int) : List Outline × List String :=
  let tour : Tour := { graph := g, back := g.backEdges, limit }
  mapAccum (fun placed start => tour.chain [] [] 0 placed start) [] g.entryPoints

end Blockflow
