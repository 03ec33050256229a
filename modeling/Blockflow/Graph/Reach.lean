import Blockflow.Block.Basic

/-!
# Searching a graph

`search` visits what can be reached along edges, with a stack of the places that are still to be
visited. Each edge is followed once at most, so it ends on every graph, with cycles or without. A
back edge closes a loop: it leads from somewhere in the body of a loop, that is from a place that
can be reached through the body exit without coming through the loop itself, back to the loop.
-/

namespace Blockflow

/-- The edges that leave a place which has not been seen. -/
def unseenEdges (edges : List Edge) (seen : List String) : List Edge :=
  edges.filter (·.source ∉ seen)

/-- The edges that leave a place are used up when it is visited. -/
theorem length_unseenEdges_cons {seen : List String} {place : String} (h : place ∉ seen)
    (edges : List Edge) :
    (unseenEdges edges (place :: seen)).length + (edges.filter (·.source = place)).length =
      (unseenEdges edges seen).length := by
  induction edges with
  | nil => rfl
  | cons e rest ih =>
    unfold unseenEdges at ih ⊢
    by_cases he : e.source = place
    · rw [List.filter_cons_of_neg (by simp [he]), List.filter_cons_of_pos (by simp [he]),
        List.filter_cons_of_pos (by simp [he, h]), List.length_cons, List.length_cons]
      omega
    · by_cases hs : e.source ∈ seen
      · rwa [List.filter_cons_of_neg (by simp [hs]), List.filter_cons_of_neg (by simp [he]),
          List.filter_cons_of_neg (by simp [hs])]
      · rw [List.filter_cons_of_pos (by simp [he, hs]), List.filter_cons_of_neg (by simp [he]),
          List.filter_cons_of_pos (by simp [hs]), List.length_cons, List.length_cons]
        omega

/-- The ends of the edges that leave a place, without those that have been seen. The end of the last
edge comes first. -/
def nextPlaces (edges : List Edge) (seen : List String) (place : String) : List String :=
  (((edges.filter (·.source = place)).map Edge.target).filter (· ∉ seen)).reverse

theorem length_nextPlaces_le (edges : List Edge) (seen : List String) (place : String) :
    (nextPlaces edges seen place).length ≤ (edges.filter (·.source = place)).length := by
  rw [nextPlaces, List.length_reverse]
  exact Nat.le_trans (List.length_filter_le _ _) (Nat.le_of_eq (List.length_map _))

/-- The places that are visited, in order. The place on top of the stack is left out if it has been
seen. Otherwise it is visited, and the ends of its edges are put on the stack. -/
def search (edges : List Edge) (seen : List String) : List String → List String
  | [] => []
  | place :: stack =>
    if h : place ∈ seen then search edges seen stack
    else
      have := length_unseenEdges_cons h edges
      have := length_nextPlaces_le edges (place :: seen) place
      place :: search edges (place :: seen) (nextPlaces edges (place :: seen) place ++ stack)
termination_by stack => (unseenEdges edges seen).length + stack.length
decreasing_by
  · simp
  · simp only [List.length_append, List.length_cons]
    omega

namespace Graph

def isLoop (n : Node) : Bool := n.block?.any BlockType.isLoop

/-- The nodes of the body of a loop: what is visited from its body exit, where the loop counts as
seen. -/
def loopBody (g : Graph) (loop : String) : List String :=
  match g.edgeFor loop .body with
  | none => []
  | some e => search g.edges [loop] [e.target]

/-- The edges from the body of a loop back to the loop. -/
def closingEdges (g : Graph) (loop : String) : List Edge :=
  let body := g.loopBody loop
  g.edges.filter fun e => e.target = loop && body.contains e.source

/-- The ids of the back edges of all loops. -/
def backEdges (g : Graph) : List String :=
  (g.nodes.filter isLoop).flatMap fun n => (g.closingEdges n.id).map Edge.id

/-- The nodes where control can enter: only back edges lead to them. -/
def entryPoints (g : Graph) : List String :=
  let back := g.backEdges
  g.ids.filter fun id => (g.incoming id).all fun e => back.contains e.id

end Graph

end Blockflow
