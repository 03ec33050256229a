import Blockflow.Proofs.Graph.WellFormed

/-!
# What is cut out with a definition

What belongs to a definition is said here by paths (`Graph.Belongs`): the definition itself, and
every node that an edge leads to from something that belongs to it, except for the way on from the
definition. A path may come back to the definition, but it does not go on from there; and it ends
before an edge whose target is missing.

Cutting out finds exactly this (`Graph.mem_extent_iff_belongs`), on every graph and whatever its
edges are. The nodes and edges of a fragment are those of the graph that belong to the definition,
in their order (`Graph.extract_exact`).
-/

namespace Blockflow

theorem Node.isDefinition_iff_type {n : Node} :
    n.isDefinition = true ↔ n.type = "functionDefine" ∨ n.type = "classDefine" := by
  rw [Node.isDefinition_iff]
  constructor
  · rintro ⟨type, hb, hdef⟩
    have hname : type.name = n.type := by simpa using List.find?_some hb
    rw [← hname]
    cases type with
    | function => exact Or.inl rfl
    | classDef => exact Or.inr rfl
    | _ => cases hdef
  · rintro (htype | htype)
    · refine ⟨.function, ?_, rfl⟩
      rw [Node.block?, htype]
      decide
    · refine ⟨.classDef, ?_, rfl⟩
      rw [Node.block?, htype]
      decide

namespace Graph

variable {g : Graph} {root : String}

/-! ## What belongs to a definition -/

/-- The edge leads on from the root, back into the surrounding program. -/
def LeavesRoot (root : String) (e : Edge) : Prop := e.source = root ∧ e.role = some .next

instance (root : String) (e : Edge) : Decidable (LeavesRoot root e) :=
  inferInstanceAs (Decidable (_ ∧ _))

/-- What belongs to the definition at the root: the root, and every node that an edge leads to from
what belongs to it, unless the edge leads on from the root. -/
inductive Belongs (g : Graph) (root : String) : String → Prop where
  | root : g.Belongs root root
  | step {e : Edge} {n : Node} : g.Belongs root e.source → e ∈ g.edges → ¬ LeavesRoot root e →
      n ∈ g.nodes → n.id = e.target → g.Belongs root n.id

/-- **The search finds exactly what belongs to a definition.** -/
theorem mem_extent_iff_belongs {id : String} : id ∈ g.extent root ↔ g.Belongs root id := by
  rw [mem_extent_iff]
  constructor
  · intro hpath
    induction hpath with
    | refl => exact .root
    | tail _ hleads ih =>
      obtain ⟨e, he, rfl, rfl⟩ := hleads
      obtain ⟨hwithin, htarget⟩ := List.mem_filter.mp he
      obtain ⟨hmem, hleaves⟩ := mem_edgesWithin.mp hwithin
      obtain ⟨n, hn, hid⟩ := hasNode_iff.mp htarget
      rw [← hid]
      exact .step ih hmem hleaves hn hid
  · intro hbelongs
    induction hbelongs with
    | root => exact .refl
    | @step e n _ he hleaves hn hid ih =>
      rw [hid]
      refine ih.tail ⟨e, List.mem_filter.mpr ⟨mem_edgesWithin.mpr ⟨he, hleaves⟩, ?_⟩, rfl, rfl⟩
      exact hasNode_iff.mpr ⟨n, hn, hid⟩

instance (g : Graph) (root id : String) : Decidable (g.Belongs root id) :=
  decidable_of_iff (id ∈ g.extent root) mem_extent_iff_belongs

theorem contains_extent (g : Graph) (root id : String) :
    (g.extent root).contains id = decide (g.Belongs root id) := by
  rw [List.contains_eq_mem]
  exact decide_eq_decide.mpr mem_extent_iff_belongs

/-! ## The fragment of a definition -/

theorem filter_nodes_extent (g : Graph) (root : String) :
    g.nodes.filter ((g.extent root).contains ·.id) =
      g.nodes.filter fun n => g.Belongs root n.id := by
  refine List.filter_congr fun n _ => ?_
  exact contains_extent g root n.id

theorem filter_edges_extent (g : Graph) (root : String) :
    ((g.edgesWithin root).filter fun e =>
        (g.extent root).contains e.source && (g.extent root).contains e.target) =
      g.edges.filter fun e =>
        g.Belongs root e.source ∧ g.Belongs root e.target ∧ ¬ LeavesRoot root e := by
  rw [edgesWithin, List.filter_filter]
  refine List.filter_congr fun e _ => ?_
  rw [contains_extent, contains_extent, Bool.eq_iff_iff]
  simp only [LeavesRoot, Bool.and_eq_true, Bool.not_eq_true', Bool.and_eq_false_iff,
    decide_eq_true_eq, decide_eq_false_iff_not, not_and_or, and_assoc]

theorem extract_of_not_definition (h : ∀ n ∈ g.nodes, n.id = root → n.isDefinition = false) :
    ∃ cause, g.extract root = .error (.compile (.invalid [{ cause, node := some root }])) := by
  unfold extract
  cases hn : g.node? root with
  | none => exact ⟨.rootMissing, rfl⟩
  | some n =>
    have hdef : n.block?.any BlockType.isDefinition = false :=
      h n (mem_of_node? hn) (id_of_node? hn)
    refine ⟨.notDefinition n.type, ?_⟩
    simp only [hdef]
    rfl

/-- **Cutting out is exact.** A function or class is cut out with what belongs to it: the nodes of
the graph that do, in order, and the edges between them in order, but not those that lead on from
the definition. Only a definition that has an object in place of its parameters cannot be cut out.
If there is no node at the root, or it is no definition, there is an issue with it. -/
theorem extract_exact (g : Graph) (root : String) :
    (∀ n ∈ g.nodes, n.id = root → n.type = "functionDefine" ∨ n.type = "classDefine" →
      (¬ n.GivesObject "params" → ∃ f, g.extract root = .ok f ∧ f.root = root ∧
        (f.nodes = g.nodes.filter fun m => g.Belongs root m.id) ∧
        f.edges = g.edges.filter fun e =>
          g.Belongs root e.source ∧ g.Belongs root e.target ∧ ¬ LeavesRoot root e) ∧
      (n.GivesObject "params" → g.extract root = .error (.defect (.notText "dict")))) ∧
    ((∀ n ∈ g.nodes, n.id = root → n.type ≠ "functionDefine" ∧ n.type ≠ "classDefine") →
      ∃ cause, g.extract root = .error (.compile (.invalid [{ cause, node := some root }]))) := by
  constructor
  · rintro n hn rfl htype
    have hdef : n.block?.any BlockType.isDefinition = true := Node.isDefinition_iff_type.mpr htype
    have hextract : g.extract n.id = (n.list "params").mapError Failure.defect >>= fun params =>
        .ok {
          root := n.id
          name := (n.data.get? "name").getD (.text "")
          params
          nodes := g.nodes.filter ((g.extent n.id).contains ·.id)
          edges := (g.edgesWithin n.id).filter fun e =>
            (g.extent n.id).contains e.source && (g.extent n.id).contains e.target } := by
      unfold extract
      simp only [node?_of_mem hn, if_pos hdef]
      rfl
    constructor
    · intro htext
      cases hlist : n.list "params" with
      | error defect => exact absurd (Node.list_eq_error_iff.mp hlist).2 htext
      | ok params =>
        rw [hlist] at hextract
        exact ⟨_, hextract, rfl, filter_nodes_extent g n.id, filter_edges_extent g n.id⟩
    · intro hobject
      rw [hextract, Node.list_eq_error_iff.mpr ⟨rfl, hobject⟩]
      rfl
  · intro hnone
    refine extract_of_not_definition fun n hn hid => ?_
    by_contra hdef
    have htype := Node.isDefinition_iff_type.mp (by simpa using hdef)
    exact htype.elim (hnone n hn hid).1 (hnone n hn hid).2

/-- A function whose body leads back to it, to a node that is also behind the function, and to a
node that is missing. -/
def spiral : Graph where
  nodes :=
    [{ id := "after", type := "print", data := [("value", .text "1")] },
     { id := "turn", type := "while", data := [("condition", .text "x")] },
     { id := "f", type := "functionDefine", data := [("name", .text "f")] },
     { id := "both", type := "print", data := [("value", .text "2")] },
     { id := "beyond", type := "print", data := [("value", .text "3")] }]
  edges :=
    [{ id := "on", source := "f", target := "after", role := some .next },
     { id := "down", source := "after", target := "both", role := some .next },
     { id := "into", source := "f", target := "turn", role := some .body },
     { id := "loop", source := "turn", target := "both", role := some .body },
     { id := "back", source := "both", target := "f", role := some .next },
     { id := "out", source := "turn", target := "gone", role := some .next },
     { id := "far", source := "gone", target := "beyond", role := some .next }]
  nodup := by decide

theorem extract_exact_spiral :
    ∃ f, spiral.extract "f" = .ok f ∧
      (f.nodes = spiral.nodes.filter fun m => spiral.Belongs "f" m.id) ∧
      f.nodes.map Node.id = ["turn", "f", "both"] ∧
      f.edges.map Edge.id = ["into", "loop", "back"] := by
  obtain ⟨hdefinition, -⟩ := extract_exact spiral "f"
  obtain ⟨hcut, -⟩ := hdefinition
    { id := "f", type := "functionDefine", data := [("name", .text "f")] } (by simp [spiral]) rfl
    (Or.inl rfl)
  obtain ⟨f, hf, -, hnodes, hedges⟩ := hcut (by rintro ⟨members, hget, -⟩; cases hget)
  refine ⟨f, hf, hnodes, ?_, ?_⟩
  · rw [hnodes]
    decide +kernel
  · rw [hedges]
    decide +kernel

end Graph

end Blockflow
