import Blockflow.Proofs.Graph.Closing
import Blockflow.Proofs.Program.Build

/-!
# Programs do not depend on how edges are listed

A graph may be redrawn: its edges are listed in another order and get other ids, as long as
different edges keep different ids (`Graph.Redraws`). In a valid graph at most one edge leaves a
node in a role, so the edge of an exit is the same one wherever it stands in the list. What is
reached along the edges does not depend on their order either, so the back edges correspond, and
with them the entry points and every step of the walk. A graph that is redrawn has the same outline
and hence the same outcome: the same program, or the same failure at the same node.
-/

namespace Blockflow

/-! ## Walks that cannot be told apart -/

/-- A chain without the proof that the walk ends. -/
theorem Tour.chain_eq (t : Tour) (path loops : List String) (depth : Nat) (placed : List String)
    (start : String) :
    t.chain path loops depth placed start =
      if path.contains start then (.fault start .cycle, placed)
      else if placed.contains start then (.fault start .reachedTwice, placed)
      else
        match t.graph.node? start with
        | none => (.missing start, placed)
        | some n =>
          let slots := mapAccum (t.slot n (n.enclosing loops) depth fun placed target =>
            t.chain (start :: path) (n.enclosing loops) (depth + 1) placed target)
            (start :: placed) n.slotRoles
          match (t.graph.edgeFor start .next).bind (follow t.back loops) with
          | none => (.step n slots.1 .done, slots.2)
          | some target =>
            let next := t.chain (start :: path) loops depth slots.2 target
            (.step n slots.1 next.1, next.2) := by
  rw [Tour.chain]
  by_cases hp : path.contains start = true
  · rw [dif_pos hp, if_pos hp]
  rw [dif_neg hp, if_neg hp]
  split
  next => rfl
  next =>
    split
    next hn => simp only [hn]
    next n hn =>
      cases (t.graph.edgeFor start .next).bind (follow t.back loops) with
      | none => simp only [hn]
      | some target => simp only [hn]

/-- Two tours with the same nodes and the same limit, on which every exit leads to the same node,
whatever the loops around it. -/
structure Tour.Alike (t u : Tour) : Prop where
  nodes : u.graph.nodes = t.graph.nodes
  limit : u.limit = t.limit
  exits : ∀ id role loops, (u.graph.edgeFor id role).map (follow u.back loops) =
    (t.graph.edgeFor id role).map (follow t.back loops)

namespace Tour.Alike

variable {t u : Tour}

theorem node? (h : t.Alike u) (id : String) : u.graph.node? id = t.graph.node? id := by
  rw [Graph.node?, Graph.node?, h.nodes]

theorem next_eq (h : t.Alike u) (id : String) (loops : List String) :
    (u.graph.edgeFor id .next).bind (follow u.back loops) =
      (t.graph.edgeFor id .next).bind (follow t.back loops) := by
  have hexit := congrArg (Option.bind · fun target => target) (h.exits id .next loops)
  simp only [Option.bind_map] at hexit
  exact hexit

/-- One exit, where the chains behind it are the same. -/
theorem slot_eq (h : t.Alike u) (n : Node) (inner : List String) (depth : Nat)
    (enter : List String → String → Outline × List String) :
    u.slot n inner depth enter = t.slot n inner depth enter := by
  funext placed role
  have hexit := h.exits n.id role inner
  unfold Tour.slot
  cases hu : u.graph.edgeFor n.id role with
  | none =>
    cases ht : t.graph.edgeFor n.id role with
    | none => rfl
    | some e => simp [hu, ht] at hexit
  | some f =>
    cases ht : t.graph.edgeFor n.id role with
    | none => simp [hu, ht] at hexit
    | some e =>
      have hfollow : follow u.back inner f = follow t.back inner e := by simpa [hu, ht] using hexit
      simp only [hfollow, h.limit]

/-- **Walks that cannot be told apart see the same chains.** -/
theorem chain_alike (h : t.Alike u) (path loops : List String) (depth : Nat) (placed : List String)
    (start : String) :
    u.chain path loops depth placed start = t.chain path loops depth placed start := by
  -- by induction on the number of nodes off the path, as the walk itself
  induction hm : t.graph.offPath path using Nat.strongRecOn
    generalizing path loops depth placed start with
  | _ m ih =>
    rw [Tour.chain_eq, Tour.chain_eq, h.node?]
    cases hp : path.contains start with
    | true => rfl
    | false =>
      cases hn : t.graph.node? start with
      | none => rfl
      | some n =>
        have hlt : t.graph.offPath (start :: path) < m := by
          rw [← hm]
          exact Graph.offPath_cons_lt hn hp
        have hrec : ∀ loops depth placed target,
            u.chain (start :: path) loops depth placed target =
              t.chain (start :: path) loops depth placed target :=
          fun loops depth placed target => ih _ hlt (start :: path) loops depth placed target rfl
        simp only [h.slot_eq, h.next_eq, hrec]

end Tour.Alike

/-! ## Redrawn graphs -/

/-- The edge under another id. -/
def Edge.renamed (rename : String → String) (e : Edge) : Edge := { e with id := rename e.id }

namespace Graph

variable {g g' : Graph} {rename : String → String}

/-- `g'` is `g` with its edges listed in some order and under other ids, which are different for
different edges. -/
structure Redraws (g g' : Graph) (rename : String → String) : Prop where
  nodes : g'.nodes = g.nodes
  edges : g'.edges.Perm (g.edges.map (Edge.renamed rename))
  injective : ∀ e ∈ g.edges, ∀ f ∈ g.edges, rename e.id = rename f.id → e.id = f.id

namespace Redraws

theorem mem_edges_iff (hr : g.Redraws g' rename) {f : Edge} :
    f ∈ g'.edges ↔ ∃ e ∈ g.edges, e.renamed rename = f := by
  rw [hr.edges.mem_iff, List.mem_map]

theorem node? (hr : g.Redraws g' rename) (id : String) : g'.node? id = g.node? id := by
  rw [Graph.node?, Graph.node?, hr.nodes]

theorem ids_eq (hr : g.Redraws g' rename) : g'.ids = g.ids := by rw [ids, ids, hr.nodes]

/-- The edges beside a node connect the same nodes. -/
theorem leads_iff (hr : g.Redraws g' rename) {loop a b : String} :
    Leads (g'.edgesBeside loop) a b ↔ Leads (g.edgesBeside loop) a b := by
  constructor
  · rintro ⟨f, hf, rfl, rfl⟩
    obtain ⟨hf, hne⟩ := List.mem_filter.mp hf
    obtain ⟨e, he, rfl⟩ := hr.mem_edges_iff.mp hf
    exact ⟨e, List.mem_filter.mpr ⟨he, hne⟩, rfl, rfl⟩
  · rintro ⟨e, he, rfl, rfl⟩
    obtain ⟨he, hne⟩ := List.mem_filter.mp he
    exact ⟨e.renamed rename, List.mem_filter.mpr ⟨hr.mem_edges_iff.mpr ⟨e, he, rfl⟩, hne⟩, rfl, rfl⟩

/-- **The edge of an exit does not depend on the order,** as it is the only one. -/
theorem edgeFor_eq (hr : g.Redraws g' rename) (hv : g.Valid) (id : String) (role : Role) :
    g'.edgeFor id role = (g.edgeFor id role).map (Edge.renamed rename) := by
  cases hf : g'.edgeFor id role with
  | some f =>
    obtain ⟨hmem, rfl, hrole⟩ := mem_of_edgeFor hf
    obtain ⟨e, he, rfl⟩ := hr.mem_edges_iff.mp hmem
    show _ = (g.edgeFor e.source role).map _
    rw [hv.edgeFor_eq he hrole]
    rfl
  | none =>
    cases hg : g.edgeFor id role with
    | none => rfl
    | some e =>
      obtain ⟨he, rfl, hrole⟩ := mem_of_edgeFor hg
      have hout : e.renamed rename ∈ g'.outgoing e.source :=
        List.mem_filter.mpr ⟨hr.mem_edges_iff.mpr ⟨e, he, rfl⟩, by simp [Edge.renamed]⟩
      have := List.find?_eq_none.mp hf _ hout
      simp [Edge.renamed, hrole] at this

/-- The bodies of loops have the same nodes. -/
theorem mem_loopBody_iff (hr : g.Redraws g' rename) (hv : g.Valid) {loop id : String} :
    id ∈ g'.loopBody loop ↔ id ∈ g.loopBody loop := by
  have hleads : Leads (g'.edgesBeside loop) = Leads (g.edgesBeside loop) :=
    funext fun _ => funext fun _ => propext hr.leads_iff
  rw [Graph.mem_loopBody_iff, Graph.mem_loopBody_iff, hr.edgeFor_eq hv, hleads]
  simp [Edge.renamed]

/-- An edge is a back edge under its new id if it was one under its old id. -/
theorem mem_backEdges_iff (hr : g.Redraws g' rename) (hv : g.Valid) {e : Edge}
    (he : e ∈ g.edges) : rename e.id ∈ g'.backEdges ↔ e.id ∈ g.backEdges := by
  rw [Graph.mem_backEdges_iff, Graph.mem_backEdges_iff]
  constructor
  · rintro ⟨f, hf, hid, n, hn, hloop, ht, hs⟩
    obtain ⟨e', he', rfl⟩ := hr.mem_edges_iff.mp hf
    rw [hr.nodes] at hn
    exact ⟨e', he', hr.injective e' he' e he hid, n, hn, hloop, ht, (hr.mem_loopBody_iff hv).mp hs⟩
  · rintro ⟨e', he', hid, n, hn, hloop, ht, hs⟩
    obtain rfl := hv.edge_eq he' he hid
    rw [← hr.nodes] at hn
    exact ⟨e'.renamed rename, hr.mem_edges_iff.mpr ⟨e', he', rfl⟩, rfl, n, hn, hloop, ht,
      (hr.mem_loopBody_iff hv).mpr hs⟩

theorem follow_eq (hr : g.Redraws g' rename) (hv : g.Valid) {e : Edge} (he : e ∈ g.edges)
    (loops : List String) :
    follow g'.backEdges loops (e.renamed rename) = follow g.backEdges loops e := by
  have hback : g'.backEdges.contains (rename e.id) = g.backEdges.contains e.id :=
    Bool.eq_iff_iff.mpr (by simpa using hr.mem_backEdges_iff hv he)
  unfold follow Edge.renamed
  rw [hback]

theorem entryPoints_eq (hr : g.Redraws g' rename) (hv : g.Valid) :
    g'.entryPoints = g.entryPoints := by
  unfold entryPoints
  rw [hr.ids_eq]
  refine List.filter_congr fun id _ => Bool.eq_iff_iff.mpr ?_
  simp only [List.all_eq_true, incoming, List.mem_filter, List.contains_eq_mem, decide_eq_true_eq]
  constructor
  · rintro hall e ⟨he, ht⟩
    exact (hr.mem_backEdges_iff hv he).mp
      (hall (e.renamed rename) ⟨hr.mem_edges_iff.mpr ⟨e, he, rfl⟩, ht⟩)
  · rintro hall f ⟨hf, ht⟩
    obtain ⟨e, he, rfl⟩ := hr.mem_edges_iff.mp hf
    exact (hr.mem_backEdges_iff hv he).mpr (hall e ⟨he, ht⟩)

/-! ## The same outcome -/

theorem alike (hr : g.Redraws g' rename) (hv : g.Valid) (limit : Int) :
    (g.tour limit).Alike (g'.tour limit) where
  nodes := hr.nodes
  limit := rfl
  exits id role loops := by
    show (g'.edgeFor id role).map _ = (g.edgeFor id role).map _
    rw [hr.edgeFor_eq hv, Option.map_map]
    cases hg : g.edgeFor id role with
    | none => rfl
    | some e => exact congrArg some (hr.follow_eq hv (mem_of_edgeFor hg).1 loops)

theorem outline_eq (hr : g.Redraws g' rename) (hv : g.Valid) (limit : Int) :
    g'.outline limit = g.outline limit := by
  have hchain : ∀ placed start, (g'.tour limit).chain [] [] 0 placed start =
      (g.tour limit).chain [] [] 0 placed start :=
    (hr.alike hv limit).chain_alike [] [] 0
  show mapAccum (fun placed start => (g'.tour limit).chain [] [] 0 placed start) [] g'.entryPoints =
    mapAccum (fun placed start => (g.tour limit).chain [] [] 0 placed start) [] g.entryPoints
  simp only [hchain, hr.entryPoints_eq hv]

theorem assemble_eq (hr : g.Redraws g' rename) (hv : g.Valid) (limit : Int) :
    g'.assemble limit = g.assemble limit := by
  simp only [assemble, unplaced?, hr.outline_eq hv, hr.ids_eq]

/-- What is said about the names of nodes is the same. -/
theorem nameObject?_eq (hr : g.Redraws g' rename) : g'.nameObject? = g.nameObject? := by
  funext id
  rw [nameObject?, nameObject?, hr.node?]

theorem namesAreTexts_eq (hr : g.Redraws g' rename) (a : Assembly) :
    g'.namesAreTexts a = g.namesAreTexts a := by
  simp only [namesAreTexts, hasObjectName, hr.nameObject?_eq]

theorem linkFailure_eq (hr : g.Redraws g' rename) (limit : Int) (lib : Library) (a : Assembly) :
    g'.linkFailure limit lib a = g.linkFailure limit lib a := by
  have hcalls : g'.callFailure? = g.callFailure? := by
    funext hasLibrary a site
    simp only [callFailure?, hasObjectName, hr.nameObject?_eq]
    rfl
  have hready : g'.readyCalls = g.readyCalls := by
    funext hasLibrary a
    simp only [readyCalls, hcalls, hasObjectName, hr.nameObject?_eq]
  simp only [linkFailure, hcalls, hready, checkNames, hasObjectName, hr.nameObject?_eq]
  rfl

end Redraws

/-- **The outcome depends on the set of edges only.** However the edges of a valid graph are listed
and whatever ids they have, the same program is built with the same library and limit, or building
fails in the same way at the same node. -/
theorem build_redraws (hv : g.Valid) (hr : g.Redraws g' rename) (limit : Int) (lib : Library) :
    g'.build limit lib = g.build limit lib := by
  simp only [build, hr.assemble_eq hv, hr.namesAreTexts_eq, hr.linkFailure_eq]

/-- The sample with its edges listed backwards and under longer ids. -/
def reversedSample : Graph where
  nodes := sample.nodes
  edges := (sample.edges.map (Edge.renamed ("edge " ++ ·))).reverse
  nodup := sample.nodup

theorem redraws_sample : sample.Redraws reversedSample ("edge " ++ ·) where
  nodes := rfl
  edges := List.reverse_perm _
  injective _ _ _ _ heq := by simpa using heq

theorem build_redraws_sample :
    sample.Valid ∧ sample.Redraws reversedSample ("edge " ++ ·) ∧
      reversedSample.build 100 [] = sample.build 100 [] :=
  ⟨valid_sample, redraws_sample, build_redraws valid_sample redraws_sample 100 []⟩

end Graph

end Blockflow
