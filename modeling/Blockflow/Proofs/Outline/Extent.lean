import Blockflow.Proofs.Graph.Restriction
import Blockflow.Proofs.Program.Fragment

/-!
# A definition cut out of its graph

The graph that is cut out at a definition (`Graph.CutOut`) has the nodes that belong to the
definition and all edges between them, except for the way on from the definition. If the whole graph
is valid and has been toured, no edge leads back to the definition from inside of it
(`CutOut.target_ne_root`). So what is cut out is valid, has the same back edges, and is entered at
the definition and nowhere else.
-/

namespace Blockflow

open Relation

namespace Graph

/-- A graph is cut out of another one at a definition. -/
structure CutOut (g g' : Graph) (root : String) : Prop where
  definition : ∃ n ∈ g.nodes, n.id = root ∧ n.isDefinition = true
  nodes : g'.nodes = g.nodes.filter ((g.extent root).contains ·.id)
  edges : g'.edges = (g.edgesWithin root).filter fun e =>
    (g.extent root).contains e.source && (g.extent root).contains e.target

/-- The node belongs to the definition at the root and is not the root. -/
def Inside (g : Graph) (root id : String) : Prop := id ∈ g.extent root ∧ id ≠ root

namespace CutOut

variable {g g' : Graph} {root : String} {limit : Int}

theorem root_mem_extent (g : Graph) (root : String) : root ∈ g.extent root :=
  mem_extent_iff.mpr .refl

/-- What belongs to a definition is closed under the edges, except for the way on from there. -/
theorem target_mem_extent (hv : g.Valid) {e : Edge} (he : e ∈ g.edges)
    (hs : e.source ∈ g.extent root) (hnext : ¬ (e.source = root ∧ e.role = some .next)) :
    e.target ∈ g.extent root := by
  rw [mem_extent_iff] at hs ⊢
  refine hs.tail ⟨e, List.mem_filter.mpr ⟨mem_edgesWithin.mpr ⟨he, hnext⟩, ?_⟩, rfl, rfl⟩
  exact hasNode_iff.mpr (hv.exists_target he)

variable (h : g.CutOut g' root)
include h

theorem mem_nodes {n : Node} : n ∈ g'.nodes ↔ n ∈ g.nodes ∧ n.id ∈ g.extent root := by
  rw [h.nodes, List.mem_filter, List.contains_iff_mem]

theorem mem_edges (hv : g.Valid) {e : Edge} :
    e ∈ g'.edges ↔ e ∈ g.edges ∧ e.source ∈ g.extent root ∧
      ¬ (e.source = root ∧ e.role = some .next) := by
  rw [h.edges, List.mem_filter, mem_edgesWithin, Bool.and_eq_true, List.contains_iff_mem,
    List.contains_iff_mem]
  constructor
  · rintro ⟨⟨he, hnext⟩, hs, -⟩
    exact ⟨he, hs, hnext⟩
  · rintro ⟨he, hs, hnext⟩
    exact ⟨⟨he, hnext⟩, hs, target_mem_extent hv he hs hnext⟩

theorem target_mem (hv : g.Valid) {e : Edge} (he : e ∈ g'.edges) : e.target ∈ g.extent root := by
  obtain ⟨he, hs, hnext⟩ := (h.mem_edges hv).mp he
  exact target_mem_extent hv he hs hnext

theorem hasNode_of_mem {id : String} (hmem : id ∈ g.extent root)
    (hid : ∃ n ∈ g.nodes, n.id = id) : g'.hasNode id = true := by
  obtain ⟨n, hn, rfl⟩ := hid
  exact hasNode_iff.mpr ⟨n, h.mem_nodes.mpr ⟨hn, hmem⟩, rfl⟩

theorem restricts (hv : g.Valid) : g'.Restricts g where
  nodes _ hn := (h.mem_nodes.mp hn).1
  edges := by
    rw [h.edges, edgesWithin]
    exact List.filter_sublist.trans List.filter_sublist
  ends e he := by
    obtain ⟨hmem, hs, -⟩ := (h.mem_edges hv).mp he
    exact ⟨h.hasNode_of_mem hs (hv.exists_source hmem),
      h.hasNode_of_mem (h.target_mem hv he) (hv.exists_target hmem)⟩

/-- **What is cut out of a valid graph is valid.** -/
theorem valid (hv : g.Valid) : g'.Valid := (h.restricts hv).valid hv

/-! ### Routes inside -/

/-- An edge that leaves the root leads into its body, unless it is the way on. -/
theorem isBodyOf (hv : g.Valid) {e : Edge} (he : e ∈ g'.edges) (hs : e.source = root) :
    g.IsBodyOf BlockType.isDefinition e := by
  obtain ⟨n, hn, hid, hdef⟩ := h.definition
  obtain ⟨hmem, -, hnext⟩ := (h.mem_edges hv).mp he
  exact hv.isBodyOf_definition hn hdef hmem (hs.trans hid.symm) fun hr => hnext ⟨hs, hr⟩

/-- **What belongs to the definition has a route from there that stays inside.** -/
theorem exists_route (hv : g.Valid) (ht : g.Toured limit) {id : String}
    (hid : id ∈ g.extent root) : ∃ r, g.Route root r id ∧ ∀ f ∈ r, f ∈ g'.edges := by
  rw [mem_extent_iff] at hid
  induction hid with
  | refl => exact ⟨[], rfl, by simp⟩
  | tail hpath hleads ih =>
    obtain ⟨e, he, rfl, rfl⟩ := hleads
    obtain ⟨r, hr, hin⟩ := ih
    obtain ⟨hwithin, -⟩ := List.mem_filter.mp he
    obtain ⟨hmem, hnext⟩ := mem_edgesWithin.mp hwithin
    have he' : e ∈ g'.edges := (h.mem_edges hv).mpr ⟨hmem, mem_extent_iff.mpr hpath, hnext⟩
    by_cases hback : e.id ∈ g.backEdges
    · have hbody : ∀ f, f = e ∨ f ∈ r → f.source = root → g.IsBodyOf BlockType.isDefinition f := by
        rintro f (rfl | hf) hs
        · exact h.isBodyOf hv he' hs
        · exact h.isBodyOf hv (hin f hf) hs
      obtain ⟨q, s, rfl, hq⟩ := ht.exists_route_of_backEdge hv hmem hback hr hbody
      exact ⟨q, hq, fun f hf => hin f (List.mem_append_left _ hf)⟩
    · refine ⟨r ++ [e], route_concat.mpr ⟨hr, ⟨hmem, hback⟩, rfl⟩, ?_⟩
      intro f hf
      rcases List.mem_append.mp hf with hf | hf
      · exact hin f hf
      · rwa [List.mem_singleton.mp hf]

/-- The root is no loop, so no back edge leads to it. -/
theorem isOpen_of_target (hv : g.Valid) {e : Edge} (he : e ∈ g.edges) (htarget : e.target = root) :
    g.IsOpen e := by
  refine ⟨he, fun hback => ?_⟩
  obtain ⟨f, hf, hid, n, hn, hloop, hft, -⟩ := mem_backEdges_iff.mp hback
  obtain rfl := hv.edge_eq hf he hid
  obtain ⟨m, hm, hmid, hdef⟩ := h.definition
  obtain rfl := List.inj_on_of_nodup_map g.nodup hn hm (hft.symm.trans (htarget.trans hmid.symm))
  unfold isLoop at hloop
  unfold Node.isDefinition at hdef
  cases hb : n.block? with
  | none => simp [hb] at hloop
  | some type => cases type <;> simp [hb, BlockType.isLoop, BlockType.isDefinition] at hloop hdef

/-- **No edge leads back to the root from what belongs to it.** -/
theorem target_ne_root (hv : g.Valid) (ht : g.Toured limit) {e : Edge} (he : e ∈ g.edges)
    (hs : e.source ∈ g.extent root) : e.target ≠ root := by
  intro htarget
  obtain ⟨n, hn, rfl, -⟩ := h.definition
  obtain ⟨r, hr, -⟩ := h.exists_route hv ht hs
  have hcycle : g.Route n.id (r ++ [e]) n.id :=
    route_concat.mpr ⟨hr, h.isOpen_of_target hv he htarget, htarget⟩
  exact absurd ((ht.forest hv).acyclic hn hcycle) (by simp)

theorem inside_target (hv : g.Valid) (ht : g.Toured limit) {e : Edge} (he : e ∈ g'.edges) :
    g.Inside root e.target := by
  obtain ⟨hmem, hs, -⟩ := (h.mem_edges hv).mp he
  exact ⟨h.target_mem hv he, h.target_ne_root hv ht hmem hs⟩

theorem mem_edges_of_inside (hv : g.Valid) {e : Edge} (he : e ∈ g.edges)
    (hs : g.Inside root e.source) : e ∈ g'.edges :=
  (h.mem_edges hv).mpr ⟨he, hs.1, fun hroot => hs.2 hroot.1⟩

/-! ### Back edges and entry points -/

/-- The edges that leave what belongs to the definition are the same, except for the way on. -/
theorem edgeFor_eq (hv : g.Valid) {id : String} (hid : id ∈ g.extent root) {role : Role}
    (hnext : ¬ (id = root ∧ role = .next)) : g'.edgeFor id role = g.edgeFor id role := by
  refine (h.restricts hv).edgeFor_eq hv fun e hedge => ?_
  obtain ⟨he, rfl, hr⟩ := mem_of_edgeFor hedge
  refine (h.mem_edges hv).mpr ⟨he, hid, ?_⟩
  rintro ⟨hs, hrole⟩
  exact hnext ⟨hs, Option.some.inj (hr.symm.trans hrole)⟩

/-- What is reached from inside without coming through a loop is inside, and reached there. -/
theorem leads_inside (hv : g.Valid) (ht : g.Toured limit) {loop a b : String}
    (hpath : ReflTransGen (Leads (g.edgesBeside loop)) a b) (ha : g.Inside root a) :
    g.Inside root b ∧ ReflTransGen (Leads (g'.edgesBeside loop)) a b := by
  induction hpath with
  | refl => exact ⟨ha, .refl⟩
  | tail _ hleads ih =>
    obtain ⟨e, he, rfl, rfl⟩ := hleads
    obtain ⟨hmem, hbeside⟩ := List.mem_filter.mp he
    have he' := h.mem_edges_of_inside hv hmem ih.1
    exact ⟨h.inside_target hv ht he',
      ih.2.tail ⟨e, List.mem_filter.mpr ⟨he', hbeside⟩, rfl, rfl⟩⟩

theorem mem_loopBody_iff (hv : g.Valid) (ht : g.Toured limit) {loop id : String}
    (hloop : g.Inside root loop) : id ∈ g'.loopBody loop ↔ id ∈ g.loopBody loop := by
  rw [Graph.mem_loopBody_iff, Graph.mem_loopBody_iff,
    h.edgeFor_eq hv hloop.1 fun hroot => hloop.2 hroot.1]
  constructor
  · rintro ⟨e, he, hne, hpath⟩
    exact ⟨e, he, hne, (h.restricts hv).leads_beside hpath⟩
  · rintro ⟨e, he, hne, hpath⟩
    obtain ⟨hmem, hs, -⟩ := mem_of_edgeFor he
    have he' := h.mem_edges_of_inside hv hmem (hs ▸ hloop)
    exact ⟨e, he, hne, (h.leads_inside hv ht hpath (h.inside_target hv ht he')).2⟩

/-- **An edge that is cut out is a back edge exactly if it was one.** -/
theorem mem_backEdges_iff (hv : g.Valid) (ht : g.Toured limit) {e : Edge} (he : e ∈ g'.edges) :
    e.id ∈ g'.backEdges ↔ e.id ∈ g.backEdges := by
  refine (h.restricts hv).mem_backEdges_iff hv he fun n _ _ htarget => ?_
  exact h.mem_loopBody_iff hv ht (htarget ▸ h.inside_target hv ht he)

theorem isOpen_iff (hv : g.Valid) (ht : g.Toured limit) {e : Edge} (he : e ∈ g'.edges) :
    g'.IsOpen e ↔ g.IsOpen e := by
  unfold IsOpen
  rw [h.mem_backEdges_iff hv ht he]
  exact and_congr_left fun _ => iff_of_true he ((h.mem_edges hv).mp he).1

/-- A route along edges that are cut out is a route there. -/
theorem route (hv : g.Valid) (ht : g.Toured limit) {b : String} : ∀ {r : List Edge} {a : String},
    g.Route a r b → (∀ f ∈ r, f ∈ g'.edges) → g'.Route a r b
  | [], _, hr, _ => hr
  | e :: r, a, hr, hin => by
    obtain ⟨hopen, hs, hr⟩ := route_cons.mp hr
    exact ⟨(h.isOpen_iff hv ht (hin e List.mem_cons_self)).mpr hopen, hs,
      route hv ht hr fun f hf => hin f (List.mem_cons_of_mem _ hf)⟩

/-- **Control enters at the root and nowhere else.** -/
theorem entryPoints_eq (hv : g.Valid) (ht : g.Toured limit) : g'.entryPoints = [root] := by
  have hmem : ∀ id, id ∈ g'.entryPoints ↔ id ∈ [root] := by
    intro id
    rw [mem_entryPoints_iff, List.mem_singleton]
    constructor
    · rintro ⟨⟨n, hn, rfl⟩, hentry⟩
      obtain ⟨r, hr, hin⟩ := h.exists_route hv ht (h.mem_nodes.mp hn).2
      -- the last edge of the route from the root would lead to an entry point
      rcases List.eq_nil_or_concat r with rfl | ⟨q, e, rfl⟩
      · exact (route_nil.mp hr).symm
      · rw [List.concat_eq_append] at hr hin
        obtain ⟨-, hopen, htarget⟩ := route_concat.mp hr
        have he : e ∈ g'.edges := hin e (by simp)
        exact absurd htarget (hentry e ((h.isOpen_iff hv ht he).mpr hopen))
    · rintro rfl
      obtain ⟨n, hn, hid, -⟩ := h.definition
      refine ⟨⟨n, h.mem_nodes.mpr ⟨hn, hid ▸ root_mem_extent g n.id⟩, hid⟩, fun e hopen => ?_⟩
      exact (h.inside_target hv ht hopen.1).2
  have hnd : g'.entryPoints.Nodup := List.Nodup.sublist List.filter_sublist g'.nodup
  exact List.perm_singleton.mp
    ((List.perm_ext_iff_of_nodup hnd (List.nodup_singleton root)).mpr hmem)

end CutOut

end Graph

end Blockflow
