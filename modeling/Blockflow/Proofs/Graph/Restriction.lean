import Blockflow.Proofs.Graph.Closing

/-!
# Graphs inside of graphs

A graph may have some of the nodes and some of the edges of another one, where no edge has lost an
end (`Graph.Restricts`). It is valid if the other one is (`Graph.Restricts.valid`). What it keeps is
found in it as before: the nodes, the edges that leave a node in a role, and the back edges, as long
as the bodies of the loops are the same.
-/

namespace Blockflow

open Relation

theorem mapM_eq_ok_of_forall {ε α β : Type} {f : α → Except ε β} {b : β} :
    ∀ {as : List α}, (∀ a ∈ as, f a = .ok b) → as.mapM f = .ok (as.map fun _ => b)
  | [], _ => rfl
  | a :: as, h => by
    rw [List.mapM_cons, h a List.mem_cons_self,
      mapM_eq_ok_of_forall fun c hc => h c (List.mem_cons_of_mem _ hc)]
    rfl

namespace Graph

/-- A graph has nodes and edges of another one, and both ends of its edges. -/
structure Restricts (g' g : Graph) : Prop where
  nodes : g'.nodes ⊆ g.nodes
  edges : g'.edges.Sublist g.edges
  ends : ∀ e ∈ g'.edges, g'.hasNode e.source = true ∧ g'.hasNode e.target = true

namespace Restricts

variable {g g' : Graph} (h : g'.Restricts g)
include h

theorem mem_edges {e : Edge} (he : e ∈ g'.edges) : e ∈ g.edges := h.edges.subset he

/-- A node that is an end of an edge that is kept is kept. -/
theorem mem_of_hasNode {n : Node} (hn : n ∈ g.nodes) (hid : g'.hasNode n.id = true) :
    n ∈ g'.nodes := by
  obtain ⟨m, hm, hmid⟩ := hasNode_iff.mp hid
  rwa [← List.inj_on_of_nodup_map g.nodup (h.nodes hm) hn hmid]

/-! ## Validity -/

theorem exitEdges_sublist (hv : g.Valid) (n : Node) :
    (g'.exitEdges n).Sublist (g.exitEdges n) := by
  have hedges : (g'.outgoing n.id).Sublist (g.outgoing n.id) := h.edges.filter _
  have hsame : g'.exitEdges n = (g'.outgoing n.id).filterMap fun e =>
      if g.hasNode e.target then e.role.map (e, ·) else none := by
    refine List.filterMap_congr fun e he => ?_
    have he := (List.mem_filter.mp he).1
    rw [(h.ends e he).2, hasNode_iff.mpr (hv.exists_target (h.mem_edges he))]
  rw [hsame]
  exact hedges.filterMap _

theorem nodeRoleIssues_eq (hv : g.Valid) {n : Node} (hn : n ∈ g'.nodes) :
    g'.nodeRoleIssues n = .ok [] := by
  have hn := h.nodes hn
  obtain ⟨type, hb⟩ := hv.exists_block hn
  obtain ⟨allowed, hallowed, hforeign, hshared⟩ := hv.role_issues hn hb
  have hsub := h.exitEdges_sublist hv n
  have hforeign' : g'.foreignExitIssues n allowed = [] := by
    rw [foreignExitIssues, List.map_eq_nil_iff] at hforeign ⊢
    have hfilter := hsub.filter fun x => !(allowed.map RoleSpec.role).contains x.2
    rw [show (g.exitEdges n).filter (fun x => !(allowed.map RoleSpec.role).contains x.2) = []
      from hforeign] at hfilter
    exact List.sublist_nil.mp hfilter
  have hshared' : g'.sharedExitIssues n = [] := by
    have hnd : ((g.exitEdges n).map (·.2)).Nodup :=
      nodup_of_no_repeats (List.map_eq_nil_iff.mp hshared)
    have hnd' : ((g'.exitEdges n).map (·.2)).Nodup := hnd.sublist (hsub.map _)
    rw [sharedExitIssues, List.map_eq_nil_iff, List.filter_eq_nil_iff]
    intro role _
    have := List.nodup_iff_count_le_one.mp hnd' role
    simpa using this
  unfold nodeRoleIssues
  rw [hb]
  refine bind_eq_ok.mpr ⟨allowed, hallowed, ?_⟩
  rw [hforeign', hshared']
  rfl

/-- **A graph inside of a valid graph is valid.** -/
theorem valid (hv : g.Valid) : g'.Valid := by
  obtain ⟨htypes, -, -, hfields⟩ := hv.parts
  have htypes' : g'.typeIssues = [] := by
    rw [typeIssues, List.map_eq_nil_iff, List.filter_eq_nil_iff] at htypes ⊢
    exact fun n hn => htypes n (h.nodes hn)
  have hids : g'.edgeIdIssues = [] := by
    have hnd : (g'.edges.map Edge.id).Nodup := hv.edgeIds_nodup.sublist (h.edges.map _)
    rw [edgeIdIssues, List.map_eq_nil_iff, List.filter_eq_nil_iff]
    intro id _
    have := List.nodup_iff_count_le_one.mp hnd id
    simpa using this
  have hedges' : g'.edgeIssues = [] := by
    rw [edgeIssues, hids, List.nil_append, List.flatMap_eq_nil_iff]
    intro e he
    obtain ⟨role, hrole⟩ := hv.exists_role (h.mem_edges he)
    rw [endIssues, if_pos (h.ends e he).1, endIssues, if_pos (h.ends e he).2, handleIssues, hrole]
    rfl
  have hroles' : g'.roleIssues = .ok [] := by
    rw [roleIssues, mapM_eq_ok_of_forall fun n hn => h.nodeRoleIssues_eq hv hn]
    exact congrArg Except.ok (List.flatten_eq_nil_iff.mpr (by simp))
  have hfields' : g'.fieldIssues = [] := by
    rw [fieldIssues, List.flatMap_eq_nil_iff] at hfields ⊢
    exact fun n hn => hfields n (h.nodes hn)
  unfold Valid validate
  rw [hroles', htypes', hedges', hfields']
  rfl

/-! ## What is found in the graph -/

theorem node?_eq {id : String} (hkept : ∀ n ∈ g.nodes, n.id = id → n ∈ g'.nodes) :
    g'.node? id = g.node? id := by
  cases hn : g.node? id with
  | some n =>
    have hid : n.id = id := by simpa using List.find?_some hn
    rw [← hid]
    exact node?_of_mem (hkept n (List.mem_of_find?_eq_some hn) hid)
  | none =>
    exact List.find?_eq_none.mpr fun n hn' => List.find?_eq_none.mp hn n (h.nodes hn')

theorem edgeFor_eq (hv : g.Valid) {id : String} {role : Role}
    (hkept : ∀ e, g.edgeFor id role = some e → e ∈ g'.edges) :
    g'.edgeFor id role = g.edgeFor id role := by
  cases hedge : g.edgeFor id role with
  | some e =>
    obtain ⟨-, rfl, hr⟩ := mem_of_edgeFor hedge
    exact (h.valid hv).edgeFor_eq (hkept e hedge) hr
  | none =>
    cases hedge' : g'.edgeFor id role with
    | none => rfl
    | some e =>
      obtain ⟨he, rfl, hr⟩ := mem_of_edgeFor hedge'
      rw [hv.edgeFor_eq (h.mem_edges he) hr] at hedge
      cases hedge

/-- What is reached without coming through a loop was reached before. -/
theorem leads_beside {loop a b : String} (hpath : ReflTransGen (Leads (g'.edgesBeside loop)) a b) :
    ReflTransGen (Leads (g.edgesBeside loop)) a b := by
  refine ReflTransGen.mono ?_ _ _ hpath
  rintro a b ⟨e, he, rfl, rfl⟩
  obtain ⟨he, hbeside⟩ := List.mem_filter.mp he
  exact ⟨e, List.mem_filter.mpr ⟨h.mem_edges he, hbeside⟩, rfl, rfl⟩

/-- **An edge that is kept is a back edge exactly if it was one**, if the loop that it leads to has
the same body as before. -/
theorem mem_backEdges_iff (hv : g.Valid) {e : Edge} (he : e ∈ g'.edges)
    (hbody : ∀ n ∈ g'.nodes, isLoop n = true → e.target = n.id →
      (e.source ∈ g'.loopBody n.id ↔ e.source ∈ g.loopBody n.id)) :
    e.id ∈ g'.backEdges ↔ e.id ∈ g.backEdges := by
  rw [Graph.mem_backEdges_iff, Graph.mem_backEdges_iff]
  constructor
  · rintro ⟨f, hf, hid, n, hn, hloop, htarget, hs⟩
    obtain rfl := (h.valid hv).edge_eq hf he hid
    exact ⟨f, h.mem_edges hf, rfl, n, h.nodes hn, hloop, htarget,
      (hbody n hn hloop htarget).mp hs⟩
  · rintro ⟨f, hf, hid, n, hn, hloop, htarget, hs⟩
    obtain rfl := hv.edge_eq hf (h.mem_edges he) hid
    have hn' : n ∈ g'.nodes := h.mem_of_hasNode hn (htarget ▸ (h.ends f he).2)
    exact ⟨f, he, rfl, n, hn', hloop, htarget, (hbody n hn' hloop htarget).mpr hs⟩

end Restricts

end Graph

end Blockflow
