import Blockflow.Proofs.Outline.Nested

/-!
# A graph without the body of a function

The body of a definition is what is reached through its body exit along edges that are no back edges
(`Graph.bodyNodes`). In a graph that has been toured no edge leads out of the body of a function,
and only the body exit leads into it. So a graph keeps its back edges and its entry points when the
body is taken away (`Graph.emptied`), and its outline stays the same except for the chain of that
body (`Graph.HasFunction.outline_emptied`).
-/

namespace Blockflow

open Relation

/-! ## Outlines without a chain -/

namespace Outline

mutual

/-- The outline with nothing behind the exits of a node. -/
def emptied (root : String) : Outline → Outline
  | .step n slots next =>
    .step n (if n.id = root then slots.map fun slot => (slot.1, .done) else emptiedSlots root slots)
      (next.emptied root)
  | .done => .done
  | .fault node kind => .fault node kind
  | .missing id => .missing id

def emptiedSlots (root : String) : List (Role × Outline) → List (Role × Outline)
  | [] => []
  | (role, o) :: rest => (role, o.emptied root) :: emptiedSlots root rest

end

variable {root : String}

/-- At the root, every exit is emptied. -/
theorem emptied_step_self {n : Node} (hn : n.id = root) (slots : List (Role × Outline))
    (next : Outline) :
    (Outline.step n slots next).emptied root =
      .step n (slots.map fun slot => (slot.1, .done)) (next.emptied root) := by
  rw [emptied, if_pos hn]

/-- At another node, the exits are emptied from the inside. -/
theorem emptied_step_of_ne {n : Node} (hn : n.id ≠ root) (slots : List (Role × Outline))
    (next : Outline) :
    (Outline.step n slots next).emptied root =
      .step n (emptiedSlots root slots) (next.emptied root) := by
  rw [emptied, if_neg hn]

theorem map_fst_emptiedSlots (root : String) : ∀ (slots : List (Role × Outline)),
    (emptiedSlots root slots).map Prod.fst = slots.map Prod.fst
  | [] => rfl
  | (role, o) :: rest => by
    rw [emptiedSlots, List.map_cons, List.map_cons, map_fst_emptiedSlots root rest]

theorem slotIds_map_done : ∀ (slots : List (Role × Outline)),
    slotIds (slots.map fun slot => (slot.1, .done)) = []
  | [] => rfl
  | (role, o) :: rest => by
    rw [List.map_cons, slotIds_cons, ids_done, slotIds_map_done rest]
    rfl

mutual

/-- What is left of an outline has its nodes. -/
theorem ids_emptied_sublist (root : String) : ∀ (o : Outline), (o.emptied root).ids.Sublist o.ids
  | .done => .refl _
  | .fault _ _ => .refl _
  | .missing _ => .refl _
  | .step n slots next => by
    by_cases hn : n.id = root
    · rw [emptied_step_self hn, ids_step, ids_step, slotIds_map_done]
      exact ((List.nil_sublist _).append (ids_emptied_sublist root next)).cons_cons _
    · rw [emptied_step_of_ne hn, ids_step, ids_step]
      have hslots := slotIds_emptied_sublist root slots
      exact (hslots.append (ids_emptied_sublist root next)).cons_cons _

/-- Emptying exits leaves out nodes and adds none. -/
theorem slotIds_emptied_sublist (root : String) : ∀ (slots : List (Role × Outline)),
    (slotIds (emptiedSlots root slots)).Sublist (slotIds slots)
  | [] => .refl _
  | (role, o) :: rest => by
    rw [emptiedSlots, slotIds_cons, slotIds_cons]
    exact (ids_emptied_sublist root o).append (slotIds_emptied_sublist root rest)

end

theorem flatMap_ids_emptied_sublist (root : String) : ∀ (os : List Outline),
    ((os.map (emptied root)).flatMap ids).Sublist (os.flatMap ids)
  | [] => .refl _
  | o :: os => by
    rw [List.map_cons, List.flatMap_cons, List.flatMap_cons]
    exact (ids_emptied_sublist root o).append (flatMap_ids_emptied_sublist root os)

end Outline

/-! ## Tours without a body -/

namespace Tour

variable {t t' : Tour} {root : String} {outside : String → Prop}

/-- One tour misses the body of a function and agrees with another one on the other nodes. -/
structure Empties (t' t : Tour) (root : String) (outside : String → Prop) : Prop where
  limit : t'.limit = t.limit
  node : ∀ id, outside id → t'.graph.node? id = t.graph.node? id
  exits : ∀ id, outside id → ∀ role, ¬ (id = root ∧ role = .body) → t'.AgreesAt t outside id role
  body : t'.graph.edgeFor root .body = none
  function : ∀ n, t.graph.node? root = some n → n.block? = some .function

namespace Empties

/-- Behind the exit of the function there is nothing to see. -/
theorem seesSlots_root (h : t'.Empties t root outside) {n : Node} (hn : n.id = root)
    (hb : n.block? = some .function) (p : Place) {slots : List (Role × Outline)}
    (hroles : slots.map Prod.fst = n.slotRoles) :
    t'.SeesSlots p n (slots.map fun slot => (slot.1, .done)) := by
  have hrole : n.slotRoles = [.body] := by rw [Node.slotRoles, hb]; rfl
  have hrequires : n.requires .body = false := by
    rw [← Bool.not_eq_true, Node.requires_iff, hb]
    simp
  have htarget : t'.target p n .body = none := by
    rw [target, hn, h.body]
    rfl
  rw [hrole] at hroles
  obtain ⟨⟨role, o⟩, rest, rfl, rfl, hrest⟩ := List.map_eq_cons_iff.mp hroles
  obtain rfl := List.map_eq_nil_iff.mp hrest
  simp only [List.map_cons, List.map_nil, SeesSlots, Sees, htarget, and_true]
  exact ⟨fun _ => hrequires, fun hsome => by rw [htarget] at hsome; cases hsome⟩

mutual

/-- **A tour without the body sees the same, except for the body.** -/
theorem sees (h : t'.Empties t root outside) : ∀ {o : Outline} {p : Place} {start : Option String},
    t.Sees p start o → (∀ id, start = some id → outside id) → t'.Sees p start (o.emptied root)
  | .done, _, none, _, _ => by simp [Outline.emptied, Sees]
  | .done, _, some _, hs, _ => by simp [Sees] at hs
  | .fault _ _, _, _, hs, _ => by simp [Sees] at hs
  | .missing _, _, _, hs, _ => by simp [Sees] at hs
  | .step n slots next, _, none, hs, _ => by simp [Sees] at hs
  | .step n slots next, p, some start, hs, hstart => by
    rw [Sees] at hs
    obtain ⟨hn, hroles, hslots, hnext⟩ := hs
    have hout := hstart start rfl
    have hid := Graph.id_of_node? hn
    have hexit : t'.AgreesAt t outside n.id .next := by
      rw [hid]
      exact h.exits start hout .next (by simp)
    have hnext' : t'.Sees p (t'.target p n .next) (next.emptied root) := by
      rw [hexit.target_eq rfl]
      exact h.sees hnext fun id hid => hexit.inside_of_target hid
    by_cases hroot : n.id = root
    · have hb := h.function n (by rw [← hroot, hid]; exact hn)
      rw [Outline.emptied_step_self hroot, Sees, List.map_map]
      exact ⟨(h.node start hout).trans hn, hroles, h.seesSlots_root hroot hb p hroles, hnext'⟩
    · rw [Outline.emptied_step_of_ne hroot, Sees, Outline.map_fst_emptiedSlots]
      exact ⟨(h.node start hout).trans hn, hroles,
        h.seesSlots hslots hroot (hid ▸ hout) fun role hrole =>
          Node.ne_next_of_mem_slotRoles (hroles ▸ hrole), hnext'⟩

/-- The same behind the exits of a node. -/
theorem seesSlots (h : t'.Empties t root outside) : ∀ {slots : List (Role × Outline)} {p : Place}
    {n : Node}, t.SeesSlots p n slots → n.id ≠ root → outside n.id →
      (∀ role ∈ slots.map Prod.fst, role ≠ .next) →
      t'.SeesSlots p n (Outline.emptiedSlots root slots)
  | [], _, _, _, _, _, _ => by simp [Outline.emptiedSlots, SeesSlots]
  | (role, o) :: rest, p, n, hs, hroot, hout, hne => by
    rw [SeesSlots] at hs
    obtain ⟨hadmits, hhere, hrest⟩ := hs
    have hexit := h.exits n.id hout role fun heq => hroot heq.1
    rw [Outline.emptiedSlots, SeesSlots]
    refine ⟨hexit.admits h.limit rfl (Nat.le_refl _) hadmits, ?_, ?_⟩
    · rw [hexit.target_eq rfl]
      exact h.sees hhere fun id hid => hexit.inside_of_target hid
    · exact h.seesSlots hrest hroot hout fun role' hrole' =>
        hne role' (List.mem_cons_of_mem _ hrole')

end

end Empties

/-- Walks that come to no node twice see what there is to see, one after the other. -/
theorem WalksFrom.eq_of_sees {placed placed' starts : List String} {os os' : List Outline}
    (h : t.WalksFrom placed starts os' placed')
    (hs : List.Forall₂ (fun start o => t.Sees {} (some start) o) starts os)
    (hfresh : ∀ id ∈ os.flatMap Outline.ids, id ∉ placed)
    (hnd : (os.flatMap Outline.ids).Nodup) : os' = os := by
  induction h generalizing os with
  | nil =>
    cases hs
    rfl
  | @cons placed start o' placed₁ rest os' placed₂ hwalk _ ih =>
    cases hs with
    | @cons _ o _ os hsees hrest =>
      rw [List.flatMap_cons] at hfresh hnd
      obtain ⟨hndHere, hndRest, hdisjoint⟩ := List.nodup_append.mp hnd
      have hhere := hwalk.eq_of_sees hsees
        (fun id hid => ⟨List.not_mem_nil, hfresh id (List.mem_append_left _ hid)⟩) hndHere
      have hrestEq := ih hrest (fun id hid => by
        have hplaced := hfresh id (List.mem_append_right _ hid)
        have hnot : id ∉ o.ids := fun hmem => hdisjoint id hmem id hid rfl
        rw [hwalk.placed_eq, hhere]
        simp [hplaced, hnot]) hndRest
      rw [hhere, hrestEq]

end Tour

/-! ## The body of a definition -/

namespace Graph

variable {g : Graph} {root : String} {limit : Int}

/-- The edges that are no back edges. -/
def openEdges (g : Graph) : List Edge := g.edges.filter (!g.backEdges.contains ·.id)

/-- The nodes of the body of a definition: what is reached through its body exit along edges that
are no back edges. -/
def bodyNodes (g : Graph) (root : String) : List String :=
  match g.edgeFor root .body with
  | none => []
  | some e => search g.openEdges [] [e.target]

/-- The graph without the nodes of a body, and without the edges that lead there or come from
there. -/
def emptied (g : Graph) (root : String) : Graph where
  nodes := g.nodes.filter (!(g.bodyNodes root).contains ·.id)
  edges := g.edges.filter fun e =>
    !(g.bodyNodes root).contains e.source && !(g.bodyNodes root).contains e.target
  nodup := g.nodup.sublist (List.filter_sublist.map _)

theorem mem_openEdges_iff {e : Edge} : e ∈ g.openEdges ↔ g.IsOpen e := by
  rw [openEdges, List.mem_filter, IsOpen]
  simp

/-- What is reached along edges that are no back edges has a route. -/
theorem exists_route_iff {a b : String} :
    (∃ r, g.Route a r b) ↔ ReflTransGen (Leads g.openEdges) a b := by
  constructor
  · rintro ⟨r, hr⟩
    induction r generalizing a with
    | nil => rw [route_nil.mp hr]
    | cons e r ih =>
      obtain ⟨hopen, hs, hr⟩ := route_cons.mp hr
      exact (ih hr).head ⟨e, mem_openEdges_iff.mpr hopen, hs, rfl⟩
  · intro hpath
    induction hpath with
    | refl => exact ⟨[], rfl⟩
    | tail _ hleads ih =>
      obtain ⟨e, he, rfl, rfl⟩ := hleads
      obtain ⟨r, hr⟩ := ih
      exact ⟨r ++ [e], route_concat.mpr ⟨hr, mem_openEdges_iff.mp he, rfl⟩⟩

/-- The nodes of a body are those on routes from its exit. -/
theorem mem_bodyNodes_iff {id : String} :
    id ∈ g.bodyNodes root ↔ ∃ e, g.edgeFor root .body = some e ∧ ∃ r, g.Route e.target r id := by
  unfold bodyNodes
  cases he : g.edgeFor root .body with
  | none => simp
  | some e => simp [mem_search_nil_iff, exists_route_iff]

/-- The graph of a definition and what belongs to it. -/
def cutOutAt (g : Graph) (root : String) : Graph where
  nodes := g.nodes.filter ((g.extent root).contains ·.id)
  edges := (g.edgesWithin root).filter fun e =>
    (g.extent root).contains e.source && (g.extent root).contains e.target
  nodup := g.nodup.sublist (List.filter_sublist.map _)

/-- A function of a valid graph that has been toured. -/
structure HasFunction (g : Graph) (root : String) (limit : Int) : Prop where
  valid : g.Valid
  toured : g.Toured limit
  function : ∃ n ∈ g.nodes, n.id = root ∧ n.block? = some .function

namespace HasFunction

variable (h : g.HasFunction root limit)
include h

/-- The definition with its extent is cut out of the graph. -/
theorem cutOut : g.CutOut (g.cutOutAt root) root where
  definition := by
    obtain ⟨n, hn, hid, hb⟩ := h.function
    exact ⟨n, hn, hid, Node.isDefinition_iff.mpr ⟨_, hb, rfl⟩⟩
  nodes := rfl
  edges := rfl

/-- The body exit leads inside. -/
theorem inside_of_body {e : Edge} (he : e ∈ g.edges) (hs : e.source = root)
    (hr : e.role = some .body) : g.Inside root e.target := by
  refine h.cutOut.inside_target h.valid h.toured ((h.cutOut.mem_edges h.valid).mpr ⟨he, ?_, ?_⟩)
  · rw [hs]
    exact CutOut.root_mem_extent g root
  · rintro ⟨-, hnext⟩
    cases hr.symm.trans hnext

/-- **No edge leads out of a body.** -/
theorem inside_target {e : Edge} (he : e ∈ g.edges) (hs : g.Inside root e.source) :
    g.Inside root e.target :=
  h.cutOut.inside_target h.valid h.toured (h.cutOut.mem_edges_of_inside h.valid he hs)

/-- A route that starts inside the body stays inside. -/
theorem inside_of_route {a b : String} {r : List Edge} (hr : g.Route a r b)
    (ha : g.Inside root a) : g.Inside root b := by
  induction r generalizing a with
  | nil => exact route_nil.mp hr ▸ ha
  | cons e r ih =>
    obtain ⟨hopen, rfl, hrest⟩ := route_cons.mp hr
    exact ih hrest (h.inside_target hopen.1 ha)

/-- The way from the definition to what is inside leads through the body exit. -/
theorem exists_body_route {id : String} (hid : g.Inside root id) :
    ∃ e r, e ∈ g.edges ∧ e.source = root ∧ e.role = some .body ∧ g.Route root (e :: r) id := by
  obtain ⟨r, hr, hin⟩ := h.cutOut.exists_route h.valid h.toured hid.1
  cases r with
  | nil => exact absurd (route_nil.mp hr).symm hid.2
  | cons e r =>
    obtain ⟨hopen, hs, -⟩ := route_cons.mp hr
    have hbody := h.cutOut.isBodyOf h.valid (hin e List.mem_cons_self) hs
    exact ⟨e, r, hopen.1, hs, hbody.1, hr⟩

/-- **Only the body exit leads into a body.** -/
theorem inside_source {e : Edge} (he : e ∈ g.edges) (ht : g.Inside root e.target) :
    g.Inside root e.source ∨ e.source = root ∧ e.role = some .body := by
  by_cases hback : e.id ∈ g.backEdges
  · -- a back edge comes from the body of the loop that it leads to
    obtain ⟨-, first, rest, hroute, -⟩ := h.toured.exists_body_route h.valid he hback
    exact Or.inl (h.inside_of_route hroute ht)
  · obtain ⟨f, r, hf, hs, hr, hroute⟩ := h.exists_body_route ht
    rcases List.eq_nil_or_concat r with rfl | ⟨q, e', rfl⟩
    · obtain ⟨hopen, -, htarget⟩ := route_cons.mp hroute
      obtain rfl := (h.toured.forest h.valid).unique f e hopen ⟨he, hback⟩ (route_nil.mp htarget)
      exact Or.inr ⟨hs, hr⟩
    · rw [List.concat_eq_append, ← List.cons_append] at hroute
      obtain ⟨hq, hopen, htarget⟩ := route_concat.mp hroute
      obtain rfl := (h.toured.forest h.valid).unique e' e hopen ⟨he, hback⟩ htarget
      obtain ⟨-, -, hq⟩ := route_cons.mp hq
      exact Or.inl (h.inside_of_route hq (h.inside_of_body hf hs hr))

/-- **The nodes of the body are those that belong to the definition.** -/
theorem mem_bodyNodes_iff {id : String} : id ∈ g.bodyNodes root ↔ g.Inside root id := by
  rw [Graph.mem_bodyNodes_iff]
  constructor
  · rintro ⟨e, hedge, r, hr⟩
    obtain ⟨he, hs, hrole⟩ := mem_of_edgeFor hedge
    exact h.inside_of_route hr (h.inside_of_body he hs hrole)
  · intro hid
    obtain ⟨e, r, he, rfl, hrole, hroute⟩ := h.exists_body_route hid
    exact ⟨e, h.valid.edgeFor_eq he hrole, r, (route_cons.mp hroute).2.2⟩

/-! ## The graph without the body -/

/-- The emptied graph has the nodes outside of the body. -/
theorem mem_nodes_iff {n : Node} :
    n ∈ (g.emptied root).nodes ↔ n ∈ g.nodes ∧ ¬ g.Inside root n.id := by
  rw [emptied, List.mem_filter, ← h.mem_bodyNodes_iff]
  simp

/-- The emptied graph has the edges that do not lead into the body. -/
theorem mem_edges_iff {e : Edge} :
    e ∈ (g.emptied root).edges ↔ e ∈ g.edges ∧ ¬ g.Inside root e.target := by
  rw [emptied, List.mem_filter, Bool.and_eq_true, Bool.not_eq_true', Bool.not_eq_true',
    ← Bool.not_eq_true, ← Bool.not_eq_true, List.contains_iff_mem, List.contains_iff_mem,
    h.mem_bodyNodes_iff, h.mem_bodyNodes_iff]
  refine and_congr_right fun he => and_iff_right_of_imp fun ht hs => ht (h.inside_target he hs)

theorem hasNode_emptied {id : String} (hid : ∃ n ∈ g.nodes, n.id = id)
    (hout : ¬ g.Inside root id) : (g.emptied root).hasNode id = true := by
  obtain ⟨n, hn, rfl⟩ := hid
  exact hasNode_iff.mpr ⟨n, h.mem_nodes_iff.mpr ⟨hn, hout⟩, rfl⟩

/-- The emptied graph is a part of the graph. -/
theorem restricts : (g.emptied root).Restricts g where
  nodes _ hn := (h.mem_nodes_iff.mp hn).1
  edges := List.filter_sublist
  ends e he := by
    obtain ⟨he, ht⟩ := h.mem_edges_iff.mp he
    exact ⟨h.hasNode_emptied (h.valid.exists_source he) fun hs => ht (h.inside_target he hs),
      h.hasNode_emptied (h.valid.exists_target he) ht⟩

/-- The emptied graph is valid. -/
theorem emptied_valid : (g.emptied root).Valid := h.restricts.valid h.valid

/-- An edge that leaves a node outside of the body is kept, unless it is the body exit. -/
theorem mem_edges_of_source {e : Edge} (he : e ∈ g.edges) (hs : ¬ g.Inside root e.source)
    (hbody : ¬ (e.source = root ∧ e.role = some .body)) : e ∈ (g.emptied root).edges :=
  h.mem_edges_iff.mpr ⟨he, fun ht => (h.inside_source he ht).elim hs hbody⟩

/-- Outside of the body, the exits lead where they led. -/
theorem edgeFor_emptied {id : String} (hid : ¬ g.Inside root id) {role : Role}
    (hbody : ¬ (id = root ∧ role = .body)) :
    (g.emptied root).edgeFor id role = g.edgeFor id role := by
  refine h.restricts.edgeFor_eq h.valid fun e hedge => ?_
  obtain ⟨he, rfl, hr⟩ := mem_of_edgeFor hedge
  refine h.mem_edges_of_source he hid fun hroot => hbody ⟨hroot.1, ?_⟩
  exact Option.some.inj (hr.symm.trans hroot.2)

/-- The body exit of the function is gone. -/
theorem edgeFor_body : (g.emptied root).edgeFor root .body = none := by
  cases hedge : (g.emptied root).edgeFor root .body with
  | none => rfl
  | some e =>
    obtain ⟨he, hs, hr⟩ := mem_of_edgeFor hedge
    obtain ⟨he, hout⟩ := h.mem_edges_iff.mp he
    exact absurd (h.inside_of_body he hs hr) hout

/-- What is reached outside of the body is reached without it. -/
theorem leads_outside {loop a b : String}
    (hpath : ReflTransGen (Leads (g.edgesBeside loop)) a b) (hb : ¬ g.Inside root b) :
    ReflTransGen (Leads ((g.emptied root).edgesBeside loop)) a b := by
  induction hpath with
  | refl => exact .refl
  | tail _ hleads ih =>
    obtain ⟨e, he, rfl, rfl⟩ := hleads
    obtain ⟨he, hbeside⟩ := List.mem_filter.mp he
    have he' : e ∈ (g.emptied root).edges := h.mem_edges_iff.mpr ⟨he, hb⟩
    exact (ih fun hs => hb (h.inside_target he hs)).tail
      ⟨e, List.mem_filter.mpr ⟨he', hbeside⟩, rfl, rfl⟩

/-- The loops outside have the same nodes outside in their bodies. -/
theorem mem_loopBody_iff {n : Node} (hn : n ∈ (g.emptied root).nodes) (hloop : isLoop n = true)
    {id : String} (hid : ¬ g.Inside root id) :
    id ∈ (g.emptied root).loopBody n.id ↔ id ∈ g.loopBody n.id := by
  obtain ⟨hn, hout⟩ := h.mem_nodes_iff.mp hn
  have hroot : n.id ≠ root := by
    intro heq
    obtain ⟨m, hm, hmid, hb⟩ := h.function
    obtain rfl := List.inj_on_of_nodup_map g.nodup hn hm (heq.trans hmid.symm)
    simp [isLoop, hb, BlockType.isLoop] at hloop
  rw [Graph.mem_loopBody_iff, Graph.mem_loopBody_iff,
    h.edgeFor_emptied hout fun heq => hroot heq.1]
  constructor
  · rintro ⟨e, he, hne, hpath⟩
    exact ⟨e, he, hne, h.restricts.leads_beside hpath⟩
  · rintro ⟨e, he, hne, hpath⟩
    exact ⟨e, he, hne, h.leads_outside hpath hid⟩

/-- **An edge that is kept is a back edge exactly if it was one.** -/
theorem mem_backEdges_iff {e : Edge} (he : e ∈ (g.emptied root).edges) :
    e.id ∈ (g.emptied root).backEdges ↔ e.id ∈ g.backEdges := by
  refine h.restricts.mem_backEdges_iff h.valid he fun n hn hloop _ => ?_
  obtain ⟨he, ht⟩ := h.mem_edges_iff.mp he
  exact h.mem_loopBody_iff hn hloop fun hs => ht (h.inside_target he hs)

/-- The edges that are followed in the emptied graph are those that were followed and do not lead
inside. -/
theorem isOpen_emptied_iff {e : Edge} :
    (g.emptied root).IsOpen e ↔ g.IsOpen e ∧ ¬ g.Inside root e.target := by
  unfold IsOpen
  constructor
  · rintro ⟨he, hopen⟩
    obtain ⟨hmem, hout⟩ := h.mem_edges_iff.mp he
    exact ⟨⟨hmem, (h.mem_backEdges_iff he).not.mp hopen⟩, hout⟩
  · rintro ⟨⟨hmem, hopen⟩, hout⟩
    have he := h.mem_edges_iff.mpr ⟨hmem, hout⟩
    exact ⟨he, (h.mem_backEdges_iff he).not.mpr hopen⟩

/-- A route that ends outside of the body does without it. -/
theorem route_emptied {b : String} (hb : ¬ g.Inside root b) : ∀ {r : List Edge} {a : String},
    g.Route a r b → (g.emptied root).Route a r b
  | [], _, hr => hr
  | e :: r, _, hr => by
    obtain ⟨hopen, hs, hr⟩ := route_cons.mp hr
    have hout : ¬ g.Inside root e.target := fun ht => hb (h.inside_of_route hr ht)
    exact ⟨h.isOpen_emptied_iff.mpr ⟨hopen, hout⟩, hs, route_emptied hb hr⟩

/-- Control enters outside of the body. -/
theorem not_inside_of_entry {start : String} (hstart : start ∈ g.entryPoints) :
    ¬ g.Inside root start := by
  intro hin
  obtain ⟨e, r, -, -, -, hroute⟩ := h.exists_body_route hin
  cases hroute.eq_nil_of_entry hstart

/-- **Control enters at the same nodes, in the same order.** -/
theorem entryPoints_emptied : (g.emptied root).entryPoints = g.entryPoints := by
  have hids : (g.emptied root).ids = g.ids.filter (!(g.bodyNodes root).contains ·) := by
    rw [ids, emptied, ids, List.filter_map]
    rfl
  have hentry : ∀ {g : Graph} {id : String}, id ∈ g.ids →
      (((g.incoming id).all fun e => g.backEdges.contains e.id) = true ↔ id ∈ g.entryPoints) := by
    intro g id hid
    rw [entryPoints, List.mem_filter, and_iff_right hid]
  -- both lists are filtered from the same one, so it is enough to compare the conditions
  rw [entryPoints, entryPoints, hids, List.filter_filter]
  refine List.filter_congr fun id hid => ?_
  rw [Bool.eq_iff_iff, Bool.and_eq_true, hentry hid]
  constructor
  · rintro ⟨hall, hout⟩
    have hmem : id ∈ (g.emptied root).ids := hids ▸ List.mem_filter.mpr ⟨hid, hout⟩
    obtain ⟨⟨n, hn, rfl⟩, hno⟩ := mem_entryPoints_iff.mp ((hentry hmem).mp hall)
    obtain ⟨hn, hout⟩ := h.mem_nodes_iff.mp hn
    refine mem_entryPoints_iff.mpr ⟨⟨n, hn, rfl⟩, fun e hopen heq => ?_⟩
    exact hno e (h.isOpen_emptied_iff.mpr ⟨hopen, heq ▸ hout⟩) heq
  · intro hstart
    have hout := h.not_inside_of_entry hstart
    have hkept : (!(g.bodyNodes root).contains id) = true := by
      rw [← h.mem_bodyNodes_iff] at hout
      simpa using hout
    have hmem : id ∈ (g.emptied root).ids := hids ▸ List.mem_filter.mpr ⟨hid, hkept⟩
    refine ⟨(hentry hmem).mpr (mem_entryPoints_iff.mpr ⟨?_, fun e hopen => ?_⟩), hkept⟩
    · obtain ⟨n, hn, rfl⟩ := List.mem_map.mp hmem
      exact ⟨n, hn, rfl⟩
    · exact (mem_entryPoints_iff.mp hstart).2 e (h.isOpen_emptied_iff.mp hopen).1

/-! ## The outline without the body -/

/-- The tour of the emptied graph misses the body and nothing else. -/
theorem empties : ((g.emptied root).tour limit).Empties (g.tour limit) root
    (fun id => ¬ g.Inside root id) where
  limit := rfl
  node _ hid := h.restricts.node?_eq fun _ hn heq => h.mem_nodes_iff.mpr ⟨hn, heq ▸ hid⟩
  exits id hid role hbody := by
    have hedge := h.edgeFor_emptied hid hbody
    refine ⟨hedge, fun e he => ?_, fun e he => ?_⟩
    · exact h.mem_backEdges_iff (mem_of_edgeFor (hedge.trans he)).1
    · exact (h.mem_edges_iff.mp (mem_of_edgeFor (hedge.trans he)).1).2
  body := h.edgeFor_body
  function n hn := by
    obtain ⟨m, hm, hid, hb⟩ := h.function
    rwa [List.inj_on_of_nodup_map g.nodup (mem_of_node? hn) hm ((id_of_node? hn).trans hid.symm)]

/-- The emptied graph shows the outline with the body left out. -/
theorem sees_emptied :
    List.Forall₂ (fun start o => ((g.emptied root).tour limit).Sees {} (some start) o)
      (g.emptied root).entryPoints ((g.outline limit).1.map (Outline.emptied root)) := by
  have hstarts : ∀ start ∈ g.entryPoints, ¬ g.Inside root start := fun _ => h.not_inside_of_entry
  have hsees := h.toured.sees
  rw [h.entryPoints_emptied]
  generalize g.entryPoints = starts at hstarts hsees
  generalize (g.outline limit).1 = os at hsees
  induction hsees with
  | nil => exact .nil
  | cons hs _ ih =>
    refine .cons (h.empties.sees hs ?_) (ih fun start hstart => hstarts start ?_)
    · rintro id hid
      cases hid
      exact hstarts _ List.mem_cons_self
    · exact List.mem_cons_of_mem _ hstart

/-- **The outline is the same except for the body.** -/
theorem outline_emptied :
    ((g.emptied root).outline limit).1 = (g.outline limit).1.map (Outline.emptied root) := by
  have hnd := g.outlineIds_nodup limit
  refine ((g.emptied root).outline_walksFrom limit).eq_of_sees h.sees_emptied (by simp) ?_
  exact hnd.sublist (Outline.flatMap_ids_emptied_sublist root _)

/-- Every node that is kept has its place. -/
theorem complete_emptied : ((g.emptied root).outlineIds limit).Perm (g.emptied root).ids := by
  refine outlineIds_perm_iff.mpr fun id hid => ?_
  obtain ⟨n, hn, rfl⟩ := List.mem_map.mp hid
  obtain ⟨hn, hout⟩ := h.mem_nodes_iff.mp hn
  obtain ⟨start, hstart, r, hr⟩ := (h.toured.forest h.valid).reached n hn
  rw [← h.entryPoints_emptied] at hstart
  obtain ⟨o, ho, hs⟩ := forall₂_exists_left h.sees_emptied.flip hstart
  obtain ⟨w, hw, hwid⟩ := exists_visit_of_sees h.emptied_valid hs (h.route_emptied hout hr)
  rw [outlineIds, h.outline_emptied]
  exact List.mem_flatMap.mpr ⟨o, ho, (Outline.mem_ids_iff {}).mpr ⟨w, hw, hwid⟩⟩

end HasFunction

end Graph

end Blockflow
