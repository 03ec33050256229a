import Blockflow.Graph.Fragment
import Blockflow.Proofs.Json.Distinct
import Blockflow.Proofs.Program.Acceptance

/-!
# Fragments as graphs

A fragment holds a definition and all that can be reached from it, but not the way on from the
definition. As a graph of its own it is rooted at the definition (`Graph.Rooted`). If such a graph
can be put together, control enters it at its root (`Graph.Rooted.mem_entryPoints`): no back edge
leads out of a definition, so every node has a route from the root. The definition at the root is
therefore taken out under its name (`Graph.Rooted.mem_names`).
-/

namespace Blockflow

open Relation

/-! ## Loading what has been loaded -/

theorem Edge.isEmpty_id_ofDrawn (d : DrawnEdge) : (Edge.ofDrawn d).id.isEmpty = false := by
  rw [String.isEmpty_eq_false_iff]
  unfold ofDrawn
  simp only
  split
  next => simp [String.append_eq_empty_iff]
  next h => simpa using h

theorem Edge.ofDrawn_of_id {d : DrawnEdge} (h : d.id.isEmpty = false) :
    Edge.ofDrawn d =
      { id := d.id, source := d.source, target := d.target, handle := d.sourceHandle
        role := (Role.parse d.sourceHandle).toOption } := by
  simp [ofDrawn, h]

/-- An edge of a graph that is drawn and loaded again is the same edge. -/
theorem Edge.ofDrawn_toDrawn (d : DrawnEdge) :
    Edge.ofDrawn (Edge.ofDrawn d).toDrawn = Edge.ofDrawn d :=
  Edge.ofDrawn_of_id (Edge.isEmpty_id_ofDrawn d)

/-- A field value that is drawn and loaded again: a text loses the blanks around it. -/
def FieldValue.redrawn : FieldValue → FieldValue
  | .text s => .text (Text.trim s)
  | .object members => .object members

theorem FieldValue.ofJson?_toJson (v : FieldValue) : ofJson? v.toJson = some v.redrawn := by
  cases v <;> rfl

theorem Node.get?_redrawn (n : Node) {key : String} (hkey : key ∉ displayKeys) :
    (Node.ofDrawn n.toDrawn).data.get? key = (n.data.get? key).map FieldValue.redrawn := by
  show Dict.get? key (normalizeData (n.data.map fun entry => (entry.1, entry.2.toJson))) = _
  induction n.data with
  | nil => rfl
  | cons entry rest ih =>
    obtain ⟨k, v⟩ := entry
    unfold normalizeData at ih ⊢
    by_cases hdisplay : k ∈ displayKeys
    · -- what is for display is dropped, and has another key
      have hk : k ≠ key := fun heq => hkey (heq ▸ hdisplay)
      rw [List.map_cons, List.filterMap_cons_none (by simp [hdisplay]), ih, Dict.get?, if_neg hk]
    · rw [List.map_cons, List.filterMap_cons_some (b := (k, v.redrawn))
        (by simp [hdisplay, FieldValue.ofJson?_toJson]), Dict.get?, Dict.get?, ih]
      split <;> rfl

/-- Normalised data keep their keys and have none that is for display. -/
theorem key_of_normalized {key : String} {value : Json} {kept : String × FieldValue}
    (h : (if displayKeys.contains key then none else (FieldValue.ofJson? value).map (key, ·)) =
      some kept) : kept.1 = key ∧ key ∉ displayKeys := by
  split at h
  next => cases h
  next hdisplay =>
    obtain ⟨v, -, rfl⟩ := Option.map_eq_some_iff.mp h
    exact ⟨rfl, by simpa using hdisplay⟩

theorem Node.notMem_displayKeys {d : DrawnNode} {entry : String × FieldValue}
    (h : entry ∈ (Node.ofDrawn d).data) : entry.1 ∉ displayKeys := by
  obtain ⟨⟨key, value⟩, -, hentry⟩ := List.mem_filterMap.mp h
  obtain ⟨hkey, hdisplay⟩ := key_of_normalized hentry
  rwa [hkey]

theorem Dict.keys_filterMap_sublist {α β : Type} {f : String × α → Option (String × β)}
    (h : ∀ entry kept, f entry = some kept → kept.1 = entry.1) :
    ∀ d : Dict α, (Dict.keys (d.filterMap f)).Sublist d.keys
  | [] => .slnil
  | entry :: rest => by
    have ih := keys_filterMap_sublist h rest
    cases hentry : f entry with
    | none =>
      rw [List.filterMap_cons_none hentry]
      exact ih.cons _
    | some kept =>
      rw [List.filterMap_cons_some hentry]
      show (kept.1 :: _).Sublist (entry.1 :: _)
      rw [h entry kept hentry]
      exact ih.cons_cons _

theorem Node.keys_sublist (d : DrawnNode) : (Node.ofDrawn d).data.keys.Sublist d.data.keys :=
  Dict.keys_filterMap_sublist (fun _ _ hentry => (key_of_normalized hentry).1) d.data

namespace Graph

variable {g : Graph} {limit : Int} {root : String}

/-- All that is given in the data of a valid graph are texts. -/
theorem Valid.exists_text_of_get? (hv : g.Valid) {n : Node} (hn : n ∈ g.nodes) {key : String}
    {value : FieldValue} (h : n.data.get? key = some value) : ∃ s, value = .text s := by
  obtain ⟨type, hb⟩ := hv.exists_block hn
  have hfields := List.flatMap_eq_nil_iff.mp hv.parts.2.2.2 n hn
  unfold nodeFieldIssues at hfields
  rw [hb] at hfields
  have hforeign := (List.append_eq_nil_iff.mp (List.map_eq_nil_iff.mp hfields)).1
  have hkey : key ∈ type.fields.map FieldSpec.name := by
    have hnot := List.filter_eq_nil_iff.mp (List.map_eq_nil_iff.mp hforeign) key
      (List.mem_map.mpr ⟨_, Dict.mem_of_get? h, rfl⟩)
    simpa using hnot
  obtain ⟨spec, hspec, rfl⟩ := List.mem_map.mp hkey
  have hcause := hv.fieldCause_none hn hb hspec
  rw [fieldCause?, h] at hcause
  cases value with
  | text s => exact ⟨s, rfl⟩
  | object => cases hcause

/-! ## Routes from a definition -/

/-- An edge that leaves a definition and is not the way on leads into its body. -/
theorem Valid.isBodyOf_definition (hv : g.Valid) {n : Node} (hn : n ∈ g.nodes)
    (hdef : n.isDefinition = true) {e : Edge} (he : e ∈ g.edges) (hs : e.source = n.id)
    (hnext : e.role ≠ some .next) : g.IsBodyOf BlockType.isDefinition e := by
  obtain ⟨m, hm, role, hrole, hms, hr, -⟩ := hv.exists_exit he
  obtain rfl := List.inj_on_of_nodup_map g.nodup hm hn (hms.symm.trans hs)
  obtain ⟨type, hb, htype⟩ := Node.isDefinition_iff.mp hdef
  rw [isBodyOf_definition_iff hm hb hms hr hrole]
  exact ⟨fun hrole => hnext (hrole ▸ hr), htype⟩

/-- A route that leads into a definition and ends with a back edge comes back to itself: the loop is
not around the definition, as no loop goes on inside of one. -/
theorem Toured.exists_route_of_backEdge (ht : g.Toured limit) (hv : g.Valid) {e : Edge}
    (he : e ∈ g.edges) (hback : e.id ∈ g.backEdges) {r : List Edge} (hr : g.Route root r e.source)
    (hbody : ∀ f, f = e ∨ f ∈ r → f.source = root → g.IsBodyOf BlockType.isDefinition f) :
    ∃ q s, r = q ++ s ∧ g.Route root q e.target := by
  obtain ⟨hnotBody, first, rest, hroute, -, hdefs⟩ := ht.exists_body_route hv he hback
  rcases (ht.forest hv).route_suffix hr hroute with ⟨q, heq, hq⟩ | ⟨q, heq, -⟩
  · exact ⟨q, _, heq, hq⟩
  · cases r with
    | nil => exact absurd (hbody e (Or.inl rfl) (route_nil.mp hr).symm) hnotBody
    | cons f r =>
      refine absurd (hbody f (Or.inr List.mem_cons_self) (route_cons.mp hr).2.1) (hdefs f ?_)
      rw [heq]
      exact List.mem_append_right _ List.mem_cons_self

/-! ## Graphs with a root -/

/-- A graph that is cut out at a definition: everything is reached from there, and no way leads on
from there. -/
structure Rooted (g : Graph) (root : String) : Prop where
  definition : ∃ n ∈ g.nodes, n.id = root ∧ n.isDefinition = true
  closed : ∀ e ∈ g.edges, e.source = root → e.role ≠ some .next
  reached : ∀ n ∈ g.nodes, ReflTransGen (Leads g.edges) root n.id

namespace Rooted

/-- An edge that leaves the root leads into its body. -/
theorem isBodyOf (h : g.Rooted root) (hv : g.Valid) {e : Edge} (he : e ∈ g.edges)
    (hs : e.source = root) : g.IsBodyOf BlockType.isDefinition e := by
  obtain ⟨n, hn, hid, hdef⟩ := h.definition
  exact hv.isBodyOf_definition hn hdef he (hs.trans hid.symm) (h.closed e he hs)

/-- **What is reached from the root has a route from there.** -/
theorem exists_route (h : g.Rooted root) (hv : g.Valid) (ht : g.Toured limit) {id : String}
    (hpath : ReflTransGen (Leads g.edges) root id) : ∃ r, g.Route root r id := by
  induction hpath with
  | refl => exact ⟨[], rfl⟩
  | tail _ hleads ih =>
    obtain ⟨e, he, rfl, rfl⟩ := hleads
    obtain ⟨r, hr⟩ := ih
    by_cases hback : e.id ∈ g.backEdges
    · have hbody : ∀ f, f = e ∨ f ∈ r → f.source = root → g.IsBodyOf BlockType.isDefinition f := by
        rintro f (rfl | hf) hs
        · exact h.isBodyOf hv he hs
        · exact h.isBodyOf hv (hr.isOpen hf).1 hs
      obtain ⟨q, -, -, hq⟩ := ht.exists_route_of_backEdge hv he hback hr hbody
      exact ⟨q, hq⟩
    · exact ⟨r ++ [e], route_concat.mpr ⟨hr, ⟨he, hback⟩, rfl⟩⟩

theorem mem_entryPoints (h : g.Rooted root) (hv : g.Valid) (ht : g.Toured limit) :
    root ∈ g.entryPoints := by
  obtain ⟨n, hn, rfl, -⟩ := h.definition
  refine mem_entryPoints_iff.mpr ⟨⟨n, hn, rfl⟩, fun e hopen htarget => ?_⟩
  obtain ⟨m, hm, hms⟩ := hv.exists_source hopen.1
  obtain ⟨r, hr⟩ := h.exists_route hv ht (h.reached m hm)
  rw [hms] at hr
  have hcycle : g.Route n.id (r ++ [e]) n.id := route_concat.mpr ⟨hr, hopen, htarget⟩
  exact absurd ((ht.forest hv).acyclic hn hcycle) (by simp)

/-- The definition at the root is taken out under its name. -/
theorem mem_names (h : g.Rooted root) (hv : g.Valid) {main : Block} {a : Assembly}
    (hassemble : g.assemble limit = .ok (main, a)) {n : Node} (hn : n ∈ g.nodes) (hid : n.id = root)
    {type : BlockType} (hb : n.block? = some type) (htype : type.isDefinition = true) :
    n.definedName ∈ a.names type := by
  have ht := toured_of_assemble hassemble
  obtain ⟨hmain, -⟩ := assemble_eq_ok.mp hassemble
  obtain ⟨v, hvis, rfl⟩ := ht.exists_visit hn
  have hplace : v.place = {} := by
    obtain ⟨start, -, r, hr, hplace⟩ := ht.standsAt hv v hvis
    rw [hid] at hr
    rw [hplace, hr.eq_nil_of_entry (h.mem_entryPoints hv ht)]
    rfl
  rw [(Assembly.mainBlock_names htype hmain).1.mem_iff]
  refine List.mem_append_right _ (List.mem_map.mpr ⟨v, List.mem_filter.mpr ⟨hvis, ?_⟩, rfl⟩)
  simp [Visit.defines, hb, hplace]

end Rooted

/-! ## Fragments that are loaded -/

theorem load_eq_ok {d : Diagram} (h : Graph.load d = .ok g) :
    g.nodes = d.nodes.map Node.ofDrawn ∧ g.edges = d.edges.map Edge.ofDrawn := by
  unfold load at h
  simp only at h
  split at h
  next => cases h
  next =>
    split at h
    next =>
      cases h
      exact ⟨rfl, rfl⟩
    next => cases h

theorem extract_eq_ok {f : Fragment} (h : g.extract root = .ok f) :
    ∃ n ∈ g.nodes, n.id = root ∧ n.isDefinition = true ∧ f.root = root ∧
      f.name = (n.data.get? "name").getD (.text "") ∧
      f.nodes = g.nodes.filter ((g.extent root).contains ·.id) ∧
      f.edges = (g.edgesWithin root).filter fun e =>
        (g.extent root).contains e.source && (g.extent root).contains e.target := by
  unfold extract at h
  simp only at h
  split at h
  next => cases h
  next n hn =>
    split at h
    next hdef =>
      obtain ⟨params, -, h⟩ := bind_eq_ok.mp h
      cases h
      exact ⟨n, mem_of_node? hn, id_of_node? hn, hdef, rfl, rfl, rfl, rfl⟩
    next => cases h

theorem mem_edgesWithin {e : Edge} :
    e ∈ g.edgesWithin root ↔ e ∈ g.edges ∧ ¬ (e.source = root ∧ e.role = some .next) := by
  rw [edgesWithin, List.mem_filter]
  simp only [Bool.not_eq_true', Bool.and_eq_false_iff, decide_eq_false_iff_not, not_and_or]

theorem mem_extent_iff {id : String} :
    id ∈ g.extent root ↔
      ReflTransGen (Leads ((g.edgesWithin root).filter (g.hasNode ·.target))) root id := by
  rw [extent, mem_search_nil_iff]
  simp

/-- What belongs to a definition is reached along the edges of its fragment. -/
theorem leads_of_mem_extent {f : Fragment} (h : g.extract root = .ok f) {id : String}
    (hid : id ∈ g.extent root) : ReflTransGen (Leads f.edges) root id := by
  obtain ⟨-, -, -, -, -, -, -, hedges⟩ := extract_eq_ok h
  rw [mem_extent_iff] at hid
  induction hid with
  | refl => exact .refl
  | tail hpath hleads ih =>
    obtain ⟨e, he, rfl, rfl⟩ := hleads
    refine .tail ih ⟨e, ?_, rfl, rfl⟩
    -- both ends of the edge belong to the definition
    have hsource := mem_extent_iff.mpr hpath
    have htarget := mem_extent_iff.mpr (hpath.tail ⟨e, he, rfl, rfl⟩)
    rw [hedges]
    exact List.mem_filter.mpr ⟨(List.mem_filter.mp he).1, by simp [hsource, htarget]⟩

/-- The edges of a fragment are those of its graph. -/
theorem edges_of_load {d : Diagram} {f : Fragment} {g' : Graph} (hload : Graph.load d = .ok g)
    (hextract : g.extract root = .ok f) (hload' : Graph.load f.diagram = .ok g') :
    g'.edges = f.edges := by
  obtain ⟨-, -, -, -, -, -, -, hedges⟩ := extract_eq_ok hextract
  rw [(load_eq_ok hload').2, Fragment.diagram, List.map_map]
  refine (List.map_congr_left fun e he => ?_).trans (List.map_id _)
  have hmem : e ∈ g.edges := by
    rw [hedges] at he
    exact (List.mem_filter.mp (List.mem_filter.mp he).1).1
  rw [(load_eq_ok hload).2] at hmem
  obtain ⟨d', -, rfl⟩ := List.mem_map.mp hmem
  exact Edge.ofDrawn_toDrawn d'

/-- **The graph of a fragment is rooted at its definition.** -/
theorem rooted_of_load {d : Diagram} {f : Fragment} {g' : Graph} (hload : Graph.load d = .ok g)
    (hextract : g.extract root = .ok f) (hload' : Graph.load f.diagram = .ok g') :
    g'.Rooted root := by
  have hedges' := edges_of_load hload hextract hload'
  have hnodes' := (load_eq_ok hload').1
  rw [Fragment.diagram, List.map_map] at hnodes'
  obtain ⟨n, hn, hid, hdef, -, -, hnodes, hedges⟩ := extract_eq_ok hextract
  refine ⟨⟨Node.ofDrawn n.toDrawn, ?_, hid, hdef⟩, ?_, ?_⟩
  · rw [hnodes', hnodes]
    refine List.mem_map.mpr ⟨n, List.mem_filter.mpr ⟨hn, ?_⟩, rfl⟩
    rw [hid]
    simpa using mem_extent_iff.mpr .refl
  · intro e he hs
    rw [hedges', hedges] at he
    have hwithin := (List.mem_filter.mp (List.mem_filter.mp he).1).2
    simpa [hs] using hwithin
  · intro m' hm'
    rw [hnodes', hnodes] at hm'
    obtain ⟨m, hm, rfl⟩ := List.mem_map.mp hm'
    rw [hedges']
    show ReflTransGen (Leads f.edges) root m.id
    exact leads_of_mem_extent hextract (by simpa using (List.mem_filter.mp hm).2)

/-- If the graph of a fragment is valid, the data of the fragment are texts. -/
theorem exists_str_of_load {d : Diagram} {f : Fragment} {g' : Graph} (hload : Graph.load d = .ok g)
    (hextract : g.extract root = .ok f) (hload' : Graph.load f.diagram = .ok g') (hv : g'.Valid)
    (hkeys : ∀ n ∈ d.nodes, n.data.keys.Nodup) {n : DrawnNode} (hn : n ∈ f.diagram.nodes)
    {entry : String × Json} (hentry : entry ∈ n.data) : ∃ s, entry.2 = .str s := by
  have hn' : Node.ofDrawn n ∈ g'.nodes := by
    rw [(load_eq_ok hload').1]
    exact List.mem_map_of_mem hn
  obtain ⟨m, hm, rfl⟩ := List.mem_map.mp hn
  obtain ⟨⟨key, value⟩, hvalue, rfl⟩ := List.mem_map.mp hentry
  obtain ⟨-, -, -, -, -, -, hnodes, -⟩ := extract_eq_ok hextract
  have hmem : m ∈ g.nodes := by
    rw [hnodes] at hm
    exact (List.mem_filter.mp hm).1
  rw [(load_eq_ok hload).1] at hmem
  obtain ⟨d', hd', rfl⟩ := List.mem_map.mp hmem
  have hget := Dict.get?_of_mem ((Node.keys_sublist d').nodup (hkeys d' hd')) hvalue
  have hredrawn := Node.get?_redrawn (Node.ofDrawn d') (Node.notMem_displayKeys hvalue)
  rw [hget] at hredrawn
  obtain ⟨s, hs⟩ := hv.exists_text_of_get? hn' hredrawn
  cases value with
  | text s => exact ⟨s, rfl⟩
  | object => cases hs

/-- The root of the graph of a fragment has the name of the fragment without the blanks around
it. -/
theorem definedName_of_load {f : Fragment} {g' : Graph} (hextract : g.extract root = .ok f)
    (hload' : Graph.load f.diagram = .ok g') {name : String} (hname : f.name = .text name)
    {n : Node}
    (hn : n ∈ g'.nodes) (hid : n.id = root) :
    n.definedName = Text.trim name := by
  obtain ⟨m, hm, hmid, -, -, hfname, hnodes, -⟩ := extract_eq_ok hextract
  have hnodes' := (load_eq_ok hload').1
  rw [Fragment.diagram, List.map_map, hnodes] at hnodes'
  rw [hnodes'] at hn
  obtain ⟨m', hm', rfl⟩ := List.mem_map.mp hn
  obtain rfl := List.inj_on_of_nodup_map g.nodup hm (List.mem_filter.mp hm').1 (hmid.trans hid.symm)
  rw [Node.definedName, Node.given, Function.comp, Node.get?_redrawn m (by decide)]
  rw [hname] at hfname
  cases hget : m.data.get? "name" with
  | none =>
    rw [hget] at hfname
    cases hfname
    rfl
  | some value =>
    rw [hget] at hfname
    cases hfname
    rfl

end Graph

end Blockflow
