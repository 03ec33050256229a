import Blockflow.Proofs.Graph.Tidy

/-!
# Fragments that are loaded

The data of a loaded node are texts that do not start with a blank, whatever they have been loaded
from (`FieldValue.isTidy_itemText`). They may end with one, but only as an empty item at the end of
a list leaves a separator behind. A node whose texts do not end with a blank either can be drawn and
loaded again without a change (`Node.ofDrawn_toDrawn`), so the graph of a fragment has the nodes and
edges of the fragment (`Graph.exists_load_fragment`).
-/

namespace Blockflow

open Text

/-! ## Trimmed texts -/

def FieldValue.isTrimmed : FieldValue → Bool
  | .text s => stripEnd s.toList = s.toList
  | .object _ => true

/-- No text in the data ends with a blank. -/
def Node.Trimmed (n : Node) : Prop :=
  ∀ key s, (key, FieldValue.text s) ∈ n.data → stripEnd s.toList = s.toList

theorem Node.trimmed_iff {n : Node} :
    n.Trimmed ↔ ∀ entry ∈ n.data, entry.2.isTrimmed = true := by
  constructor
  · rintro h ⟨key, value⟩ hentry
    cases value with
    | text s => exact decide_eq_true (h key s hentry)
    | object members => rfl
  · intro h key s hentry
    exact of_decide_eq_true (h (key, .text s) hentry)

instance (n : Node) : Decidable n.Trimmed := decidable_of_iff _ Node.trimmed_iff.symm

theorem Text.IsTidy.trim_eq {s : String} (h : IsTidy s) (hend : stripEnd s.toList = s.toList) :
    trim s = s := by
  have hstart : stripStart s.toList = s.toList := dropWhile_eq_self h.head
  rw [trim, strip, hstart, hend, String.ofList_toList]

/-- A tidy text without separators has no blanks around it. -/
theorem Text.IsTidy.trim_eq_of_notMem {s : String} (h : IsTidy s) (hmark : ',' ∉ (trim s).toList) :
    trim s = s := by
  rw [trim, String.toList_ofList] at hmark
  have hlast := h.last.resolve_right fun hs => hmark (mem_strip hs (by decide))
  rw [trim, Stripped.strip_eq ⟨h.head, hlast⟩, String.ofList_toList]

/-- **A loaded node whose texts do not end with a blank is drawn and loaded again as it is.** -/
theorem Node.ofDrawn_toDrawn {d : DrawnNode} (h : (Node.ofDrawn d).Trimmed) :
    Node.ofDrawn (Node.ofDrawn d).toDrawn = Node.ofDrawn d := by
  have hdata : normalizeData ((Node.ofDrawn d).data.map fun entry => (entry.1, entry.2.toJson)) =
      (Node.ofDrawn d).data := by
    unfold normalizeData
    rw [List.filterMap_map]
    refine (List.filterMap_congr fun entry hentry => ?_).trans List.filterMap_some
    obtain ⟨value, -, hdisplay, hvalue⟩ := Node.exists_of_mem_data hentry
    obtain ⟨key, v⟩ := entry
    have hredrawn : v.redrawn = v := by
      rcases FieldValue.ofJson?_eq_some hvalue with ⟨s, rfl, htidy⟩ | ⟨members, rfl, -⟩
      · exact congrArg FieldValue.text (htidy.trim_eq (h key s hentry))
      · rfl
    simp only [Function.comp_apply, List.contains_eq_mem, hdisplay, decide_false,
      Bool.false_eq_true, if_false, FieldValue.ofJson?_toJson, hredrawn, Option.map_some]
  exact congrArg (fun data => Node.mk d.id d.type data d.position) hdata

theorem hasDeepList_toDrawn {d : DrawnNode} (h : hasDeepList d.data = false) :
    hasDeepList (Node.ofDrawn d).toDrawn.data = false := by
  unfold hasDeepList at h ⊢
  rw [List.any_eq_false] at h ⊢
  intro drawn hdrawn
  obtain ⟨⟨key, v⟩, hentry, rfl⟩ := List.mem_map.mp hdrawn
  obtain ⟨value, hmem, -, hvalue⟩ := Node.exists_of_mem_data hentry
  rcases FieldValue.ofJson?_eq_some hvalue with ⟨s, rfl, -⟩ | ⟨members, rfl, rfl⟩
  · simp [FieldValue.toJson, Json.listDepth]
  · exact h (key, .obj members) hmem

namespace Graph

variable {g : Graph} {root : String}

/-- All lists in the data of a valid graph can be read. -/
theorem Valid.exists_entries (hv : g.Valid) {n : Node} (hn : n ∈ g.nodes) (field : String) :
    ∃ items, n.list field = .ok items := by
  have htext : ∃ s, n.given field = .text s := by
    unfold Node.given
    cases hget : n.data.get? field with
    | none => exact ⟨"", rfl⟩
    | some value =>
      obtain ⟨s, rfl⟩ := hv.exists_text_of_get? hn hget
      exact ⟨s, rfl⟩
  obtain ⟨s, hs⟩ := htext
  exact ⟨Expression.splitList s, by rw [Node.list, hs]; rfl⟩

/-- Every definition of a valid graph can be cut out. -/
theorem Valid.exists_extract (hv : g.Valid) {n : Node} (hn : n ∈ g.nodes)
    (hdef : n.isDefinition = true) : ∃ f, g.extract n.id = .ok f := by
  obtain ⟨params, hparams⟩ := hv.exists_entries hn "params"
  unfold extract
  simp only [node?_of_mem hn]
  rw [if_pos (show n.block?.any BlockType.isDefinition = true from hdef), hparams]
  exact ⟨_, rfl⟩

theorem hasDeepList_of_load {d : Diagram} (h : Graph.load d = .ok g) {n : DrawnNode}
    (hn : n ∈ d.nodes) : hasDeepList n.data = false := by
  unfold load at h
  simp only at h
  split at h
  next => cases h
  next hdeep => simpa using List.any_eq_false.mp (Bool.eq_false_iff.mpr hdeep) n hn

theorem load_eq {d : Diagram} (hdeep : d.nodes.any (hasDeepList ·.data) = false)
    (hnodup : ((d.nodes.map Node.ofDrawn).map Node.id).Nodup) :
    Graph.load d = .ok ⟨d.nodes.map Node.ofDrawn, d.edges.map Edge.ofDrawn, hnodup⟩ := by
  unfold load
  simp only [hdeep, Bool.false_eq_true, if_false, dif_pos hnodup]

/-- **A fragment can be loaded, and its graph has the nodes and edges of the fragment.** -/
theorem exists_load_fragment {d : Diagram} {f : Fragment} (hload : Graph.load d = .ok g)
    (htrimmed : ∀ n ∈ g.nodes, n.Trimmed) (hextract : g.extract root = .ok f) :
    ∃ g', Graph.load f.diagram = .ok g' ∧ g'.nodes = f.nodes ∧ g'.edges = f.edges := by
  obtain ⟨-, -, -, -, -, -, hnodes, -⟩ := extract_eq_ok hextract
  have hdrawn : f.diagram.nodes.map Node.ofDrawn = f.nodes := by
    rw [Fragment.diagram, List.map_map]
    refine (List.map_congr_left fun n hn => ?_).trans (List.map_id _)
    rw [hnodes] at hn
    have hmem := (List.mem_filter.mp hn).1
    have htrim := htrimmed n hmem
    rw [(load_eq_ok hload).1] at hmem
    obtain ⟨n', -, rfl⟩ := List.mem_map.mp hmem
    exact Node.ofDrawn_toDrawn htrim
  have hdeep : f.diagram.nodes.any (hasDeepList ·.data) = false := by
    refine List.any_eq_false.mpr fun drawn hdrawn => ?_
    obtain ⟨n, hn, rfl⟩ := List.mem_map.mp hdrawn
    rw [hnodes] at hn
    have hmem := (List.mem_filter.mp hn).1
    rw [(load_eq_ok hload).1] at hmem
    obtain ⟨n', hn', rfl⟩ := List.mem_map.mp hmem
    rw [hasDeepList_toDrawn (hasDeepList_of_load hload hn')]
    decide
  have hnodup : ((f.diagram.nodes.map Node.ofDrawn).map Node.id).Nodup := by
    rw [hdrawn, hnodes]
    exact g.nodup.sublist (List.filter_sublist.map _)
  have hload' := load_eq hdeep hnodup
  exact ⟨_, hload', hdrawn, edges_of_load hload hextract hload'⟩

end Graph

end Blockflow
