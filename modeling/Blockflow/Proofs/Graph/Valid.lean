import Blockflow.Graph.Validity
import Blockflow.Proofs.Outline.Visit

/-!
# What a graph without issues is like

The check of a graph lists what is wrong with it. Here it is said what an empty list means for the
walk: every node is of a known kind and its fields are texts, edges have ids and ends of their own,
and an edge is the only one that leaves its source in its role, through an exit that the source has.
-/

namespace Blockflow

/-! ## Computations that end well -/

/-- Two computations end well one after the other if the first does and the second does on its
result. -/
theorem bind_eq_ok {ε α β : Type} {x : Except ε α} {f : α → Except ε β} {b : β} :
    x >>= f = .ok b ↔ ∃ a, x = .ok a ∧ f a = .ok b := by
  cases x with
  | error e =>
    constructor
    · intro h; cases h
    · rintro ⟨a, h, -⟩; cases h
  | ok a =>
    constructor
    · intro h; exact ⟨a, rfl, h⟩
    · rintro ⟨a', h, hf⟩; cases h; exact hf

/-- A result that is checked by computing it. -/
theorem exists_ok_of_any {ε α : Type} {x : Except ε α} {check : α → Bool}
    (h : x.toOption.any check = true) : ∃ a, x = .ok a ∧ check a = true := by
  cases x with
  | ok a => exact ⟨a, rfl, h⟩
  | error e => cases h

/-- If all end well, each has its result in the list. -/
theorem mapM_eq_ok_mem {ε α β : Type} {f : α → Except ε β} :
    ∀ {l : List α} {r : List β}, l.mapM f = .ok r → ∀ a ∈ l, ∃ b ∈ r, f a = .ok b
  | [], _, _, _, ha => absurd ha List.not_mem_nil
  | x :: rest, r, h, a, ha => by
    rw [List.mapM_cons] at h
    obtain ⟨b, hb, h⟩ := bind_eq_ok.mp h
    obtain ⟨bs, hbs, h⟩ := bind_eq_ok.mp h
    cases h
    rcases List.mem_cons.mp ha with rfl | ha
    · exact ⟨b, List.mem_cons_self, hb⟩
    · obtain ⟨b', hb', hf⟩ := mapM_eq_ok_mem hbs a ha
      exact ⟨b', List.mem_cons_of_mem _ hb', hf⟩

/-- Each result in the list is that of one of them. -/
theorem exists_mem_of_mapM_eq_ok {ε α β : Type} {f : α → Except ε β} :
    ∀ {l : List α} {r : List β}, l.mapM f = .ok r → ∀ b ∈ r, ∃ a ∈ l, f a = .ok b
  | [], r, h, b, hb => by
    cases h
    exact absurd hb List.not_mem_nil
  | a :: rest, r, h, b, hb => by
    rw [List.mapM_cons] at h
    obtain ⟨first, hfirst, h⟩ := bind_eq_ok.mp h
    obtain ⟨more, hmore, h⟩ := bind_eq_ok.mp h
    cases h
    rcases List.mem_cons.mp hb with rfl | hb
    · exact ⟨a, List.mem_cons_self, hfirst⟩
    · obtain ⟨a', ha', hf⟩ := exists_mem_of_mapM_eq_ok hmore b hb
      exact ⟨a', List.mem_cons_of_mem _ ha', hf⟩

/-- A list of which nothing is reported as repeated has no repetitions. -/
theorem nodup_of_no_repeats {α : Type} [BEq α] [LawfulBEq α] {l : List α}
    (h : l.eraseDups.filter (1 < l.count ·) = []) : l.Nodup := by
  refine List.nodup_iff_count_le_one.mpr fun a => ?_
  by_cases ha : a ∈ l
  · have := List.filter_eq_nil_iff.mp h a (List.mem_eraseDups.mpr ha)
    simpa using this
  · rw [List.count_eq_zero_of_not_mem ha]
    omega

/-- The exits of a block lead into a nested block or on. -/
theorem BlockType.role_mem_exits {type : BlockType} {cases : List String} {role : Role}
    (h : role ∈ (type.exits cases).map RoleSpec.role) :
    role ∈ type.slotRoles cases ++ [.next] := by
  cases type with
  | switch =>
    rw [exits, List.map_append] at h
    rcases List.mem_append.mp h with h | h
    · obtain ⟨spec, hspec, rfl⟩ := List.mem_map.mp h
      obtain ⟨i, hi, rfl⟩ := List.mem_mapIdx.mp hspec
      refine List.mem_append_left _ (List.mem_append_left _ ?_)
      exact List.mem_mapIdx.mpr ⟨i, hi, rfl⟩
    · simp only [List.map_cons, List.map_nil, List.mem_cons, List.not_mem_nil, or_false] at h
      rcases h with rfl | rfl <;> simp [slotRoles]
  | _ => simpa [exits, slotRoles] using h

/-! ## Nodes by their ids -/

namespace Graph

variable {g : Graph}

/-- A node is found by its id. -/
theorem node?_of_mem {n : Node} (hn : n ∈ g.nodes) : g.node? n.id = some n := by
  cases h : g.node? n.id with
  | none =>
    have := List.find?_eq_none.mp h n hn
    simp at this
  | some m =>
    rw [List.inj_on_of_nodup_map g.nodup (mem_of_node? h) hn (id_of_node? h)]

theorem hasNode_iff {id : String} : g.hasNode id = true ↔ ∃ n ∈ g.nodes, n.id = id := by
  simp [hasNode, ids]

/-- The edge of an exit leaves the node with that role. -/
theorem mem_of_edgeFor {id : String} {role : Role} {e : Edge} (h : g.edgeFor id role = some e) :
    e ∈ g.edges ∧ e.source = id ∧ e.role = some role := by
  have hmem := List.mem_filter.mp (List.mem_of_find?_eq_some h)
  exact ⟨hmem.1, by simpa using hmem.2, by simpa using List.find?_some h⟩

/-! ## The parts of the check -/

/-- The graph has no issues. -/
def Valid (g : Graph) : Prop := g.validate = .ok []

namespace Valid

/-- A valid graph has no issue of any kind. -/
theorem parts (h : g.Valid) :
    g.typeIssues = [] ∧ g.edgeIssues = [] ∧ g.roleIssues = .ok [] ∧ g.fieldIssues = [] := by
  unfold Valid validate at h
  obtain ⟨roles, hroles, h⟩ := bind_eq_ok.mp h
  cases h' : roles with
  | nil =>
    subst h'
    simp only [pure, Except.pure, Except.ok.injEq, List.append_eq_nil_iff] at h
    exact ⟨h.1.1.1, h.1.1.2, hroles, h.2⟩
  | cons i rest =>
    subst h'
    simp [pure, Except.pure] at h

/-- Every node of a valid graph is of a known kind. -/
theorem exists_block (h : g.Valid) {n : Node} (hn : n ∈ g.nodes) :
    ∃ type, n.block? = some type := by
  have hnone := h.parts.1
  rw [typeIssues, List.map_eq_nil_iff, List.filter_eq_nil_iff] at hnone
  have := hnone n hn
  cases hb : n.block? with
  | none => simp [hb] at this
  | some type => exact ⟨type, rfl⟩

/-! ## Edges -/

/-- No two edges of a valid graph share their id. -/
theorem edgeIds_nodup (h : g.Valid) : (g.edges.map Edge.id).Nodup := by
  have hedges := h.parts.2.1
  rw [edgeIssues, List.append_eq_nil_iff] at hedges
  exact nodup_of_no_repeats (List.map_eq_nil_iff.mp hedges.1)

/-- An edge is known by its id. -/
theorem edge_eq (h : g.Valid) {e f : Edge} (he : e ∈ g.edges) (hf : f ∈ g.edges)
    (hid : e.id = f.id) : e = f :=
  List.inj_on_of_nodup_map h.edgeIds_nodup he hf hid

theorem edge_issues (h : g.Valid) {e : Edge} (he : e ∈ g.edges) :
    g.endIssues e e.source = [] ∧ g.endIssues e e.target = [] ∧ g.handleIssues e = [] := by
  have hedges := h.parts.2.1
  rw [edgeIssues, List.append_eq_nil_iff, List.flatMap_eq_nil_iff] at hedges
  have := hedges.2 e he
  rw [List.append_eq_nil_iff, List.append_eq_nil_iff] at this
  exact ⟨this.1.1, this.1.2, this.2⟩

theorem exists_end {e : Edge} {id : String} (h : g.endIssues e id = []) :
    ∃ n ∈ g.nodes, n.id = id := by
  unfold endIssues at h
  split at h
  next hnode => exact hasNode_iff.mp hnode
  next => simp at h

theorem exists_source (h : g.Valid) {e : Edge} (he : e ∈ g.edges) :
    ∃ n ∈ g.nodes, n.id = e.source := exists_end (h.edge_issues he).1

theorem exists_target (h : g.Valid) {e : Edge} (he : e ∈ g.edges) :
    ∃ n ∈ g.nodes, n.id = e.target := exists_end (h.edge_issues he).2.1

theorem exists_role (h : g.Valid) {e : Edge} (he : e ∈ g.edges) : ∃ role, e.role = some role := by
  have hissues := (h.edge_issues he).2.2
  unfold handleIssues at hissues
  split at hissues
  next role hrole => exact ⟨role, hrole⟩
  next => simp at hissues

/-! ## Exits -/

theorem mem_exitEdges (h : g.Valid) {n : Node} {e : Edge} {role : Role} (he : e ∈ g.edges)
    (hn : e.source = n.id) (hr : e.role = some role) : (e, role) ∈ g.exitEdges n := by
  refine List.mem_filterMap.mpr ⟨e, List.mem_filter.mpr ⟨he, by simpa using hn⟩, ?_⟩
  rw [if_pos (hasNode_iff.mpr (h.exists_target he)), hr]
  rfl

/-- In a valid graph, the exits of a node can be told, and no edge leaves it by another exit or one
taken already. -/
theorem role_issues (h : g.Valid) {n : Node} (hn : n ∈ g.nodes) {type : BlockType}
    (hb : n.block? = some type) :
    ∃ allowed, n.exits type = .ok allowed ∧ g.foreignExitIssues n allowed = [] ∧
      g.sharedExitIssues n = [] := by
  have hroles := h.parts.2.2.1
  unfold roleIssues at hroles
  cases hm : g.nodes.mapM g.nodeRoleIssues with
  | error defect => rw [hm] at hroles; cases hroles
  | ok issues =>
    rw [hm] at hroles
    have hnil : issues.flatten = [] := Except.ok.inj hroles
    obtain ⟨is, his, hnode⟩ := mapM_eq_ok_mem hm n hn
    rw [List.flatten_eq_nil_iff.mp hnil is his] at hnode
    unfold nodeRoleIssues at hnode
    rw [hb] at hnode
    obtain ⟨allowed, hallowed, hnode⟩ := bind_eq_ok.mp hnode
    have := List.append_eq_nil_iff.mp (Except.ok.inj hnode)
    exact ⟨allowed, hallowed, this.1, this.2⟩

/-- An edge leaves its source through an exit that the source has. -/
theorem role_mem (h : g.Valid) {n : Node} (hn : n ∈ g.nodes) {e : Edge} {role : Role}
    (he : e ∈ g.edges) (hs : e.source = n.id) (hr : e.role = some role) : role ∈ n.exitRoles := by
  obtain ⟨type, hb⟩ := h.exists_block hn
  obtain ⟨allowed, hallowed, hforeign, -⟩ := h.role_issues hn hb
  rw [foreignExitIssues, List.map_eq_nil_iff, List.filter_eq_nil_iff] at hforeign
  have hmem := hforeign (e, role) (h.mem_exitEdges he hs hr)
  have hrole : role ∈ allowed.map RoleSpec.role := by simpa using hmem
  rw [Node.exitRoles, Node.slotRoles, hb]
  unfold Node.exits at hallowed
  by_cases htype : type = .switch
  · rw [if_pos htype] at hallowed
    obtain ⟨cases, hcases, hallowed⟩ := bind_eq_ok.mp hallowed
    cases hallowed
    simp only [if_pos htype, hcases]
    exact BlockType.role_mem_exits hrole
  · rw [if_neg htype] at hallowed
    cases hallowed
    simp only [if_neg htype]
    exact BlockType.role_mem_exits hrole

/-- An edge is the one that leaves its source in its role. -/
theorem edgeFor_eq (h : g.Valid) {e : Edge} {role : Role} (he : e ∈ g.edges)
    (hr : e.role = some role) : g.edgeFor e.source role = some e := by
  obtain ⟨n, hn, hs⟩ := h.exists_source he
  obtain ⟨type, hb⟩ := h.exists_block hn
  obtain ⟨-, -, -, hshared⟩ := h.role_issues hn hb
  have hnd : ((g.exitEdges n).map (·.2)).Nodup :=
    nodup_of_no_repeats (List.map_eq_nil_iff.mp hshared)
  cases hf : g.edgeFor e.source role with
  | none =>
    have hout : e ∈ g.outgoing e.source := List.mem_filter.mpr ⟨he, by simp⟩
    have := List.find?_eq_none.mp hf e hout
    simp [hr] at this
  | some f =>
    -- the edge found and the edge at hand leave one node in one role, which no two edges do
    obtain ⟨hfe, hfs, hfr⟩ := mem_of_edgeFor hf
    have heq := List.inj_on_of_nodup_map hnd (h.mem_exitEdges hfe (hfs.trans hs.symm) hfr)
      (h.mem_exitEdges he hs.symm hr) rfl
    exact congrArg some (Prod.mk.inj heq).1

/-! ## Fields -/

/-- In a valid graph, no field of a node has an issue. -/
theorem fieldCause_none (h : g.Valid) {n : Node} (hn : n ∈ g.nodes) {type : BlockType}
    (hb : n.block? = some type) {spec : FieldSpec} (hspec : spec ∈ type.fields) :
    fieldCause? n spec = none := by
  have hfields := List.flatMap_eq_nil_iff.mp h.parts.2.2.2 n hn
  unfold nodeFieldIssues at hfields
  rw [hb] at hfields
  have hcauses := List.append_eq_nil_iff.mp (List.map_eq_nil_iff.mp hfields)
  cases hc : fieldCause? n spec with
  | none => rfl
  | some cause =>
    have hmem : cause ∈ type.fields.filterMap (fieldCause? n) :=
      List.mem_filterMap.mpr ⟨spec, hspec, hc⟩
    rw [hcauses.2] at hmem
    exact absurd hmem List.not_mem_nil

/-- The value of a field is a text. -/
theorem exists_text (h : g.Valid) {n : Node} (hn : n ∈ g.nodes) {type : BlockType}
    (hb : n.block? = some type) {spec : FieldSpec} (hspec : spec ∈ type.fields) :
    ∃ s, n.given spec.name = .text s := by
  have hc := h.fieldCause_none hn hb hspec
  unfold Node.given
  unfold fieldCause? at hc
  split at hc
  next hnone => exact ⟨"", by rw [hnone]; rfl⟩
  next => simp at hc
  next s hsome => exact ⟨s, by rw [hsome]; rfl⟩

/-- A field that has to be given is a text that is not empty and in order. -/
theorem exists_required (h : g.Valid) {n : Node} (hn : n ∈ g.nodes) {type : BlockType}
    (hb : n.block? = some type) {spec : FieldSpec} (hspec : spec ∈ type.fields)
    (hrequired : spec.required = true) :
    ∃ s, n.data.get? spec.name = some (.text s) ∧ s ≠ "" ∧ textCause? spec s = none := by
  have hc := h.fieldCause_none hn hb hspec
  unfold fieldCause? missingCause? at hc
  rw [if_pos hrequired] at hc
  split at hc
  next => cases hc
  next => cases hc
  next s hs =>
    split at hc
    next => cases hc
    next hne => exact ⟨s, hs, hne, hc⟩

/-- A field that has to be an identifier is one, up to a line break at its end. -/
theorem exists_identifier (h : g.Valid) {n : Node} (hn : n ∈ g.nodes) {type : BlockType}
    (hb : n.block? = some type) {field : String}
    (hfield : field ∈ (type.fields.filter fun spec =>
      spec.required && spec.kind = .identifier).map FieldSpec.name) :
    ∃ s, n.data.get? field = some (.text s) ∧ Text.passesLine Text.isName s.toList = true := by
  obtain ⟨spec, hspec, rfl⟩ := List.mem_map.mp hfield
  obtain ⟨hspec, hkind⟩ := List.mem_filter.mp hspec
  simp only [Bool.and_eq_true, decide_eq_true_eq] at hkind
  obtain ⟨s, hs, -, hcause⟩ := h.exists_required hn hb hspec hkind.1
  refine ⟨s, hs, ?_⟩
  unfold textCause? at hcause
  split at hcause
  next => cases hcause
  next hname => simpa [hkind.2] using hname

/-- A field that has to be a dotted name is one, up to a line break at its end. -/
theorem exists_dottedName (h : g.Valid) {n : Node} (hn : n ∈ g.nodes) {type : BlockType}
    (hb : n.block? = some type) {field : String}
    (hfield : field ∈ (type.fields.filter fun spec =>
      spec.required && spec.kind = .dottedName).map FieldSpec.name) :
    ∃ s, n.data.get? field = some (.text s) ∧
      Text.passesLine Text.isDottedName s.toList = true := by
  obtain ⟨spec, hspec, rfl⟩ := List.mem_map.mp hfield
  obtain ⟨hspec, hkind⟩ := List.mem_filter.mp hspec
  simp only [Bool.and_eq_true, decide_eq_true_eq] at hkind
  obtain ⟨s, hs, -, hcause⟩ := h.exists_required hn hb hspec hkind.1
  refine ⟨s, hs, ?_⟩
  unfold textCause? at hcause
  split at hcause
  next => cases hcause
  next =>
    split at hcause
    next => cases hcause
    next hname => simpa [hkind.2] using hname

/-- The parameters of a function can be read. -/
theorem exists_params (h : g.Valid) {n : Node} (hn : n ∈ g.nodes)
    (hb : n.block? = some .function) :
    ∃ s params, n.given "params" = .text s ∧ Param.parseList s = .ok params := by
  have hc := h.fieldCause_none hn hb (List.mem_cons_of_mem _ List.mem_cons_self)
  have hempty : Param.parseList "" = .ok [] := by decide
  unfold Node.given
  unfold fieldCause? at hc
  split at hc
  next hnone => exact ⟨"", [], by rw [hnone]; rfl, hempty⟩
  next => simp at hc
  next s hsome =>
    refine ⟨s, ?_⟩
    by_cases hs : s = ""
    · subst hs
      exact ⟨[], by rw [hsome]; rfl, hempty⟩
    · rw [if_neg hs] at hc
      unfold textCause? at hc
      cases hp : Param.parseList s with
      | ok params => exact ⟨params, by rw [hsome]; rfl, rfl⟩
      | error e => simp [hp] at hc

end Valid

end Graph

end Blockflow
