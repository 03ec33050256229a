import Blockflow.Proofs.Graph.Valid

/-!
# Where issues point

Every issue of a graph points at a node, at an edge or at both. The passes of the check come to what
they point at in different ways: from the list of the nodes, from the list of the edges, or from the
ends that an edge names. Only the last way can lead out of the graph. For a missing target the
source of the edge is blamed without being looked up, so an edge that has lost both ends is reported
at a node that is not there (`Graph.Points.lost`). All other issues point at what is there, and
every edge that has lost both ends gives an issue that does not (`Graph.issues_point`).
-/

namespace Blockflow

/-- The issue points at something, and all that it points at is there. -/
structure Issue.PointsInto (i : Issue) (g : Graph) : Prop where
  somewhere : i.node ≠ none ∨ i.edge ≠ none
  node : ∀ id, i.node = some id → ∃ n ∈ g.nodes, n.id = id
  edge : ∀ id, i.edge = some id → ∃ e ∈ g.edges, e.id = id

namespace Graph

variable {g : Graph}

/-- Neither end of the edge is a node. -/
def Lost (g : Graph) (e : Edge) : Prop := g.hasNode e.source = false ∧ g.hasNode e.target = false

/-- The issue that blames the source of an edge for a missing target. -/
def targetIssue (e : Edge) : Issue :=
  { cause := .missingEnd e.id e.target, node := some e.source, edge := some e.id }

/-- What an issue can point at: a node, an edge, a node and an edge that leaves it, or the ends that
an edge has lost. -/
inductive Points (g : Graph) : Issue → Prop where
  | node {n : Node} (cause : IssueCause) : n ∈ g.nodes → g.Points { cause, node := some n.id }
  | edge {e : Edge} (cause : IssueCause) : e ∈ g.edges → g.Points { cause, edge := some e.id }
  | exit {n : Node} {e : Edge} (cause : IssueCause) : n ∈ g.nodes → e ∈ g.edges →
      g.Points { cause, node := some n.id, edge := some e.id }
  | lost {e : Edge} : e ∈ g.edges → g.Lost e → g.Points (targetIssue e)

/-! ## The passes of the check -/

variable {i : Issue} {e : Edge} {n : Node}

theorem points_of_mem_typeIssues (h : i ∈ g.typeIssues) : g.Points i := by
  obtain ⟨n, hn, rfl⟩ := List.mem_map.mp h
  exact .node _ (List.mem_filter.mp hn).1

theorem points_of_mem_edgeIdIssues (h : i ∈ g.edgeIdIssues) : g.Points i := by
  obtain ⟨id, hid, rfl⟩ := List.mem_map.mp h
  obtain ⟨e, he, rfl⟩ := List.mem_map.mp (List.mem_eraseDups.mp (List.mem_filter.mp hid).1)
  exact .edge _ he

/-- A missing target is reported at the source, whether that is a node or not. -/
theorem points_targetIssue (he : e ∈ g.edges) (htarget : g.hasNode e.target = false) :
    g.Points (targetIssue e) := by
  by_cases hsource : g.hasNode e.source = true
  · obtain ⟨n, hn, hid⟩ := hasNode_iff.mp hsource
    rw [targetIssue, ← hid]
    exact .exit _ hn he
  · exact .lost he ⟨by simpa using hsource, htarget⟩

theorem points_of_mem_endIssues (he : e ∈ g.edges) {endpoint : String}
    (h : i ∈ g.endIssues e endpoint) : g.Points i := by
  unfold endIssues at h
  split at h
  next => exact absurd h List.not_mem_nil
  next hmissing =>
    rw [List.mem_singleton.mp h]
    by_cases htarget : endpoint = e.target
    · subst htarget
      rw [if_pos rfl]
      exact points_targetIssue he (by simpa using hmissing)
    · rw [if_neg htarget]
      exact .edge _ he

theorem points_of_mem_handleIssues (he : e ∈ g.edges) (h : i ∈ g.handleIssues e) : g.Points i := by
  unfold handleIssues at h
  split at h
  next => exact absurd h List.not_mem_nil
  next =>
    rw [List.mem_singleton.mp h]
    -- this pass looks the source up before it blames it
    by_cases hsource : g.hasNode e.source = true
    · rw [if_pos hsource]
      obtain ⟨n, hn, hid⟩ := hasNode_iff.mp hsource
      rw [← hid]
      exact .exit _ hn he
    · rw [if_neg hsource]
      exact .edge _ he

theorem points_of_mem_edgeIssues (h : i ∈ g.edgeIssues) : g.Points i := by
  rcases List.mem_append.mp h with h | h
  · exact points_of_mem_edgeIdIssues h
  obtain ⟨e, he, h⟩ := List.mem_flatMap.mp h
  rcases List.mem_append.mp h with h | h
  · rcases List.mem_append.mp h with h | h
    · exact points_of_mem_endIssues he h
    · exact points_of_mem_endIssues he h
  · exact points_of_mem_handleIssues he h

theorem mem_edges_of_exitEdges {role : Role} (h : (e, role) ∈ g.exitEdges n) : e ∈ g.edges := by
  obtain ⟨f, hf, h⟩ := List.mem_filterMap.mp h
  split at h
  next =>
    obtain ⟨_, -, heq⟩ := Option.map_eq_some_iff.mp h
    cases heq
    exact (List.mem_filter.mp hf).1
  next => cases h

theorem points_of_mem_nodeRoleIssues (hn : n ∈ g.nodes) {issues : List Issue}
    (hissues : g.nodeRoleIssues n = .ok issues) (h : i ∈ issues) : g.Points i := by
  unfold nodeRoleIssues at hissues
  split at hissues
  next =>
    cases hissues
    exact absurd h List.not_mem_nil
  next =>
    obtain ⟨allowed, -, hissues⟩ := bind_eq_ok.mp hissues
    cases hissues
    rcases List.mem_append.mp h with h | h
    · obtain ⟨⟨e, role⟩, he, rfl⟩ := List.mem_map.mp h
      exact .exit _ hn (mem_edges_of_exitEdges (List.mem_filter.mp he).1)
    · obtain ⟨role, -, rfl⟩ := List.mem_map.mp h
      exact .node _ hn

theorem points_of_mem_roleIssues {issues : List Issue} (hissues : g.roleIssues = .ok issues)
    (h : i ∈ issues) : g.Points i := by
  unfold roleIssues at hissues
  cases hm : g.nodes.mapM g.nodeRoleIssues with
  | error defect =>
    rw [hm] at hissues
    cases hissues
  | ok lists =>
    rw [hm] at hissues
    cases hissues
    obtain ⟨list, hlist, h⟩ := List.mem_flatten.mp h
    obtain ⟨n, hn, hnode⟩ := exists_mem_of_mapM_eq_ok hm list hlist
    exact points_of_mem_nodeRoleIssues hn hnode h

theorem points_of_mem_fieldIssues (h : i ∈ g.fieldIssues) : g.Points i := by
  obtain ⟨n, hn, h⟩ := List.mem_flatMap.mp h
  unfold nodeFieldIssues at h
  split at h
  next => exact absurd h List.not_mem_nil
  next =>
    obtain ⟨cause, -, rfl⟩ := List.mem_map.mp h
    exact .node _ hn

/-! ## All issues -/

variable {issues : List Issue}

/-- **What the issues of a graph point at.** -/
theorem points_of_mem_validate (hissues : g.validate = .ok issues) (h : i ∈ issues) :
    g.Points i := by
  unfold validate at hissues
  obtain ⟨roles, hroles, hissues⟩ := bind_eq_ok.mp hissues
  cases hissues
  rcases List.mem_append.mp h with h | h
  · rcases List.mem_append.mp h with h | h
    · rcases List.mem_append.mp h with h | h
      · exact points_of_mem_typeIssues h
      · exact points_of_mem_edgeIssues h
    · exact points_of_mem_roleIssues hroles h
  · exact points_of_mem_fieldIssues h

/-- A missing target is reported. -/
theorem targetIssue_mem_validate (hissues : g.validate = .ok issues) (he : e ∈ g.edges)
    (htarget : g.hasNode e.target = false) : targetIssue e ∈ issues := by
  have hend : targetIssue e ∈ g.endIssues e e.target := by
    unfold endIssues
    rw [if_neg (by simp [htarget]), if_pos rfl]
    exact List.mem_singleton.mpr rfl
  have hedge : targetIssue e ∈ g.edgeIssues := by
    refine List.mem_append_right _ (List.mem_flatMap.mpr ⟨e, he, ?_⟩)
    exact List.mem_append_left _ (List.mem_append_right _ hend)
  unfold validate at hissues
  obtain ⟨roles, -, hissues⟩ := bind_eq_ok.mp hissues
  cases hissues
  exact List.mem_append_left _ (List.mem_append_left _ (List.mem_append_right _ hedge))

theorem Lost.not_pointsInto (h : g.Lost e) : ¬ (targetIssue e).PointsInto g := by
  intro hinto
  have hsource : g.hasNode e.source = true := hasNode_iff.mpr (hinto.node e.source rfl)
  exact absurd (h.1.symm.trans hsource) (by decide)

theorem Points.pointsInto (h : g.Points i) :
    i.PointsInto g ∨ ∃ e ∈ g.edges, g.Lost e ∧ i = targetIssue e := by
  cases h with
  | @node n cause hn =>
    refine Or.inl ⟨Or.inl (by simp), ?_, by simp⟩
    rintro id ⟨⟩
    exact ⟨n, hn, rfl⟩
  | @edge e cause he =>
    refine Or.inl ⟨Or.inr (by simp), by simp, ?_⟩
    rintro id ⟨⟩
    exact ⟨e, he, rfl⟩
  | @exit n e cause hn he =>
    refine Or.inl ⟨Or.inl (by simp), ?_, ?_⟩
    · rintro id ⟨⟩
      exact ⟨n, hn, rfl⟩
    · rintro id ⟨⟩
      exact ⟨e, he, rfl⟩
  | @lost e he hlost => exact Or.inr ⟨e, he, hlost, rfl⟩

/-- **Issues point at what is there, except for edges that have lost both ends.** An issue that does
not is the one for the missing target of such an edge: it points at the edge, and at the source that
is missing too. Every such edge is reported so, and therefore all issues point at what is there if
and only if every edge has kept one of its ends. -/
theorem issues_point (h : g.validate = .ok issues) :
    (∀ i ∈ issues, i.PointsInto g ∨ ∃ e ∈ g.edges, g.Lost e ∧ i = targetIssue e) ∧
    ((∀ i ∈ issues, i.PointsInto g) ↔ ∀ e ∈ g.edges, ¬ g.Lost e) := by
  have hcases : ∀ i ∈ issues, i.PointsInto g ∨ ∃ e ∈ g.edges, g.Lost e ∧ i = targetIssue e :=
    fun i hi => (points_of_mem_validate h hi).pointsInto
  refine ⟨hcases, ?_, ?_⟩
  · intro hall e he hlost
    exact hlost.not_pointsInto (hall _ (targetIssue_mem_validate h he hlost.2))
  · intro hkept i hi
    rcases hcases i hi with hinto | ⟨e, he, hlost, -⟩
    · exact hinto
    · exact absurd hlost (hkept e he)

/-- A diagram with faults of all kinds: a type that is not known, an edge that has lost its target,
one whose handle stands for no role, and one that has lost both ends. -/
def frayed : Diagram where
  nodes :=
    [{ id := "ask", type := "if", data := [("condition", .str "x > 0"), ("color", .str "red")] },
     { id := "jump", type := "teleport" }]
  edges :=
    [{ id := "yes", source := "ask", target := "gone", sourceHandle := some "true" },
     { id := "odd", source := "ask", target := "jump", sourceHandle := some "sideways" },
     { id := "stray", source := "here", target := "there" }]

theorem issues_point_frayed :
    ∃ g issues, Graph.load frayed = .ok g ∧ g.validate = .ok issues ∧ issues.length = 6 ∧
      (∀ i ∈ issues, i.PointsInto g ∨ ∃ e ∈ g.edges, g.Lost e ∧ i = targetIssue e) ∧
      ¬ ∀ i ∈ issues, i.PointsInto g := by
  have hcheck : (Graph.load frayed).toOption.any (fun g =>
      g.validate.toOption.any (fun issues => decide (issues.length = 6)) &&
        g.edges.any fun e => !g.hasNode e.source && !g.hasNode e.target) = true := by
    decide
  obtain ⟨g, hload, hg⟩ := exists_ok_of_any hcheck
  obtain ⟨hissues, hedge⟩ := Bool.and_eq_true_iff.mp hg
  obtain ⟨issues, hissues, hlength⟩ := exists_ok_of_any hissues
  obtain ⟨e, he, hlost⟩ := List.any_eq_true.mp hedge
  obtain ⟨hcases, hiff⟩ := issues_point hissues
  refine ⟨g, issues, hload, hissues, of_decide_eq_true hlength, hcases, fun hall => ?_⟩
  exact hiff.mp hall e he (by simpa [Lost] using hlost)

/-- **An issue can point at a node that is not there.** -/
theorem not_forall_pointsInto :
    ¬ ∀ (d : Diagram) (g : Graph) (issues : List Issue), Graph.load d = .ok g →
      g.validate = .ok issues → ∀ i ∈ issues, i.PointsInto g := by
  intro hall
  have hcheck : (Graph.load frayed).toOption.any (fun g =>
      g.validate.toOption.any fun issues =>
        issues.any fun i => i.node.any fun id => !g.hasNode id) = true := by
    decide
  obtain ⟨g, hload, hg⟩ := exists_ok_of_any hcheck
  obtain ⟨issues, hissues, hany⟩ := exists_ok_of_any hg
  obtain ⟨i, hi, hnode⟩ := List.any_eq_true.mp hany
  obtain ⟨id, hid, hmissing⟩ := (Option.any_eq_true _ _).mp hnode
  have hthere := hasNode_iff.mpr ((hall frayed g issues hload hissues i hi).node id hid)
  rw [hthere] at hmissing
  cases hmissing

end Graph

end Blockflow
