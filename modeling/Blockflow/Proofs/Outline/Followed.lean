import Blockflow.Proofs.Graph.Route
import Blockflow.Proofs.Program.Build

/-!
# Which edges are followed

A back edge is dropped only if its target is one of the loops around it; whether that is so depends
on the walk. Where the tour of a valid graph is complete, it is always so: the open edges are
followed and the back edges are dropped (`Toured.target_eq_some_iff`). For if a back edge were
followed, its target would be no entry point, so an open edge would lead to it as well, and the walk
would come to it twice.

So the graph is a forest (`Toured.forest`), every node stands at the place that its route leads to
(`Toured.standsAt`), and a back edge closes the innermost loop around it
(`Forest.innermost_of_inBody`).
-/

namespace Blockflow.Graph

variable {g : Graph} {limit : Int}

/-! ## Open edges are followed, back edges are dropped -/

/-- An exit leads where its edge is followed to. -/
theorem target_eq_follow (limit : Int) (hv : g.Valid) {v : Visit} {e : Edge} {role : Role}
    (he : e ∈ g.edges) (hs : e.source = v.node.id) (hr : e.role = some role) :
    (g.tour limit).target v.place v.node role =
      follow g.backEdges (v.place.behind v.node role).loops e := by
  rw [Tour.target, show (g.tour limit).graph = g from rfl, ← hs, hv.edgeFor_eq he hr]
  rfl

theorem target_of_isOpen (limit : Int) (hv : g.Valid) {v : Visit} {e : Edge} {role : Role}
    (he : g.IsOpen e) (hs : e.source = v.node.id) (hr : e.role = some role) :
    (g.tour limit).target v.place v.node role = some e.target := by
  have hback : g.backEdges.contains e.id = false := by simpa using he.2
  rw [target_eq_follow limit hv he.1 hs hr, follow, hback]
  rfl

/-- The end of a route from an entry point is visited at the place of the route. -/
theorem Flawless.exists_visit_of_route (hf : g.Flawless limit) (hv : g.Valid) {start x : String}
    (hstart : start ∈ g.entryPoints) {r : List Edge} (hr : g.Route start r x) :
    ∃ v ∈ g.visits limit, v.node.id = x ∧ v.place = g.placeOf r := by
  induction r using List.reverseRecOn generalizing x with
  | nil =>
    rw [← route_nil.mp hr]
    exact hf.exists_entry hstart
  | append_singleton r e ih =>
    obtain ⟨hr', he, rfl⟩ := route_concat.mp hr
    obtain ⟨v, hvis, hid, hplace⟩ := ih hr'
    obtain ⟨role, her⟩ := hv.exists_role he.1
    have hrole := hv.role_mem (mem_nodes_of_visit hvis) he.1 hid.symm her
    obtain ⟨w, hw, hwid, hwplace, -⟩ :=
      hf.exists_behind hvis hrole (target_of_isOpen limit hv he hid.symm her)
    refine ⟨w, hw, hwid, ?_⟩
    rw [hwplace, hplace, placeOf_concat, placeAfter_eq (mem_nodes_of_visit hvis) hid.symm her]

namespace Toured

theorem exists_isOpen_of_target (ht : g.Toured limit) (hv : g.Valid) {v : Visit}
    (hvis : v ∈ g.visits limit) {role : Role} (hrole : role ∈ v.node.exitRoles) {id : String}
    (hid : (g.tour limit).target v.place v.node role = some id) :
    ∃ e, g.IsOpen e ∧ e.source = v.node.id ∧ e.role = some role ∧ e.target = id := by
  have hnot := ht.target_ne_entry hvis hrole hid
  obtain ⟨f, hf, hfollow⟩ := Option.bind_eq_some_iff.mp hid
  obtain ⟨hfe, hfs, hfr⟩ := mem_of_edgeFor hf
  have hft : f.target = id := by
    unfold follow at hfollow
    split at hfollow
    · cases hfollow
    · exact Option.some.inj hfollow
  -- some open edge leads to the target, and it can only be this one
  rw [mem_entryPoints_iff] at hnot
  have hex : ∃ e, g.IsOpen e ∧ e.target = id := by
    by_contra hnone
    refine hnot ⟨hft ▸ hv.exists_target hfe, fun e he hte => hnone ⟨e, he, hte⟩⟩
  obtain ⟨e, he, hte⟩ := hex
  obtain ⟨n, hn, role', hrole', hes, her, -⟩ := hv.exists_exit he.1
  obtain ⟨w, hw, rfl⟩ := ht.exists_visit hn
  have hid' := target_of_isOpen limit hv he hes her
  rw [hte] at hid'
  obtain ⟨rfl, rfl⟩ := ht.target_unique hvis hw hrole hrole' hid hid'
  exact ⟨e, he, hes, her, hte⟩

/-- **Exactly the open edges are followed.** -/
theorem target_eq_some_iff (ht : g.Toured limit) (hv : g.Valid) {v : Visit}
    (hvis : v ∈ g.visits limit) {e : Edge} {role : Role} (he : e ∈ g.edges)
    (hs : e.source = v.node.id) (hr : e.role = some role) :
    (g.tour limit).target v.place v.node role = some e.target ↔ e.id ∉ g.backEdges := by
  constructor
  · intro hid
    obtain ⟨f, hf, hfs, hfr, -⟩ := ht.exists_isOpen_of_target hv hvis
      (hv.role_mem (mem_nodes_of_visit hvis) he hs hr) hid
    have hef : g.edgeFor e.source role = some f := by
      rw [hs, ← hfs]
      exact hv.edgeFor_eq hf.1 hfr
    rw [hv.edgeFor_eq he hr] at hef
    cases hef
    exact hf.2
  · intro hopen
    exact target_of_isOpen limit hv ⟨he, hopen⟩ hs hr

/-- **Exactly the back edges are dropped.** -/
theorem target_eq_none_iff (ht : g.Toured limit) (hv : g.Valid) {v : Visit}
    (hvis : v ∈ g.visits limit) {e : Edge} {role : Role} (he : e ∈ g.edges)
    (hs : e.source = v.node.id) (hr : e.role = some role) :
    (g.tour limit).target v.place v.node role = none ↔ e.id ∈ g.backEdges := by
  have hsome := ht.target_eq_some_iff hv hvis he hs hr
  rw [target_eq_follow limit hv he hs hr] at hsome ⊢
  unfold follow at hsome ⊢
  split
  next hcond =>
    simp only [Bool.and_eq_true, List.contains_eq_mem, decide_eq_true_eq] at hcond
    exact ⟨fun _ => hcond.1, fun _ => rfl⟩
  next hcond =>
    rw [if_neg hcond] at hsome
    exact ⟨(nomatch ·), fun h => absurd h (hsome.mp rfl)⟩

/-- A back edge leads to one of the loops around it. -/
theorem mem_loops_of_backEdge (ht : g.Toured limit) (hv : g.Valid) {v : Visit}
    (hvis : v ∈ g.visits limit) {e : Edge} {role : Role} (he : e ∈ g.edges)
    (hback : e.id ∈ g.backEdges) (hs : e.source = v.node.id) (hr : e.role = some role) :
    e.target ∈ (v.place.behind v.node role).loops := by
  have hnone := (ht.target_eq_none_iff hv hvis he hs hr).mpr hback
  rw [target_eq_follow limit hv he hs hr] at hnone
  unfold follow at hnone
  split at hnone
  next hcond => simpa using (Bool.and_eq_true_iff.mp hcond).2
  next => cases hnone

/-! ## Every node stands where its route leads -/

/-- The place of a visit is that of a route from an entry point. -/
theorem standsAt (ht : g.Toured limit) (hv : g.Valid) :
    ∀ v ∈ g.visits limit, g.StandsAt v.node.id v.place := by
  refine ht.visits_induction ?_ ?_
  · intro start hstart
    exact .entry hstart
  · intro v hvis hstands role hrole id hid
    obtain ⟨e, he, hs, her, rfl⟩ := ht.exists_isOpen_of_target hv hvis hrole hid
    exact hstands.behind (mem_nodes_of_visit hvis) he hs her

/-- **A graph whose tour is complete is a forest.** -/
theorem forest (ht : g.Toured limit) (hv : g.Valid) : g.Forest where
  unique := by
    intro e f he hf htarget
    obtain ⟨n, hn, role, hrole, hes, her, -⟩ := hv.exists_exit he.1
    obtain ⟨m, hm, role', hrole', hfs, hfr, -⟩ := hv.exists_exit hf.1
    obtain ⟨v, hvis, rfl⟩ := ht.exists_visit hn
    obtain ⟨w, hwis, rfl⟩ := ht.exists_visit hm
    have hid := target_of_isOpen limit hv he hes her
    have hid' := target_of_isOpen limit hv hf hfs hfr
    rw [← htarget] at hid'
    obtain ⟨rfl, rfl⟩ := ht.target_unique hvis hwis hrole hrole' hid hid'
    have heq := hv.edgeFor_eq he.1 her
    rw [hes, ← hfs, hv.edgeFor_eq hf.1 hfr] at heq
    exact (Option.some.inj heq).symm
  reached := by
    intro n hn
    obtain ⟨v, hvis, rfl⟩ := ht.exists_visit hn
    obtain ⟨start, hstart, r, hr, -⟩ := ht.standsAt hv v hvis
    exact ⟨start, hstart, r, hr⟩

end Toured

/-! ## Back edges close the innermost loop -/

/-- The body of a loop contains a node: a route leads there through the body exit. -/
def InBody (g : Graph) (loop id : String) : Prop :=
  ∃ first rest, g.IsBodyOf BlockType.isLoop first ∧ g.Route loop (first :: rest) id

/-- The loop is the innermost one that contains the node: the others contain the loop as well. -/
def Innermost (g : Graph) (loop id : String) : Prop :=
  g.InBody loop id ∧
    ∀ other, g.InBody other id → other ≠ loop → g.InBody other loop ∧ ¬ g.InBody loop other

theorem Route.leads {z b : String} : ∀ {a : String} {r : List Edge}, g.Route a r b →
    (∀ f ∈ r, f.target ≠ z) → Relation.ReflTransGen (Leads (g.edgesBeside z)) a b
  | a, [], h, _ => by
    rw [route_nil.mp h]
  | a, e :: r, h, hbeside => by
    obtain ⟨ho, rfl, hr⟩ := route_cons.mp h
    refine .head ⟨e, List.mem_filter.mpr ⟨ho.1, ?_⟩, rfl, rfl⟩
      (hr.leads fun f hf => hbeside f (List.mem_cons_of_mem _ hf))
    simpa using hbeside e List.mem_cons_self

namespace Forest

/-- On a route that moves away from a node, no edge leads to the node. -/
theorem target_ne_start (h : g.Forest) {n : Node} (hn : n ∈ g.nodes) {b : String} {r : List Edge}
    (hr : g.Route n.id r b) : ∀ f ∈ r, f.target ≠ n.id := by
  intro f hf hft
  obtain ⟨s, u, rfl⟩ := List.append_of_mem hf
  obtain ⟨c, hs, ho, hfs, -⟩ := route_append.mp hr
  have hcycle : g.Route n.id (s ++ [f]) n.id := route_concat.mpr ⟨hfs ▸ hs, ho, hft⟩
  exact absurd (h.acyclic hn hcycle) (by simp)

/-- On a route to a node, only the last edge leads to the node. -/
theorem target_ne_end (h : g.Forest) {n : Node} (hn : n ∈ g.nodes) {a : String} {r : List Edge}
    {e : Edge} (hr : g.Route a (r ++ [e]) n.id) : ∀ f ∈ r, f.target ≠ n.id := by
  intro f hf hft
  obtain ⟨s, u, rfl⟩ := List.append_of_mem hf
  rw [List.append_assoc] at hr
  obtain ⟨c, -, ho, -, hu⟩ := route_append.mp hr
  rw [hft] at hu
  exact absurd (h.acyclic hn hu) (by simp)

/-- An edge from the body of a loop to somewhere from which a route leads to the loop would make the
last edge of that route a back edge. -/
theorem no_route_to_inner (h : g.Forest) (hv : g.Valid) {first e : Edge} {rest s : List Edge}
    {z : String} (hfirst : g.IsBodyOf BlockType.isLoop first)
    (hbody : g.Route z (first :: rest) e.source) (he : e ∈ g.edges) (hne : e.target ≠ z)
    (hs : g.Route e.target s z) : False := by
  obtain ⟨hfo, rfl, hrest⟩ := route_cons.mp hbody
  obtain ⟨hfr, n, hn, hnid, hloop⟩ := hfirst
  rcases List.eq_nil_or_concat s with rfl | ⟨s, f, rfl⟩
  · exact hne (route_nil.mp hs)
  rw [List.concat_eq_append] at hs
  obtain ⟨hs', hf, hft⟩ := route_concat.mp hs
  rw [← hnid] at hs hbody hne hft
  have hstart := h.target_ne_start hn hbody
  refine hf.2 (mem_backEdges_iff.mpr ⟨f, hf.1, rfl, n, hn, hloop, hft, ?_⟩)
  refine mem_loopBody_iff.mpr ⟨first, ?_, hstart first List.mem_cons_self, ?_⟩
  · rw [hnid]
    exact hv.edgeFor_eq hfo.1 hfr
  · -- down to the edge, through it, and on to the last edge of the route
    have hdown := hrest.leads fun f hf => hstart f (List.mem_cons_of_mem _ hf)
    have hup := hs'.leads (h.target_ne_end hn hs)
    refine hdown.trans (.head ⟨e, List.mem_filter.mpr ⟨he, ?_⟩, rfl, rfl⟩ hup)
    simpa using hne

/-- If an edge leads from the body of a loop back to the loop, the loop is the innermost one. -/
theorem innermost_of_inBody (h : g.Forest) (hv : g.Valid) {e : Edge} (he : e ∈ g.edges)
    (hin : g.InBody e.target e.source) : g.Innermost e.target e.source := by
  refine ⟨hin, ?_⟩
  rintro other ⟨first', rest', hfirst', hr'⟩ hother
  obtain ⟨first, rest, hfirst, hr⟩ := hin
  have hno : ¬ g.InBody e.target other := by
    rintro ⟨f, s, -, hs⟩
    exact h.no_route_to_inner hv hfirst' hr' he (Ne.symm hother) hs
  refine ⟨?_, hno⟩
  -- of the routes from the two loops one is the end of the other; the longer one starts outside
  rcases h.route_suffix hr' hr with ⟨q, heq, hq⟩ | ⟨q, heq, hq⟩
  · cases q with
    | nil => exact absurd (route_nil.mp hq) hother
    | cons f q =>
      cases heq
      exact ⟨first', q, hfirst', hq⟩
  · exact (h.no_route_to_inner hv hfirst' hr' he (Ne.symm hother) hq).elim

end Forest

namespace Toured

/-- A back edge leads from the body of a loop to the loop: the route from there leads into the body,
and into no definition. -/
theorem exists_body_route (ht : g.Toured limit) (hv : g.Valid) {e : Edge} (he : e ∈ g.edges)
    (hback : e.id ∈ g.backEdges) :
    ¬ g.IsBodyOf BlockType.isDefinition e ∧
      ∃ first rest, g.Route e.target (first :: rest) e.source ∧
        g.IsBodyOf BlockType.isLoop first ∧
        ∀ f ∈ first :: rest, ¬ g.IsBodyOf BlockType.isDefinition f := by
  obtain ⟨n, hn, role, hrole, hs, hr, -⟩ := hv.exists_exit he
  obtain ⟨type, hb⟩ := hv.exists_block hn
  obtain ⟨v, hvis, rfl⟩ := ht.exists_visit hn
  have hmem := ht.mem_loops_of_backEdge hv hvis he hback hs hr
  rw [mem_loops_behind hb] at hmem
  rcases hmem with ⟨hmem, hdef⟩ | ⟨-, -, hself⟩
  · refine ⟨?_, ?_⟩
    · rw [isBodyOf_definition_iff hn hb hs hr hrole]
      exact hdef
    · obtain ⟨start, -, r, hroute, hplace⟩ := ht.standsAt hv v hvis
      rw [hplace] at hmem
      obtain ⟨q, first, rest, rfl, hfs, hfirst, hrest⟩ := exists_of_mem_loops hv hroute hmem
      obtain ⟨c, -, ho, hc, hroute⟩ := route_append.mp hroute
      refine ⟨first, rest, ⟨ho, hfs, hs ▸ hroute⟩, hfirst, ?_⟩
      intro f hf
      rcases List.mem_cons.mp hf with rfl | hf
      · exact hfirst.not_definition
      · exact hrest f hf
  · -- no loop is in its own body
    obtain ⟨f, hf, hid, m, -, -, hft, hfs⟩ := mem_backEdges_iff.mp hback
    obtain rfl := hv.edge_eq hf he hid
    rw [hs, ← hself, hft] at hfs
    exact absurd hfs (g.not_mem_loopBody_self m.id)

end Toured

/-- **Back edges close the innermost loop.** For every edge there is a visit of its source. A back
edge is not followed from there, nothing stands behind its exit, and it leads to the innermost loop
around it. Every other edge is followed, and the visit of its target stands behind its exit. -/
theorem backEdge_closes_innermost (hv : g.Valid) {b : Build} (h : g.buildAlone limit = .ok b)
    {e : Edge} (he : e ∈ g.edges) :
    ∃ v ∈ g.visits limit, ∃ role, v.node.id = e.source ∧ e.role = some role ∧
      (e.id ∈ g.backEdges →
        follow g.backEdges (v.place.behind v.node role).loops e = none ∧
          (∀ o, v.Behind role o → o = .done) ∧ g.Innermost e.target e.source) ∧
      (e.id ∉ g.backEdges →
        follow g.backEdges (v.place.behind v.node role).loops e = some e.target ∧
          ∃ w ∈ g.visits limit, w.node.id = e.target ∧ v.Behind role w.outline) := by
  obtain ⟨main, a, hassemble, -⟩ := buildAlone_eq_ok h
  have ht := toured_of_assemble hassemble
  obtain ⟨n, hn, role, hrole, hs, hr, -⟩ := hv.exists_exit he
  obtain ⟨v, hvis, rfl⟩ := ht.exists_visit hn
  refine ⟨v, hvis, role, hs.symm, hr, ?_, ?_⟩
  · intro hback
    have hnone := (ht.target_eq_none_iff hv hvis he hs hr).mpr hback
    refine ⟨by rw [← target_eq_follow limit hv he hs hr, hnone], ?_, ?_⟩
    · intro o ho
      have hsees := (ht.sees_at hvis).of_behind ho
      rw [hnone] at hsees
      exact hsees.eq_done
    · obtain ⟨-, first, rest, hroute, hfirst, -⟩ := ht.exists_body_route hv he hback
      exact (ht.forest hv).innermost_of_inBody hv he ⟨first, rest, hfirst, hroute⟩
  · intro hopen
    have hsome := (ht.target_eq_some_iff hv hvis he hs hr).mpr hopen
    refine ⟨by rw [← target_eq_follow limit hv he hs hr, hsome], ?_⟩
    obtain ⟨w, hw, hid, -, hbehind⟩ := ht.exists_behind hvis hrole hsome
    exact ⟨w, hw, hid, hbehind⟩

theorem backEdge_closes_innermost_sample :
    ∃ e ∈ sample.edges, e.id ∈ sample.backEdges ∧
      ∃ v ∈ sample.visits 100, ∃ role, v.node.id = e.source ∧ e.role = some role ∧
        follow sample.backEdges (v.place.behind v.node role).loops e = none ∧
        (∀ o, v.Behind role o → o = .done) ∧ sample.Innermost e.target e.source := by
  let e : Edge := { id := "e9", source := "test", target := "loop", role := some .next }
  have he : e ∈ sample.edges := by decide
  have hback : e.id ∈ sample.backEdges := by decide +kernel
  obtain ⟨b, hb⟩ := exists_build_sample
  obtain ⟨v, hvis, role, hid, hrole, hclosing, -⟩ := backEdge_closes_innermost valid_sample hb he
  exact ⟨e, he, hback, v, hvis, role, hid, hrole, hclosing hback⟩

end Blockflow.Graph
