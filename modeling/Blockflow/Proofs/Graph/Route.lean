import Blockflow.Proofs.Graph.Closing
import Mathlib.Data.List.Induction

/-!
# Routes along open edges

An edge is open when it is not a back edge. A route is a sequence of open edges, each of which
starts where the one before it ends.

In a graph where at most one open edge leads to a node, two routes to the same node run together
from some point on (`Forest.route_suffix`). If moreover every node is reached from an entry point,
there is exactly one such route (`Forest.route_unique`), and no route comes back to its start
(`Forest.acyclic`).

A node stands at the place that its route leads to (`Graph.StandsAt`).
-/

namespace Blockflow.Graph

variable {g : Graph}

/-! ## Routes -/

/-- An edge of the graph that is not a back edge. -/
def IsOpen (g : Graph) (e : Edge) : Prop := e ∈ g.edges ∧ e.id ∉ g.backEdges

/-- A sequence of open edges that leads from one node to another. -/
def Route (g : Graph) : String → List Edge → String → Prop
  | a, [], b => a = b
  | a, e :: rest, b => g.IsOpen e ∧ e.source = a ∧ g.Route e.target rest b

theorem route_nil {a b : String} : g.Route a [] b ↔ a = b := Iff.rfl

theorem route_cons {a b : String} {e : Edge} {rest : List Edge} :
    g.Route a (e :: rest) b ↔ g.IsOpen e ∧ e.source = a ∧ g.Route e.target rest b := Iff.rfl

/-- A route passes through some place between two of its parts. -/
theorem route_append {b : String} : ∀ {r s : List Edge} {a : String},
    g.Route a (r ++ s) b ↔ ∃ c, g.Route a r c ∧ g.Route c s b
  | [], s, a => by
    constructor
    · intro h; exact ⟨a, rfl, h⟩
    · rintro ⟨c, rfl, h⟩; exact h
  | e :: r, s, a => by
    rw [List.cons_append, route_cons, route_append]
    constructor
    · rintro ⟨ho, hs, c, hr, hc⟩; exact ⟨c, ⟨ho, hs, hr⟩, hc⟩
    · rintro ⟨c, ⟨ho, hs, hr⟩, hc⟩; exact ⟨ho, hs, c, hr, hc⟩

theorem route_concat {a b : String} {r : List Edge} {e : Edge} :
    g.Route a (r ++ [e]) b ↔ g.Route a r e.source ∧ g.IsOpen e ∧ e.target = b := by
  rw [route_append]
  constructor
  · rintro ⟨c, hr, ho, rfl, ht⟩; exact ⟨hr, ho, ht⟩
  · rintro ⟨hr, ho, ht⟩; exact ⟨e.source, hr, ho, rfl, ht⟩

theorem Route.isOpen {a b : String} {r : List Edge} (h : g.Route a r b) {e : Edge} (he : e ∈ r) :
    g.IsOpen e := by
  obtain ⟨s, u, rfl⟩ := List.append_of_mem he
  obtain ⟨c, -, ho, -⟩ := route_append.mp h
  exact ho

/-- A route that goes on where another ends. -/
theorem Route.trans {a b c : String} {r s : List Edge} (hr : g.Route a r b) (hs : g.Route b s c) :
    g.Route a (r ++ s) c := route_append.mpr ⟨b, hr, hs⟩

/-- Entry points are the nodes to which no edge is followed. -/
theorem mem_entryPoints_iff {id : String} :
    id ∈ g.entryPoints ↔ (∃ n ∈ g.nodes, n.id = id) ∧ ∀ e, g.IsOpen e → e.target ≠ id := by
  unfold entryPoints
  rw [List.mem_filter]
  refine and_congr (by simp [ids]) ?_
  rw [List.all_eq_true]
  constructor
  · rintro h e ⟨he, hopen⟩ ht
    have := h e (List.mem_filter.mpr ⟨he, by simpa using ht⟩)
    exact hopen (by simpa using this)
  · intro h e he
    obtain ⟨he, ht⟩ := List.mem_filter.mp he
    by_contra hback
    exact h e ⟨he, by simpa using hback⟩ (by simpa using ht)

/-- No route that moves comes to an entry point. -/
theorem Route.eq_nil_of_entry {a b : String} {r : List Edge} (h : g.Route a r b)
    (hb : b ∈ g.entryPoints) : r = [] := by
  rcases List.eq_nil_or_concat r with hr | ⟨r', e, hr⟩
  · exact hr
  · rw [List.concat_eq_append] at hr
    subst hr
    obtain ⟨-, ho, ht⟩ := route_concat.mp h
    exact absurd ht ((mem_entryPoints_iff.mp hb).2 e ho)

/-! ## Forests -/

/-- At most one open edge leads to a node, and every node is reached from an entry point. -/
structure Forest (g : Graph) : Prop where
  unique : ∀ e f, g.IsOpen e → g.IsOpen f → e.target = f.target → e = f
  reached : ∀ n ∈ g.nodes, ∃ start ∈ g.entryPoints, ∃ r, g.Route start r n.id

namespace Forest

/-- Of two routes to the same node one is the end of the other. -/
theorem route_suffix (h : g.Forest) {a b x : String} {r s : List Edge} (hr : g.Route a r x)
    (hs : g.Route b s x) :
    (∃ q, r = q ++ s ∧ g.Route a q b) ∨ ∃ q, s = q ++ r ∧ g.Route b q a := by
  -- by induction on the first route from its end: the last edges agree, as they lead to one node
  induction r using List.reverseRecOn generalizing s x with
  | nil =>
    rw [route_nil.mp hr]
    exact Or.inr ⟨s, (List.append_nil s).symm, hs⟩
  | append_singleton r' e ih =>
    rcases List.eq_nil_or_concat s with rfl | ⟨s', f, rfl⟩
    · rw [route_nil.mp hs]
      exact Or.inl ⟨r' ++ [e], (List.append_nil _).symm, hr⟩
    · rw [List.concat_eq_append] at hs ⊢
      obtain ⟨hr', he, het⟩ := route_concat.mp hr
      obtain ⟨hs', hf, hft⟩ := route_concat.mp hs
      obtain rfl := h.unique e f he hf (het.trans hft.symm)
      rcases ih hr' hs' with ⟨q, rfl, hq⟩ | ⟨q, rfl, hq⟩
      · exact Or.inl ⟨q, List.append_assoc _ _ _, hq⟩
      · exact Or.inr ⟨q, List.append_assoc _ _ _, hq⟩

/-- A route from an entry point has every other route to the same node as its end. -/
theorem route_of_entry (h : g.Forest) {a b x : String} {r s : List Edge} (ha : a ∈ g.entryPoints)
    (hr : g.Route a r x) (hs : g.Route b s x) : ∃ q, r = q ++ s ∧ g.Route a q b := by
  rcases h.route_suffix hr hs with hq | ⟨q, rfl, hq⟩
  · exact hq
  · obtain rfl := hq.eq_nil_of_entry ha
    exact ⟨[], rfl, (route_nil.mp hq).symm⟩

/-- **There is one route from an entry point to a node.** -/
theorem route_unique (h : g.Forest) {a b x : String} {r s : List Edge} (ha : a ∈ g.entryPoints)
    (hb : b ∈ g.entryPoints) (hr : g.Route a r x) (hs : g.Route b s x) : r = s := by
  obtain ⟨q, rfl, hq⟩ := h.route_of_entry ha hr hs
  obtain rfl := hq.eq_nil_of_entry hb
  rfl

/-- **No route comes back to its start.** -/
theorem acyclic (h : g.Forest) {n : Node} (hn : n ∈ g.nodes) {r : List Edge}
    (hr : g.Route n.id r n.id) : r = [] := by
  obtain ⟨start, hstart, s, hs⟩ := h.reached n hn
  have heq := h.route_unique hstart hstart (hs.trans hr) hs
  simpa using heq

end Forest

/-! ## Places along a route -/

/-- The place behind an edge. -/
def placeAfter (g : Graph) (p : Place) (e : Edge) : Place :=
  match g.node? e.source, e.role with
  | some n, some role => p.behind n role
  | _, _ => p

/-- The place that a route from an entry point leads to. -/
def placeOf (g : Graph) (r : List Edge) : Place := r.foldl g.placeAfter {}

@[simp] theorem placeOf_concat (r : List Edge) (e : Edge) :
    g.placeOf (r ++ [e]) = g.placeAfter (g.placeOf r) e := by
  simp [placeOf]

/-- The place behind an edge is the one behind the exit that it leaves by. -/
theorem placeAfter_eq {p : Place} {e : Edge} {n : Node} {role : Role} (hn : n ∈ g.nodes)
    (hs : e.source = n.id) (hr : e.role = some role) : g.placeAfter p e = p.behind n role := by
  rw [placeAfter, hs, node?_of_mem hn, hr]

/-- The node that an edge leaves, and the exit that it leaves through. -/
theorem Valid.exists_exit (hv : g.Valid) {e : Edge} (he : e ∈ g.edges) :
    ∃ n ∈ g.nodes, ∃ role ∈ n.exitRoles, e.source = n.id ∧ e.role = some role ∧
      ∀ p, g.placeAfter p e = p.behind n role := by
  obtain ⟨n, hn, hs⟩ := hv.exists_source he
  obtain ⟨role, hr⟩ := hv.exists_role he
  exact ⟨n, hn, role, hv.role_mem hn he hs.symm hr, hs.symm, hr, fun _ =>
    placeAfter_eq hn hs.symm hr⟩

/-- The depth of a place is the number of blocks that the route leads into. -/
theorem placeOf_depth (hv : g.Valid) {a x : String} {r : List Edge} (hr : g.Route a r x) :
    (g.placeOf r).depth = r.countP (·.role ≠ some .next) := by
  induction r using List.reverseRecOn generalizing x with
  | nil => rfl
  | append_singleton r e ih =>
    obtain ⟨hr', he, -⟩ := route_concat.mp hr
    obtain ⟨n, -, role, -, -, hrole, hplace⟩ := hv.exists_exit he.1
    rw [placeOf_concat, hplace, List.countP_append, ← ih hr', List.countP_singleton, hrole]
    by_cases hnext : role = .next
    · simp [hnext]
    · simp [Place.behind_of_ne _ _ hnext, hnext, Place.inside]

/-- The place is that of a route from an entry point to the node. -/
def StandsAt (g : Graph) (id : String) (p : Place) : Prop :=
  ∃ start ∈ g.entryPoints, ∃ r, g.Route start r id ∧ p = g.placeOf r

theorem StandsAt.entry {start : String} (h : start ∈ g.entryPoints) : g.StandsAt start {} :=
  ⟨start, h, [], rfl, rfl⟩

/-- The node that an edge leads to stands behind the exit. -/
theorem StandsAt.behind {n : Node} {p : Place} (h : g.StandsAt n.id p) (hn : n ∈ g.nodes) {e : Edge}
    {role : Role} (he : g.IsOpen e) (hs : e.source = n.id) (hr : e.role = some role) :
    g.StandsAt e.target (p.behind n role) := by
  obtain ⟨start, hstart, r, hroute, rfl⟩ := h
  refine ⟨start, hstart, r ++ [e], route_concat.mpr ⟨hs ▸ hroute, he, rfl⟩, ?_⟩
  rw [placeOf_concat, placeAfter_eq hn hs hr]

theorem StandsAt.exists_node {id : String} {p : Place} (h : g.StandsAt id p) (hv : g.Valid) :
    ∃ n ∈ g.nodes, n.id = id := by
  obtain ⟨start, hstart, r, hr, -⟩ := h
  rcases List.eq_nil_or_concat r with rfl | ⟨r, e, rfl⟩
  · rw [← route_nil.mp hr]
    exact (mem_entryPoints_iff.mp hstart).1
  · rw [List.concat_eq_append] at hr
    obtain ⟨-, he, rfl⟩ := route_concat.mp hr
    exact hv.exists_target he.1

/-! ## Loops around a place -/

/-- The edge leads into the body of a block of some kind. -/
def IsBodyOf (g : Graph) (kind : BlockType → Bool) (e : Edge) : Prop :=
  e.role = some .body ∧ ∃ n ∈ g.nodes, n.id = e.source ∧ n.block?.any kind = true

theorem IsBodyOf.not_definition {e : Edge} (h : g.IsBodyOf BlockType.isLoop e) :
    ¬ g.IsBodyOf BlockType.isDefinition e := by
  rintro ⟨-, m, hm, hms, hdef⟩
  obtain ⟨-, n, hn, hns, hloop⟩ := h
  obtain rfl := List.inj_on_of_nodup_map g.nodup hm hn (hms.trans hns.symm)
  cases hb : m.block? with
  | none => simp [hb] at hloop
  | some type => cases type <;> simp [hb, BlockType.isLoop, BlockType.isDefinition] at hloop hdef

/-- A loop and a definition have no other exit inside than the body. -/
theorem eq_body_of_exit {n : Node} {type : BlockType} (hb : n.block? = some type)
    (htype : type.isLoop = true ∨ type.isDefinition = true) {role : Role}
    (hrole : role ∈ n.exitRoles) (hne : role ≠ .next) : role = .body := by
  rw [Node.exitRoles, Node.slotRoles, hb] at hrole
  cases type <;> simp_all [BlockType.slotRoles, BlockType.isLoop, BlockType.isDefinition]

/-- The edges that lead into definitions, by the exits that they leave through. -/
theorem isBodyOf_definition_iff {n : Node} (hn : n ∈ g.nodes) {type : BlockType}
    (hb : n.block? = some type) {e : Edge} {role : Role} (hs : e.source = n.id)
    (hr : e.role = some role) (hexit : role ∈ n.exitRoles) :
    g.IsBodyOf BlockType.isDefinition e ↔ role ≠ .next ∧ type.isDefinition = true := by
  constructor
  · rintro ⟨hbody, m, hm, hms, hdef⟩
    obtain rfl := List.inj_on_of_nodup_map g.nodup hm hn (hms.trans hs)
    rw [hr] at hbody
    rw [hb] at hdef
    exact ⟨by rw [Option.some.inj hbody]; simp, by simpa using hdef⟩
  · rintro ⟨hne, hdef⟩
    refine ⟨?_, n, hn, hs.symm, by simpa [hb] using hdef⟩
    rw [hr, eq_body_of_exit hb (Or.inr hdef) hexit hne]

/-- The loops behind an exit. -/
theorem mem_loops_behind {p : Place} {n : Node} {type : BlockType} (hb : n.block? = some type)
    {role : Role} {loop : String} :
    loop ∈ (p.behind n role).loops ↔
      (loop ∈ p.loops ∧ ¬ (role ≠ .next ∧ type.isDefinition = true)) ∨
        (role ≠ .next ∧ type.isLoop = true ∧ loop = n.id) := by
  by_cases hnext : role = .next
  · simp [hnext]
  · rw [Place.behind_of_ne _ _ hnext]
    simp only [Place.inside, Node.enclosing, hb]
    cases type <;> simp [BlockType.isLoop, BlockType.isDefinition, hnext, or_comm]

/-- A loop around a place: the route leads into its body, and into no definition after that. -/
theorem exists_of_mem_loops (hv : g.Valid) {a x : String} {r : List Edge} (hr : g.Route a r x)
    {loop : String} (hl : loop ∈ (g.placeOf r).loops) :
    ∃ q first rest, r = q ++ first :: rest ∧ first.source = loop ∧
      g.IsBodyOf BlockType.isLoop first ∧ ∀ f ∈ rest, ¬ g.IsBodyOf BlockType.isDefinition f := by
  induction r using List.reverseRecOn generalizing x with
  | nil => exact absurd hl List.not_mem_nil
  | append_singleton r e ih =>
    obtain ⟨hr', he, -⟩ := route_concat.mp hr
    obtain ⟨n, hn, role, hexit, hs, hrole, hplace⟩ := hv.exists_exit he.1
    obtain ⟨type, hb⟩ := hv.exists_block hn
    rw [placeOf_concat, hplace, mem_loops_behind hb] at hl
    -- the loop was around the place before, or the last edge leads into its body
    rcases hl with ⟨hl, hdef⟩ | ⟨hne, hloop, rfl⟩
    · obtain ⟨q, first, rest, rfl, hfs, hfirst, hrest⟩ := ih hr' hl
      refine ⟨q, first, rest ++ [e], by simp, hfs, hfirst, ?_⟩
      intro f hf
      rcases List.mem_append.mp hf with hf | hf
      · exact hrest f hf
      · rw [List.mem_singleton.mp hf, isBodyOf_definition_iff hn hb hs hrole hexit]
        exact hdef
    · refine ⟨r, e, [], rfl, hs, ⟨?_, n, hn, hs.symm, by simpa [hb] using hloop⟩, by simp⟩
      rw [hrole, eq_body_of_exit hb (Or.inl hloop) hexit hne]

/-- A loop stays around what its body leads to, outside of definitions. -/
theorem mem_loops_of_body (hv : g.Valid) {first : Edge}
    (hfirst : g.IsBodyOf BlockType.isLoop first) (q : List Edge) :
    ∀ {rest : List Edge}, (∀ f ∈ rest, f ∈ g.edges ∧ ¬ g.IsBodyOf BlockType.isDefinition f) →
      first.source ∈ (g.placeOf (q ++ first :: rest)).loops := by
  intro rest
  induction rest using List.reverseRecOn with
  | nil =>
    intro _
    obtain ⟨hbody, n, hn, hs, hloop⟩ := hfirst
    obtain ⟨type, hb⟩ := hv.exists_block hn
    rw [placeOf_concat, placeAfter_eq hn hs.symm hbody, mem_loops_behind hb]
    exact Or.inr ⟨by simp, by simpa [hb] using hloop, hs.symm⟩
  | append_singleton rest e ih =>
    intro hrest
    obtain ⟨he, hdef⟩ := hrest e (by simp)
    obtain ⟨n, hn, role, hexit, hs, hrole, hplace⟩ := hv.exists_exit he
    obtain ⟨type, hb⟩ := hv.exists_block hn
    rw [show q ++ first :: (rest ++ [e]) = (q ++ first :: rest) ++ [e] by simp, placeOf_concat,
      hplace, mem_loops_behind hb]
    rw [isBodyOf_definition_iff hn hb hs hrole hexit] at hdef
    exact Or.inl ⟨ih fun f hf => hrest f (by simp [hf]), hdef⟩

end Blockflow.Graph
