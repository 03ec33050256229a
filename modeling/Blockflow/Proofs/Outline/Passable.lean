import Blockflow.Proofs.Outline.Followed

/-!
# Which graphs can be toured

A valid graph can be toured completely exactly when it is passable (`Graph.toured_iff_passable`):
its open edges form a forest, its back edges lead to loops around them, its branches have what they
require, and it is not nested too deep.

That a passable graph is toured without a fault is proved along the walk
(`Passable.walks_faultless`). What is below a node is what routes lead to from it. A walk that
starts where nothing below has been placed yet meets no fault, and places only what is below its
start; and what is below one exit of a node is not below another.
-/

namespace Blockflow.Graph

variable {g : Graph} {limit : Int}

/-- The open edges of the graph form a forest, and the walk along them is held up by nothing. -/
structure Passable (g : Graph) (limit : Int) : Prop where
  forest : g.Forest
  /-- a back edge leads out of the body of its target, and not out of a definition -/
  closing : ∀ e ∈ g.edges, e.id ∈ g.backEdges →
    ¬ g.IsBodyOf BlockType.isDefinition e ∧
      ∃ first rest, g.Route e.target (first :: rest) e.source ∧ first.role = some .body ∧
        ∀ f ∈ first :: rest, ¬ g.IsBodyOf BlockType.isDefinition f
  branches : ∀ n ∈ g.nodes, n.block? = some .branch →
    ∃ e ∈ g.edges, e.source = n.id ∧ e.role = some .whenTrue
  nesting : ∀ start ∈ g.entryPoints, ∀ r x, g.Route start r x →
    (r.countP (·.role ≠ some .next) : Int) ≤ max limit 0

/-! ## A graph that has been toured is passable -/

theorem Flawless.admits (hf : g.Flawless limit) {v : Visit} (hvis : v ∈ g.visits limit)
    {role : Role} (hrole : role ∈ v.node.slotRoles) :
    (g.tour limit).Admits v.place v.node role := by
  have hsees := hf.sees_at hvis
  rw [Visit.outline, Tour.Sees] at hsees
  rw [← hsees.2.1] at hrole
  obtain ⟨⟨role, o⟩, hslot, rfl⟩ := List.mem_map.mp hrole
  exact (hsees.2.2.1.admits hslot).1

namespace Toured

theorem exists_whenTrue (ht : g.Toured limit) {n : Node} (hn : n ∈ g.nodes)
    (hb : n.block? = some .branch) : ∃ e ∈ g.edges, e.source = n.id ∧ e.role = some .whenTrue := by
  obtain ⟨v, hvis, rfl⟩ := ht.exists_visit hn
  have hrole : Role.whenTrue ∈ v.node.slotRoles := by
    rw [Node.slotRoles, hb]
    exact List.mem_cons_self
  have hreq := Node.requires_iff.mpr ⟨hb, rfl⟩
  cases he : g.edgeFor v.node.id .whenTrue with
  | none =>
    rw [(ht.admits hvis hrole).1 he] at hreq
    cases hreq
  | some e =>
    obtain ⟨hmem, hs, hr⟩ := mem_of_edgeFor he
    exact ⟨e, hmem, hs, hr⟩

theorem nesting_le (ht : g.Toured limit) (hv : g.Valid) {start x : String}
    (hstart : start ∈ g.entryPoints) {r : List Edge} (hr : g.Route start r x) :
    (r.countP (·.role ≠ some .next) : Int) ≤ max limit 0 := by
  induction r using List.reverseRecOn generalizing x with
  | nil =>
    rw [List.countP_nil]
    omega
  | append_singleton r e ih =>
    obtain ⟨hr', he, -⟩ := route_concat.mp hr
    rw [List.countP_append, List.countP_singleton]
    obtain ⟨role, her⟩ := hv.exists_role he.1
    by_cases hnext : role = .next
    · simpa [her, hnext] using ih hr'
    · -- the edge leads into a block of a visited node, and the walk has gone there
      obtain ⟨v, hvis, hid, hplace⟩ := ht.exists_visit_of_route hv hstart hr'
      have hexit := hv.role_mem (mem_nodes_of_visit hvis) he.1 hid.symm her
      have hslot : role ∈ v.node.slotRoles := by simpa [Node.exitRoles, hnext] using hexit
      have hsome : ((g.tour limit).target v.place v.node role).isSome := by
        rw [target_of_isOpen limit hv he hid.symm her]
        rfl
      have hdepth : (v.place.depth : Int) + 1 ≤ limit := (ht.admits hvis hslot).2 hsome
      rw [hplace, placeOf_depth hv hr'] at hdepth
      rw [if_pos (by simp [her, hnext])]
      omega

theorem passable (ht : g.Toured limit) (hv : g.Valid) : g.Passable limit where
  forest := ht.forest hv
  closing e he hback := by
    obtain ⟨hdef, first, rest, hroute, hfirst, hrest⟩ := ht.exists_body_route hv he hback
    exact ⟨hdef, first, rest, hroute, hfirst.1, hrest⟩
  branches _ hn hb := ht.exists_whenTrue hn hb
  nesting _ hstart _ _ hr := ht.nesting_le hv hstart hr

end Toured

/-! ## What is below a node -/

/-- A route leads from one node to the other. -/
def Below (g : Graph) (x y : String) : Prop := ∃ r, g.Route x r y

theorem Below.refl (x : String) : g.Below x x := ⟨[], rfl⟩

/-- An exit of the node in one of the roles leads to where the other node is below. -/
def BelowExits (g : Graph) (n : Node) (roles : List Role) (y : String) : Prop :=
  ∃ e, g.IsOpen e ∧ e.source = n.id ∧ (∃ role ∈ roles, e.role = some role) ∧ g.Below e.target y

theorem BelowExits.below {n : Node} {roles : List Role} {y : String} (h : g.BelowExits n roles y) :
    g.Below n.id y := by
  obtain ⟨e, he, hs, -, r, hr⟩ := h
  exact ⟨e :: r, he, hs, hr⟩

theorem BelowExits.mono {n : Node} {roles roles' : List Role} {y : String}
    (h : g.BelowExits n roles y) (hsub : roles ⊆ roles') : g.BelowExits n roles' y := by
  obtain ⟨e, he, hs, ⟨role, hrole, hr⟩, hy⟩ := h
  exact ⟨e, he, hs, ⟨role, hsub hrole, hr⟩, hy⟩

namespace Forest

/-- The start of an edge is not below its end. -/
theorem not_below_source (h : g.Forest) (hv : g.Valid) {e : Edge} (he : g.IsOpen e) :
    ¬ g.Below e.target e.source := by
  rintro ⟨r, hr⟩
  obtain ⟨n, hn, hid⟩ := hv.exists_source he.1
  have hcycle : g.Route n.id (e :: r) n.id := ⟨he, hid.symm, hid ▸ hr⟩
  exact absurd (h.acyclic hn hcycle) (by simp)

/-- If what one edge leads to is above what another edge from the same node leads to, the edges are
the same. -/
theorem eq_of_route (h : g.Forest) (hv : g.Valid) {e f : Edge} (he : g.IsOpen e) (hf : g.IsOpen f)
    (hs : e.source = f.source) {q : List Edge} (hq : g.Route e.target q f.target) : e = f := by
  rcases List.eq_nil_or_concat q with rfl | ⟨q, k, rfl⟩
  · exact h.unique e f he hf (route_nil.mp hq)
  · rw [List.concat_eq_append] at hq
    obtain ⟨hq', hk, hkt⟩ := route_concat.mp hq
    obtain rfl := h.unique k f hk hf hkt
    rw [← hs] at hq'
    exact (h.not_below_source hv he ⟨q, hq'⟩).elim

/-- **What is below one exit of a node is not below another.** -/
theorem exists_role_of_below (h : g.Forest) (hv : g.Valid) {n : Node} {roles roles' : List Role}
    {y : String} (hy : g.BelowExits n roles y) (hy' : g.BelowExits n roles' y) :
    ∃ role ∈ roles, role ∈ roles' := by
  obtain ⟨e, he, hes, ⟨role, hrole, her⟩, r, hr⟩ := hy
  obtain ⟨f, hf, hfs, ⟨role', hrole', hfr⟩, s, hs⟩ := hy'
  have heq : e = f := by
    rcases h.route_suffix hr hs with ⟨q, -, hq⟩ | ⟨q, -, hq⟩
    · exact h.eq_of_route hv he hf (hes.trans hfs.symm) hq
    · exact (h.eq_of_route hv hf he (hfs.trans hes.symm) hq).symm
  rw [heq, hfr] at her
  exact ⟨role, hrole, Option.some.inj her ▸ hrole'⟩

/-- When the walk comes to a node below which nothing has been placed, nothing has been placed below
its exits. -/
theorem not_belowExits (h : g.Forest) (hv : g.Valid) {n : Node} {placed : List String}
    (hclear : ∀ y ∈ placed, ¬ g.Below n.id y) (roles : List Role) :
    ∀ y ∈ n.id :: placed, ¬ g.BelowExits n roles y := by
  intro y hy hbelow
  rcases List.mem_cons.mp hy with rfl | hy
  · obtain ⟨e, he, hs, -, htarget⟩ := hbelow
    exact h.not_below_source hv he (hs ▸ htarget)
  · exact hclear y hy hbelow.below

/-- What is below one entry point is not below another. -/
theorem eq_of_below_entry (h : g.Forest) {a b y : String} (ha : a ∈ g.entryPoints)
    (hb : b ∈ g.entryPoints) (hay : g.Below a y) (hby : g.Below b y) : a = b := by
  obtain ⟨r, hr⟩ := hay
  obtain ⟨s, hs⟩ := hby
  obtain ⟨q, -, hq⟩ := h.route_of_entry ha hr hs
  obtain rfl := hq.eq_nil_of_entry hb
  exact route_nil.mp hq

end Forest

/-! ## The exits of a passable graph -/

namespace Passable

/-- The target of a back edge is one of the loops around it. -/
theorem mem_loops (hp : g.Passable limit) (hv : g.Valid) {e : Edge} {p : Place}
    (h : g.StandsAt e.source p) (he : e ∈ g.edges) (hback : e.id ∈ g.backEdges) :
    e.target ∈ p.loops := by
  obtain ⟨start, hstart, r, hr, rfl⟩ := h
  obtain ⟨-, first, rest, hroute, hbody, hrest⟩ := hp.closing e he hback
  obtain ⟨f, hf, hid, m, hm, hloop, hft, -⟩ := mem_backEdges_iff.mp hback
  obtain rfl := hv.edge_eq hf he hid
  -- the route from the entry point ends with the route through the body
  obtain ⟨q, rfl, -⟩ := hp.forest.route_of_entry hstart hr hroute
  have hfirst : g.IsBodyOf BlockType.isLoop first :=
    ⟨hbody, m, hm, hft.symm.trans hroute.2.1.symm, hloop⟩
  rw [← hroute.2.1]
  refine mem_loops_of_body hv hfirst q fun k hk => ?_
  exact ⟨(hroute.isOpen (List.mem_cons_of_mem _ hk)).1, hrest k (List.mem_cons_of_mem _ hk)⟩

/-- Only open edges are followed: a back edge leads to a loop around it. -/
theorem isOpen_of_target (hp : g.Passable limit) (hv : g.Valid) {n : Node} (hn : n ∈ g.nodes)
    {p : Place} (h : g.StandsAt n.id p) {role : Role} {id : String}
    (hid : (g.tour limit).target p n role = some id) :
    ∃ e, g.IsOpen e ∧ e.source = n.id ∧ e.role = some role ∧ e.target = id := by
  obtain ⟨e, hedge, hfollow⟩ := Option.bind_eq_some_iff.mp hid
  obtain ⟨he, hs, her⟩ := mem_of_edgeFor hedge
  unfold follow at hfollow
  split at hfollow
  next => cases hfollow
  next hcond =>
    refine ⟨e, ⟨he, fun hback => hcond ?_⟩, hs, her, Option.some.inj hfollow⟩
    have hloop := hp.mem_loops hv (hs ▸ h) he hback
    obtain ⟨type, hb⟩ := hv.exists_block hn
    have hdef := (hp.closing e he hback).1
    rw [isBodyOf_definition_iff hn hb hs her (hv.role_mem hn he hs her)] at hdef
    have hbehind : e.target ∈ (p.behind n role).loops :=
      (mem_loops_behind hb).mpr (Or.inl ⟨hloop, hdef⟩)
    simpa [tour] using ⟨hback, hbehind⟩

theorem standsAt_of_target (hp : g.Passable limit) (hv : g.Valid) {n : Node} (hn : n ∈ g.nodes)
    {p : Place} (h : g.StandsAt n.id p) {role : Role} {id : String}
    (hid : (g.tour limit).target p n role = some id) : g.StandsAt id (p.behind n role) := by
  obtain ⟨e, he, hs, hr, rfl⟩ := hp.isOpen_of_target hv hn h hid
  exact h.behind hn he hs hr

theorem belowExits_of_target (hp : g.Passable limit) (hv : g.Valid) {n : Node} (hn : n ∈ g.nodes)
    {p : Place} (h : g.StandsAt n.id p) {role : Role} {id : String}
    (hid : (g.tour limit).target p n role = some id) {y : String} (hy : g.Below id y) :
    g.BelowExits n [role] y := by
  obtain ⟨e, he, hs, hr, rfl⟩ := hp.isOpen_of_target hv hn h hid
  exact ⟨e, he, hs, ⟨role, List.mem_cons_self, hr⟩, hy⟩

theorem admits (hp : g.Passable limit) (hv : g.Valid) {n : Node} (hn : n ∈ g.nodes) {p : Place}
    (h : g.StandsAt n.id p) {role : Role} (hrole : role ∈ n.slotRoles) :
    (g.tour limit).Admits p n role := by
  constructor
  · intro hnone
    rw [Bool.eq_false_iff]
    intro hreq
    obtain ⟨hb, rfl⟩ := Node.requires_iff.mp hreq
    obtain ⟨e, he, hs, her⟩ := hp.branches n hn hb
    rw [show (g.tour limit).graph = g from rfl, ← hs, hv.edgeFor_eq he her] at hnone
    cases hnone
  · -- the route to the node and one edge more: the bound on routes is the bound on blocks
    intro hsome
    obtain ⟨id, hid⟩ := Option.isSome_iff_exists.mp hsome
    obtain ⟨e, he, hs, her, -⟩ := hp.isOpen_of_target hv hn h hid
    obtain ⟨start, hstart, r, hr, rfl⟩ := h
    have hcount := hp.nesting start hstart (r ++ [e]) e.target
      (route_concat.mpr ⟨hs ▸ hr, he, rfl⟩)
    have hne := Node.ne_next_of_mem_slotRoles hrole
    rw [List.countP_append, List.countP_singleton, if_pos (by simp [her, hne])] at hcount
    rw [placeOf_depth hv hr]
    show (r.countP _ : Int) + 1 ≤ limit
    omega

/-! ## The walk meets no fault -/

mutual

/-- **A walk that starts where nothing below has been placed meets no fault**, and what it sees is
below its start. -/
theorem walks_faultless (hp : g.Passable limit) (hv : g.Valid) {path placed placed' : List String}
    {p : Place} {start : Option String} {o : Outline}
    (h : (g.tour limit).Walks path p placed start o placed') (hpath : path ⊆ placed)
    (hstands : ∀ id, start = some id → g.StandsAt id p)
    (hclear : ∀ id, start = some id → ∀ y ∈ placed, ¬ g.Below id y) :
    o.Faultless ∧ ∀ y ∈ o.ids, ∃ id, start = some id ∧ g.Below id y := by
  cases h with
  | stop => exact ⟨trivial, by simp⟩
  | cycle hmem => exact (hclear _ rfl _ (hpath hmem) (.refl _)).elim
  | again _ hmem => exact (hclear _ rfl _ hmem (.refl _)).elim
  | missing _ _ hnone =>
    obtain ⟨n, hn, rfl⟩ := (hstands _ rfl).exists_node hv
    rw [show (g.tour limit).graph = g from rfl, node?_of_mem hn] at hnone
    cases hnone
  | @enter _ _ _ _ n slots _ next _ _ _ hnode hslots hnext =>
    have hn : n ∈ g.nodes := mem_of_node? hnode
    obtain rfl := id_of_node? hnode
    have hhere := hstands _ rfl
    have hexits := hp.forest.not_belowExits hv (hclear _ rfl)
    have hpath' : n.id :: path ⊆ n.id :: placed := List.cons_subset_cons _ hpath
    obtain ⟨hfs, hbs⟩ := walksSlots_faultless hp hv hslots hn (List.Subset.refl _)
      n.slotRoles_nodup hpath' hhere (hexits _)
    have hplaced := hslots.placed_eq
    -- what is below the other exits is not below `next`
    obtain ⟨hfn, hbn⟩ := walks_faultless hp hv hnext
      (by rw [hplaced]; exact List.subset_append_of_subset_right _ hpath')
      (fun id hid => by simpa using hp.standsAt_of_target hv hn hhere hid)
      (by
        intro id hid y hy hbelow
        have hnextBelow := hp.belowExits_of_target hv hn hhere hid hbelow
        rw [hplaced] at hy
        rcases List.mem_append.mp hy with hy | hy
        · obtain ⟨role, hrole, hmem⟩ := hp.forest.exists_role_of_below hv
            (hbs y (List.mem_reverse.mp hy)) hnextBelow
          exact Node.ne_next_of_mem_slotRoles hrole (List.mem_singleton.mp hmem)
        · exact hexits _ y hy hnextBelow)
    refine ⟨⟨hfs, hfn⟩, fun y hy => ⟨_, rfl, ?_⟩⟩
    rw [Outline.ids_step] at hy
    rcases List.mem_cons.mp hy with rfl | hy
    · exact .refl _
    rcases List.mem_append.mp hy with hy | hy
    · exact (hbs y hy).below
    · obtain ⟨id, hid, hbelow⟩ := hbn y hy
      exact (hp.belowExits_of_target hv hn hhere hid hbelow).below

/-- The same for some exits of a node, below which nothing has been placed. -/
theorem walksSlots_faultless (hp : g.Passable limit) (hv : g.Valid)
    {path placed placed' : List String} {p : Place} {n : Node} {roles : List Role}
    {slots : List (Role × Outline)}
    (h : (g.tour limit).WalksSlots path p n placed roles slots placed') (hn : n ∈ g.nodes)
    (hroles : roles ⊆ n.slotRoles) (hnd : roles.Nodup) (hpath : path ⊆ placed)
    (hhere : g.StandsAt n.id p) (hclear : ∀ y ∈ placed, ¬ g.BelowExits n roles y) :
    Outline.SlotsFaultless slots ∧ ∀ y ∈ Outline.slotIds slots, g.BelowExits n roles y := by
  cases h with
  | nil => exact ⟨trivial, by simp⟩
  | refused hadm _ =>
    exact (hadm (hp.admits hv hn hhere (hroles List.mem_cons_self))).elim
  | @admitted _ _ _ _ role rest o _ slots _ _ hwalk hrest =>
    obtain ⟨hnotMem, hnd⟩ := List.nodup_cons.mp hnd
    obtain ⟨hrole, hroles⟩ := List.cons_subset.mp hroles
    have hinside := Place.behind_of_ne p n (Node.ne_next_of_mem_slotRoles hrole)
    have hsub : [role] ⊆ role :: rest := List.cons_subset_cons _ (List.nil_subset _)
    obtain ⟨hfo, hbo⟩ := walks_faultless hp hv hwalk hpath
      (fun id hid => hinside ▸ hp.standsAt_of_target hv hn hhere hid)
      (fun id hid y hy hbelow =>
        hclear y hy ((hp.belowExits_of_target hv hn hhere hid hbelow).mono hsub))
    have hplaced := hwalk.placed_eq
    obtain ⟨hfr, hbr⟩ := walksSlots_faultless hp hv hrest hn hroles hnd
      (by rw [hplaced]; exact List.subset_append_of_subset_right _ hpath) hhere
      (by
        intro y hy hbelow
        rw [hplaced] at hy
        rcases List.mem_append.mp hy with hy | hy
        · -- the walk through this exit has only placed what is below it
          obtain ⟨id, hid, hyid⟩ := hbo y (List.mem_reverse.mp hy)
          obtain ⟨role', hrole', hmem⟩ := hp.forest.exists_role_of_below hv hbelow
            (hp.belowExits_of_target hv hn hhere hid hyid)
          exact hnotMem (List.mem_singleton.mp hmem ▸ hrole')
        · exact hclear y hy (hbelow.mono (List.subset_cons_self _ _)))
    refine ⟨⟨hfo, hfr⟩, fun y hy => ?_⟩
    rw [Outline.slotIds_cons] at hy
    rcases List.mem_append.mp hy with hy | hy
    · obtain ⟨id, hid, hyid⟩ := hbo y hy
      exact (hp.belowExits_of_target hv hn hhere hid hyid).mono hsub
    · exact (hbr y hy).mono (List.subset_cons_self _ _)

end

theorem walksFrom_faultless (hp : g.Passable limit) (hv : g.Valid)
    {placed starts placed' : List String} {os : List Outline}
    (h : (g.tour limit).WalksFrom placed starts os placed') (hstarts : starts ⊆ g.entryPoints)
    (hnd : starts.Nodup) (hclear : ∀ s ∈ starts, ∀ y ∈ placed, ¬ g.Below s y) :
    ∀ o ∈ os, o.Faultless := by
  induction h with
  | nil => exact fun o ho => absurd ho List.not_mem_nil
  | @cons _ start _ _ rest _ _ hwalk _ ih =>
    obtain ⟨hstart, hrest⟩ := List.cons_subset.mp hstarts
    obtain ⟨hnotMem, hnd⟩ := List.nodup_cons.mp hnd
    obtain ⟨hfo, hbo⟩ := hp.walks_faultless hv hwalk (List.nil_subset _)
      (fun id hid => by cases hid; exact .entry hstart)
      (fun id hid => by cases hid; exact hclear start List.mem_cons_self)
    intro o ho
    rcases List.mem_cons.mp ho with rfl | ho
    · exact hfo
    · refine ih hrest hnd ?_ o ho
      intro s hs y hy hbelow
      rw [hwalk.placed_eq] at hy
      rcases List.mem_append.mp hy with hy | hy
      · obtain ⟨id, hid, hyid⟩ := hbo y (List.mem_reverse.mp hy)
        cases hid
        obtain rfl := hp.forest.eq_of_below_entry hstart (hrest hs) hyid hbelow
        exact hnotMem hs
      · exact hclear s (List.mem_cons_of_mem _ hs) y hy hbelow

theorem flawless (hp : g.Passable limit) (hv : g.Valid) : g.Flawless limit :=
  ⟨hp.walksFrom_faultless hv (g.outline_walksFrom limit) (List.Subset.refl _)
    (g.nodup.filter _) fun _ _ _ hy => absurd hy List.not_mem_nil⟩

theorem toured (hp : g.Passable limit) (hv : g.Valid) : g.Toured limit := by
  have hf := hp.flawless hv
  refine ⟨hf, outlineIds_perm_iff.mpr fun id hid => ?_⟩
  obtain ⟨n, hn, rfl⟩ := List.mem_map.mp hid
  obtain ⟨start, hstart, r, hr⟩ := hp.forest.reached n hn
  obtain ⟨v, hvis, hvn, -⟩ := hf.exists_visit_of_route hv hstart hr
  rw [← map_id_visits]
  exact List.mem_map.mpr ⟨v, hvis, hvn⟩

end Passable

/-- **A valid graph can be toured completely exactly when it is passable.** -/
theorem toured_iff_passable (hv : g.Valid) : g.Toured limit ↔ g.Passable limit :=
  ⟨fun ht => ht.passable hv, fun hp => hp.toured hv⟩

end Blockflow.Graph
