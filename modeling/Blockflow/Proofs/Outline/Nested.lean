import Blockflow.Proofs.Outline.Extent

/-!
# What there is to see inside of a definition

A walk that comes to no node twice sees exactly what there is to see (`Tour.Walks.eq_of_sees`). Two
tours that agree on some nodes and on the edges between them see the same from there
(`Tour.AgreesOn.sees`), in places with the same loops around them. A definition starts with no loop
around it, wherever it stands. So the outline of what is cut out at a definition is the outline that
the whole graph has there, without the rest of the chain (`Graph.CutOut.outline_eq`).
-/

namespace Blockflow

namespace Tour

/-! ## Walks that come to no node twice -/

variable {t t' : Tour}

mutual

/-- **A walk that comes to no node twice sees what there is to see.** -/
theorem Walks.eq_of_sees {path placed placed' : List String} {p : Place} {start : Option String}
    {o o' : Outline} (h : t.Walks path p placed start o' placed') (hs : t.Sees p start o)
    (hfresh : ∀ id ∈ o.ids, id ∉ path ∧ id ∉ placed) (hnd : o.ids.Nodup) : o' = o := by
  cases h with
  | stop => exact hs.eq_done.symm
  | cycle hpath =>
    obtain ⟨v, rfl, -, rfl, -⟩ := hs.exists_outline
    exact absurd hpath (hfresh v.node.id (by simp [Visit.outline])).1
  | again _ hplaced =>
    obtain ⟨v, rfl, -, rfl, -⟩ := hs.exists_outline
    exact absurd hplaced (hfresh v.node.id (by simp [Visit.outline])).2
  | missing _ _ hnone =>
    obtain ⟨v, rfl, -, rfl, -⟩ := hs.exists_outline
    rw [Visit.outline, Sees, hnone] at hs
    cases hs.1
  | @enter _ _ _ start n slots' placed₁ next' _ _ _ hn hslots hnext =>
    obtain ⟨v, hid, -, rfl, -⟩ := hs.exists_outline
    rw [Visit.outline, Sees, hn] at hs
    obtain ⟨hnode, hroles, hseesSlots, hseesNext⟩ := hs
    cases Option.some.inj hnode
    rw [Visit.outline, Outline.ids_step, hid] at hfresh hnd
    obtain ⟨hstart, hnd⟩ := List.nodup_cons.mp hnd
    obtain ⟨hndSlots, hndNext, hdisjoint⟩ := List.nodup_append.mp hnd
    have hslotsEq : slots' = v.slots := by
      refine hslots.eq_of_sees hroles hseesSlots (fun id hid' => ?_) hndSlots
      have hne : id ≠ start := fun heq => hstart (heq ▸ List.mem_append_left _ hid')
      obtain ⟨hpath, hplaced⟩ := hfresh id (List.mem_cons_of_mem _ (List.mem_append_left _ hid'))
      exact ⟨by simp [hne, hpath], by simp [hne, hplaced]⟩
    have hnextEq : next' = v.next := by
      refine hnext.eq_of_sees hseesNext (fun id hid' => ?_) hndNext
      have hne : id ≠ start := fun heq => hstart (heq ▸ List.mem_append_right _ hid')
      have hslot : id ∉ Outline.slotIds slots' := fun hmem =>
        hdisjoint id (hslotsEq ▸ hmem) id hid' rfl
      obtain ⟨hpath, hplaced⟩ := hfresh id (List.mem_cons_of_mem _ (List.mem_append_right _ hid'))
      rw [hslots.placed_eq]
      exact ⟨by simp [hne, hpath], by simp [hne, hplaced, hslot]⟩
    rw [hslotsEq, hnextEq, Visit.outline]

theorem WalksSlots.eq_of_sees {path placed placed' : List String} {p : Place} {n : Node}
    {roles : List Role} {slots slots' : List (Role × Outline)}
    (h : t.WalksSlots path p n placed roles slots' placed') (hroles : slots.map Prod.fst = roles)
    (hs : t.SeesSlots p n slots)
    (hfresh : ∀ id ∈ Outline.slotIds slots, id ∉ path ∧ id ∉ placed)
    (hnd : (Outline.slotIds slots).Nodup) : slots' = slots := by
  cases h with
  | nil => exact (List.map_eq_nil_iff.mp hroles).symm
  | refused hadmits hrest =>
    obtain ⟨⟨role', o⟩, rest, rfl, rfl, -⟩ := List.map_eq_cons_iff.mp hroles
    rw [SeesSlots] at hs
    exact absurd hs.1 hadmits
  | admitted hadmits hwalk hrest =>
    obtain ⟨⟨role', o⟩, rest, rfl, rfl, hroles'⟩ := List.map_eq_cons_iff.mp hroles
    rw [SeesSlots] at hs
    rw [Outline.slotIds_cons] at hfresh hnd
    obtain ⟨hndHere, hndRest, hdisjoint⟩ := List.nodup_append.mp hnd
    have hhere := hwalk.eq_of_sees hs.2.1
      (fun id hid => hfresh id (List.mem_append_left _ hid)) hndHere
    have hrestEq := hrest.eq_of_sees hroles' hs.2.2 (fun id hid => by
      obtain ⟨hpath, hplaced⟩ := hfresh id (List.mem_append_right _ hid)
      have hnot : id ∉ o.ids := fun hmem => hdisjoint id hmem id hid rfl
      rw [hwalk.placed_eq, hhere]
      exact ⟨hpath, by simp [hplaced, hnot]⟩) hndRest
    rw [hhere, hrestEq]

end

/-! ## Tours that agree on some nodes -/

/-- Two tours agree on an exit: it has the same edge, which is a back edge for both or for neither,
and which leads to one of the nodes. -/
structure AgreesAt (t' t : Tour) (inside : String → Prop) (id : String) (role : Role) : Prop where
  edge : t'.graph.edgeFor id role = t.graph.edgeFor id role
  back : ∀ e, t.graph.edgeFor id role = some e → (e.id ∈ t'.back ↔ e.id ∈ t.back)
  target : ∀ e, t.graph.edgeFor id role = some e → inside e.target

/-- Two tours agree on some nodes and all their exits. -/
structure AgreesOn (t' t : Tour) (inside : String → Prop) : Prop where
  limit : t'.limit = t.limit
  node : ∀ id, inside id → t'.graph.node? id = t.graph.node? id
  exits : ∀ id, inside id → ∀ role, t'.AgreesAt t inside id role

variable {inside : String → Prop} {p p' : Place} {n : Node} {role : Role}

theorem AgreesAt.target_eq (h : t'.AgreesAt t inside n.id role)
    (hloops : (p'.behind n role).loops = (p.behind n role).loops) :
    t'.target p' n role = t.target p n role := by
  unfold Tour.target
  rw [h.edge, hloops]
  cases hedge : t.graph.edgeFor n.id role with
  | none => rfl
  | some e =>
    have hback : t'.back.contains e.id = t.back.contains e.id := by
      rw [Bool.eq_iff_iff, List.contains_iff_mem, List.contains_iff_mem, h.back e hedge]
    show follow t'.back _ e = follow t.back _ e
    rw [follow, follow, hback]

theorem AgreesAt.inside_of_target (h : t'.AgreesAt t inside n.id role) {id : String}
    (hid : t.target p n role = some id) : inside id := by
  obtain ⟨e, hedge, hfollow⟩ := Option.bind_eq_some_iff.mp hid
  unfold follow at hfollow
  split at hfollow
  next => cases hfollow
  next =>
    cases hfollow
    exact h.target e hedge

/-- An exit that may be taken may also be taken where fewer blocks are around it. -/
theorem AgreesAt.admits (h : t'.AgreesAt t inside n.id role) (hlimit : t'.limit = t.limit)
    (hloops : (p'.behind n role).loops = (p.behind n role).loops) (hdepth : p'.depth ≤ p.depth)
    (hadmits : t.Admits p n role) : t'.Admits p' n role := by
  refine ⟨fun hnone => hadmits.1 (h.edge ▸ hnone), fun hsome => ?_⟩
  rw [h.target_eq hloops] at hsome
  have := hadmits.2 hsome
  rw [hlimit]
  omega

namespace AgreesOn

mutual

/-- **Two tours that agree on some nodes see the same from there.** -/
theorem sees (h : t'.AgreesOn t inside) : ∀ {o : Outline} {p p' : Place} {start : Option String},
    t.Sees p start o → p'.loops = p.loops → p'.depth ≤ p.depth →
      (∀ id, start = some id → inside id) → t'.Sees p' start o
  | .done, _, _, none, _, _, _, _ => by simp [Sees]
  | .done, _, _, some _, hs, _, _, _ => by simp [Sees] at hs
  | .fault _ _, _, _, _, hs, _, _, _ => by simp [Sees] at hs
  | .missing _, _, _, _, hs, _, _, _ => by simp [Sees] at hs
  | .step n slots next, _, _, none, hs, _, _, _ => by simp [Sees] at hs
  | .step n slots next, p, p', some start, hs, hloops, hdepth, hstart => by
    rw [Sees] at hs ⊢
    obtain ⟨hn, hroles, hslots, hnext⟩ := hs
    have hin := hstart start rfl
    have hexits : ∀ role, t'.AgreesAt t inside n.id role := by
      rw [Graph.id_of_node? hn]
      exact h.exits start hin
    have htarget : t'.target p' n .next = t.target p n .next :=
      (hexits .next).target_eq (by rw [Place.behind_next, Place.behind_next, hloops])
    refine ⟨(h.node start hin).trans hn, hroles, ?_, ?_⟩
    · exact h.seesSlots hslots (congrArg n.enclosing hloops) hdepth
        fun role hrole => ⟨Node.ne_next_of_mem_slotRoles (hroles ▸ hrole), hexits role⟩
    · rw [htarget]
      exact h.sees hnext hloops hdepth fun id hid => (hexits .next).inside_of_target hid

theorem seesSlots (h : t'.AgreesOn t inside) : ∀ {slots : List (Role × Outline)} {p p' : Place}
    {n : Node}, t.SeesSlots p n slots → n.enclosing p'.loops = n.enclosing p.loops →
      p'.depth ≤ p.depth →
      (∀ role ∈ slots.map Prod.fst, role ≠ .next ∧ t'.AgreesAt t inside n.id role) →
      t'.SeesSlots p' n slots
  | [], _, _, _, _, _, _, _ => by rw [SeesSlots]; trivial
  | (role, o) :: rest, p, p', n, hs, hloops, hdepth, hexits => by
    rw [SeesSlots] at hs ⊢
    obtain ⟨hadmits, hhere, hrest⟩ := hs
    obtain ⟨hne, hexit⟩ := hexits role List.mem_cons_self
    have hbehind : (p'.behind n role).loops = (p.behind n role).loops := by
      rw [Place.behind_of_ne _ _ hne, Place.behind_of_ne _ _ hne]
      exact hloops
    refine ⟨hexit.admits h.limit hbehind hdepth hadmits, ?_, ?_⟩
    · rw [hexit.target_eq hbehind]
      exact h.sees hhere hloops (Nat.succ_le_succ hdepth) fun id hid => hexit.inside_of_target hid
    · exact h.seesSlots hrest hloops hdepth fun role' hrole' =>
        hexits role' (List.mem_cons_of_mem _ hrole')

end

end AgreesOn

end Tour

/-! ## Outlines inside of outlines -/

namespace Outline

mutual

/-- The nodes below a visit are among the nodes of the outline, each as often as there. -/
theorem ids_sublist : ∀ (o : Outline) (p : Place) {v : Visit}, v ∈ o.visits p →
    v.outline.ids.Sublist o.ids
  | .done, _, _, h => absurd h List.not_mem_nil
  | .fault _ _, _, _, h => absurd h List.not_mem_nil
  | .missing _, _, _, h => absurd h List.not_mem_nil
  | .step n slots next, p, v, h => by
    rw [visits] at h
    rcases List.mem_cons.mp h with rfl | h
    · exact List.Sublist.refl _
    rw [ids_step]
    refine List.Sublist.cons _ ?_
    rcases List.mem_append.mp h with h | h
    · exact (slotIds_sublist slots _ h).trans (List.sublist_append_left _ _)
    · exact (ids_sublist next p h).trans (List.sublist_append_right _ _)

theorem slotIds_sublist : ∀ (slots : List (Role × Outline)) (p : Place) {v : Visit},
    v ∈ slotVisits p slots → v.outline.ids.Sublist (slotIds slots)
  | [], _, _, h => absurd h List.not_mem_nil
  | (_, o) :: rest, p, v, h => by
    rw [slotVisits] at h
    rw [slotIds_cons]
    rcases List.mem_append.mp h with h | h
    · exact (ids_sublist o p h).trans (List.sublist_append_left _ _)
    · exact (slotIds_sublist rest p h).trans (List.sublist_append_right _ _)

end

theorem mem_ids_iff {o : Outline} (p : Place) {id : String} :
    id ∈ o.ids ↔ ∃ v ∈ o.visits p, v.node.id = id := by
  rw [ids, ← o.map_node_visits p]
  simp

theorem mem_slotIds_iff {slots : List (Role × Outline)} (p : Place) {id : String} :
    id ∈ slotIds slots ↔ ∃ v ∈ slotVisits p slots, v.node.id = id := by
  rw [slotIds, ← map_node_slotVisits slots p]
  simp

end Outline

namespace Graph

variable {g g' : Graph} {root : String} {limit : Int}

theorem nodup_ids_of_visit {v : Visit} (hvis : v ∈ g.visits limit) : v.outline.ids.Nodup := by
  obtain ⟨o, ho, hvo⟩ := List.mem_flatMap.mp hvis
  exact ((List.nodup_flatMap.mp (g.outlineIds_nodup limit)).1 o ho).sublist (o.ids_sublist {} hvo)

/-- What has a route from the start of a chain is visited there. -/
theorem exists_visit_of_sees (hv : g.Valid) {start x : String} {p : Place} {o : Outline}
    (hs : (g.tour limit).Sees p (some start) o) {r : List Edge} (hr : g.Route start r x) :
    ∃ w ∈ o.visits p, w.node.id = x := by
  induction r using List.reverseRecOn generalizing x with
  | nil =>
    obtain ⟨w, hid, -, -, hw⟩ := hs.exists_outline
    exact ⟨w, hw, hid.trans (route_nil.mp hr)⟩
  | append_singleton r e ih =>
    obtain ⟨hr', he, rfl⟩ := route_concat.mp hr
    obtain ⟨w, hw, hid⟩ := ih hr'
    have hat := hs.at_visit hw
    obtain ⟨role, her⟩ := hv.exists_role he.1
    have hn : w.node ∈ g.nodes := by
      rw [Visit.outline, Tour.Sees] at hat
      exact mem_of_node? hat.1
    obtain ⟨o', hbehind, hsub⟩ := hat.exists_behind (hv.role_mem hn he.1 hid.symm her)
    have hsees := hat.of_behind hbehind
    rw [target_of_isOpen limit hv he hid.symm her] at hsees
    obtain ⟨u, huid, -, -, hu⟩ := hsees.exists_outline
    exact ⟨u, o.visits_trans p hw (hsub hu), huid⟩

namespace CutOut

variable (h : g.CutOut g' root) (hv : g.Valid) (ht : g.Toured limit)
include h hv ht

theorem agreesAt {id : String} (hid : id ∈ g.extent root) {role : Role}
    (hnext : ¬ (id = root ∧ role = .next)) :
    (g'.tour limit).AgreesAt (g.tour limit) (g.Inside root) id role where
  edge := h.edgeFor_eq hv hid hnext
  back e he := by
    rw [show (g.tour limit).graph = g from rfl, ← h.edgeFor_eq hv hid hnext] at he
    exact h.mem_backEdges_iff hv ht (mem_of_edgeFor he).1
  target e he := by
    rw [show (g.tour limit).graph = g from rfl, ← h.edgeFor_eq hv hid hnext] at he
    exact h.inside_target hv ht (mem_of_edgeFor he).1

omit ht in
theorem node?_eq {id : String} (hid : id ∈ g.extent root) : g'.node? id = g.node? id :=
  (h.restricts hv).node?_eq fun _ hn heq => h.mem_nodes.mpr ⟨hn, heq ▸ hid⟩

theorem agreesOn : (g'.tour limit).AgreesOn (g.tour limit) (g.Inside root) where
  limit := rfl
  node _ hid := h.node?_eq hv hid.1
  exits _ hid _ := h.agreesAt hv ht hid.1 fun hroot => hid.2 hroot.1

/-- **The root is seen with the same chains inside of it, and nothing after it.** -/
theorem sees_root {v : Visit} (hvis : v ∈ g.visits limit) (hid : v.node.id = root) :
    (g'.tour limit).Sees {} (some root) (.step v.node v.slots .done) := by
  have hroot : root ∈ g.extent root := root_mem_extent g root
  have hsees := ht.sees_at hvis
  rw [Visit.outline, hid, Tour.Sees] at hsees
  obtain ⟨hn, hroles, hslots, -⟩ := hsees
  have hfresh : ∀ loops, v.node.enclosing loops = [] := by
    obtain ⟨n, hn', hnid, hdef⟩ := h.definition
    obtain rfl :=
      List.inj_on_of_nodup_map g.nodup (mem_nodes_of_visit hvis) hn' (hid.trans hnid.symm)
    intro loops
    obtain ⟨type, hb, htype⟩ := Node.isDefinition_iff.mp hdef
    unfold Node.enclosing
    rw [hb]
    cases type with
    | function => rfl
    | classDef => rfl
    | _ => cases htype
  have hnext : (g'.tour limit).target {} v.node .next = none := by
    have hnone : g'.edgeFor v.node.id .next = none := by
      cases hedge : g'.edgeFor v.node.id .next with
      | none => rfl
      | some e =>
        obtain ⟨he, hs, hr⟩ := mem_of_edgeFor hedge
        exact absurd ⟨hs.trans hid, hr⟩ ((h.mem_edges hv).mp he).2.2
    rw [Tour.target, show (g'.tour limit).graph = g' from rfl, hnone]
    rfl
  rw [Tour.Sees]
  refine ⟨(h.node?_eq hv hroot).trans hn, hroles, ?_, ?_⟩
  · refine (h.agreesOn hv ht).seesSlots hslots ((hfresh _).trans (hfresh _).symm) (Nat.zero_le _) ?_
    intro role hrole
    have hne := Node.ne_next_of_mem_slotRoles (hroles ▸ hrole)
    refine ⟨hne, ?_⟩
    rw [hid]
    exact h.agreesAt hv ht hroot fun hroot => hne hroot.2
  · rw [hnext]
    simp [Tour.Sees]

/-- **The outline of what is cut out is what stands at the root in the whole graph.** -/
theorem outline_eq {v : Visit} (hvis : v ∈ g.visits limit) (hid : v.node.id = root) :
    (g'.outline limit).1 = [.step v.node v.slots .done] := by
  have hsees := h.sees_root hv ht hvis hid
  have hwalks := g'.outline_walksFrom limit
  rw [h.entryPoints_eq hv ht] at hwalks
  generalize (g'.outline limit).1 = os at hwalks ⊢
  generalize (g'.outline limit).2 = placed at hwalks
  cases hwalks with
  | cons hwalk hrest =>
    cases hrest with
    | nil =>
      have hnd : (Outline.step v.node v.slots .done).ids.Nodup := by
        refine (nodup_ids_of_visit hvis).sublist ?_
        rw [Visit.outline, Outline.ids_step, Outline.ids_step]
        exact ((List.Sublist.refl _).append (List.nil_sublist _)).cons_cons _
      rw [hwalk.eq_of_sees hsees (by simp) hnd]

/-- The nodes that are visited inside of the root are those that belong to it. -/
theorem mem_slotIds_iff {v : Visit} (hvis : v ∈ g.visits limit) (hid : v.node.id = root)
    {id : String} :
    id ∈ Outline.slotIds v.slots ↔ (∃ n ∈ g.nodes, n.id = id) ∧ g.Inside root id := by
  have hsees := h.sees_root hv ht hvis hid
  have hnd := nodup_ids_of_visit hvis
  rw [Visit.outline, Outline.ids_step, hid] at hnd
  constructor
  · intro hmem
    have hids : id ∈ (Outline.step v.node v.slots .done).ids := by simp [hmem]
    obtain ⟨w, hw, rfl⟩ := (Outline.mem_ids_iff {}).mp hids
    have hat := hsees.at_visit hw
    rw [Visit.outline, Tour.Sees] at hat
    obtain ⟨hn, hextent⟩ := h.mem_nodes.mp (mem_of_node? hat.1)
    refine ⟨⟨w.node, hn, rfl⟩, hextent, fun hroot => ?_⟩
    exact (List.nodup_cons.mp hnd).1 (List.mem_append_left _ (hroot ▸ hmem))
  · rintro ⟨hn, hextent, hne⟩
    obtain ⟨r, hr, hin⟩ := h.exists_route hv ht hextent
    obtain ⟨w, hw, hwid⟩ := exists_visit_of_sees (h.valid hv) hsees (h.route hv ht hr hin)
    have hids := (Outline.mem_ids_iff {}).mpr ⟨w, hw, hwid⟩
    rw [Outline.ids_step, hid] at hids
    simpa [hne] using hids

/-- Every node of what is cut out has its place. -/
theorem complete {v : Visit} (hvis : v ∈ g.visits limit) (hid : v.node.id = root) :
    (g'.outlineIds limit).Perm g'.ids := by
  refine outlineIds_perm_iff.mpr fun id hmem => ?_
  obtain ⟨n, hn, rfl⟩ := List.mem_map.mp hmem
  obtain ⟨hn, hextent⟩ := h.mem_nodes.mp hn
  rw [outlineIds, h.outline_eq hv ht hvis hid, List.flatMap_singleton, Outline.ids_step, hid]
  by_cases hroot : n.id = root
  · rw [hroot]
    exact List.mem_cons_self
  · refine List.mem_cons_of_mem _ (List.mem_append_left _ ?_)
    exact (h.mem_slotIds_iff hv ht hvis hid).mpr ⟨⟨n, hn, rfl⟩, hextent, hroot⟩

end CutOut

end Graph

end Blockflow
