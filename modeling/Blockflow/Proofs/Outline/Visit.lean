import Blockflow.Proofs.Outline.Walk
import Mathlib.Data.List.Perm.Basic
import Mathlib.Data.List.Forall2
import Mathlib.Data.List.Pairwise

/-!
# Visits

An outline without faults is determined by the graph alone: what stands behind an exit is the chain
from the node that the exit leads to. `Tour.Sees` says so, without the nodes that were placed before
and without the path.

A `Visit` is a node of an outline together with its place. The visits of a graph that is toured
without faults have three properties on which everything else rests: an exit that leads somewhere
leads to a visit (`Flawless.exists_behind`), every visit is come to from an entry point
(`Flawless.visits_induction`), and no node is come to in two ways (`Flawless.target_unique` and
`Flawless.target_ne_entry`).
-/

namespace Blockflow

/-- The roles of all exits of a node, in the order in which the walk takes them. -/
def Node.exitRoles (n : Node) : List Role := n.slotRoles ++ [.next]

/-! ## Outlines without faults -/

mutual

/-- The walk met no fault. -/
def Outline.Faultless : Outline → Prop
  | .done => True
  | .fault _ _ => False
  | .missing _ => False
  | .step _ slots next => Outline.SlotsFaultless slots ∧ next.Faultless

def Outline.SlotsFaultless : List (Role × Outline) → Prop
  | [] => True
  | (_, o) :: rest => o.Faultless ∧ Outline.SlotsFaultless rest

end

namespace Tour

mutual

/-- What there is to see from a place, where `start` is the node that an exit leads to. -/
def Sees (t : Tour) (p : Place) : Option String → Outline → Prop
  | none, .done => True
  | some start, .step n slots next =>
    t.graph.node? start = some n ∧ slots.map Prod.fst = n.slotRoles ∧ t.SeesSlots p n slots ∧
      t.Sees p (t.target p n .next) next
  | _, _ => False

/-- What there is to see behind some exits of a node. -/
def SeesSlots (t : Tour) (p : Place) (n : Node) : List (Role × Outline) → Prop
  | [] => True
  | (role, o) :: rest =>
    t.Admits p n role ∧ t.Sees (p.inside n) (t.target p n role) o ∧ t.SeesSlots p n rest

end

variable {t : Tour}

mutual

/-- A walk without a fault has gone where there is something to see. -/
theorem Walks.sees {path placed placed' : List String} {p : Place} {start : Option String}
    {o : Outline} (h : t.Walks path p placed start o placed') (hf : o.Faultless) :
    t.Sees p start o := by
  cases h with
  | stop => simp [Sees]
  | cycle _ => exact hf.elim
  | again _ _ => exact hf.elim
  | missing _ _ _ => exact hf.elim
  | enter _ _ hn hslots hnext =>
    obtain ⟨hroles, hsees⟩ := hslots.sees hf.1
    rw [Sees]
    exact ⟨hn, hroles, hsees, hnext.sees hf.2⟩

/-- Walks without a fault behind exits have gone through all of the exits. -/
theorem WalksSlots.sees {path placed placed' : List String} {p : Place} {n : Node}
    {roles : List Role} {slots : List (Role × Outline)}
    (h : t.WalksSlots path p n placed roles slots placed') (hf : Outline.SlotsFaultless slots) :
    slots.map Prod.fst = roles ∧ t.SeesSlots p n slots := by
  cases h with
  | nil => exact ⟨rfl, trivial⟩
  | refused _ _ => exact hf.1.elim
  | admitted hadm hwalk hrest =>
    obtain ⟨hroles, hsees⟩ := hrest.sees hf.2
    refine ⟨by rw [List.map_cons, hroles], ?_⟩
    rw [SeesSlots]
    exact ⟨hadm, hwalk.sees hf.1, hsees⟩

end

/-- Walks without a fault have gone from all of the entry points. -/
theorem WalksFrom.sees {placed placed' starts : List String} {os : List Outline}
    (h : t.WalksFrom placed starts os placed') (hf : ∀ o ∈ os, o.Faultless) :
    List.Forall₂ (fun start o => t.Sees {} (some start) o) starts os := by
  induction h with
  | nil => exact .nil
  | cons hwalk _ ih =>
    refine .cons (hwalk.sees (hf _ List.mem_cons_self)) (ih ?_)
    exact fun o ho => hf o (List.mem_cons_of_mem _ ho)

end Tour

/-! ## The visits of an outline -/

/-- A node of an outline: where it stands, what is behind its exits and the rest of its chain. -/
structure Visit where
  place : Place
  node : Node
  slots : List (Role × Outline)
  next : Outline

namespace Visit

/-- The outline that starts with the visit. -/
def outline (v : Visit) : Outline := .step v.node v.slots v.next

/-- What stands behind an exit of a visited node. -/
def Behind (v : Visit) (role : Role) (o : Outline) : Prop :=
  (role, o) ∈ v.slots ∨ role = .next ∧ o = v.next

end Visit

namespace Outline

mutual

/-- The visits of an outline that stands at a place, depth first. -/
def visits (p : Place) : Outline → List Visit
  | .step n slots next => ⟨p, n, slots, next⟩ :: (slotVisits (p.inside n) slots ++ next.visits p)
  | _ => []

/-- The visits behind some exits. -/
def slotVisits (p : Place) : List (Role × Outline) → List Visit
  | [] => []
  | (_, o) :: rest => o.visits p ++ slotVisits p rest

end

@[simp] theorem visits_done (p : Place) : visits p .done = [] := rfl

mutual

/-- The visits have the nodes of the outline, wherever it stands. -/
theorem map_node_visits : ∀ (o : Outline) (p : Place), (o.visits p).map Visit.node = o.nodes
  | .done, _ => rfl
  | .fault _ _, _ => rfl
  | .missing _, _ => rfl
  | .step n slots next, p => by
    rw [visits, nodes, List.map_cons, List.map_append, map_node_slotVisits slots,
      map_node_visits next]

theorem map_node_slotVisits : ∀ (slots : List (Role × Outline)) (p : Place),
    (slotVisits p slots).map Visit.node = slotNodes slots
  | [], _ => rfl
  | (_, o) :: rest, p => by
    rw [slotVisits, slotNodes, List.map_append, map_node_visits o, map_node_slotVisits rest]

end

mutual

/-- The visits below a visit are visits. -/
theorem visits_trans : ∀ (o : Outline) (p : Place) {v : Visit}, v ∈ o.visits p →
    v.outline.visits v.place ⊆ o.visits p
  | .done, _, _, h => absurd h List.not_mem_nil
  | .fault _ _, _, _, h => absurd h List.not_mem_nil
  | .missing _, _, _, h => absurd h List.not_mem_nil
  | .step n slots next, p, v, h => by
    rw [visits] at h
    rcases List.mem_cons.mp h with rfl | h
    · exact List.Subset.refl _
    rw [visits]
    refine List.subset_cons_of_subset _ ?_
    rcases List.mem_append.mp h with h | h
    · exact List.subset_append_of_subset_left _ (slotVisits_trans slots (p.inside n) h)
    · exact List.subset_append_of_subset_right _ (visits_trans next p h)

/-- The same behind the exits of a node. -/
theorem slotVisits_trans : ∀ (slots : List (Role × Outline)) (p : Place) {v : Visit},
    v ∈ slotVisits p slots → v.outline.visits v.place ⊆ slotVisits p slots
  | [], _, _, h => absurd h List.not_mem_nil
  | (_, o) :: rest, p, v, h => by
    rw [slotVisits] at h ⊢
    rcases List.mem_append.mp h with h | h
    · exact List.subset_append_of_subset_left _ (visits_trans o p h)
    · exact List.subset_append_of_subset_right _ (slotVisits_trans rest p h)

end

/-- The visits behind one exit are among those behind all of them. -/
theorem visits_subset_slotVisits {role : Role} {o : Outline} :
    ∀ {slots : List (Role × Outline)} (p : Place), (role, o) ∈ slots →
      o.visits p ⊆ slotVisits p slots
  | [], _, h => absurd h List.not_mem_nil
  | (role', o') :: rest, p, h => by
    rw [slotVisits]
    rcases List.mem_cons.mp h with h | h
    · cases h
      exact List.subset_append_left _ _
    · exact List.subset_append_of_subset_right _ (visits_subset_slotVisits p h)

end Outline

/-! ## What is seen at a visit -/

namespace Tour

variable {t : Tour}

/-- All nodes that the exits of a visited node lead to. -/
def targetsAt (t : Tour) (v : Visit) : List String :=
  v.node.exitRoles.flatMap fun role => (t.target v.place v.node role).toList

/-- A visit leads to the targets of its exits. -/
theorem mem_targetsAt {v : Visit} {id : String} :
    id ∈ t.targetsAt v ↔ ∃ role ∈ v.node.exitRoles, t.target v.place v.node role = some id := by
  simp [targetsAt]

theorem SeesSlots.admits {p : Place} {n : Node} {role : Role} {o : Outline} :
    ∀ {slots : List (Role × Outline)}, t.SeesSlots p n slots → (role, o) ∈ slots →
      t.Admits p n role ∧ t.Sees (p.inside n) (t.target p n role) o
  | [], _, h => absurd h List.not_mem_nil
  | (role', o') :: rest, hs, h => by
    rw [SeesSlots] at hs
    rcases List.mem_cons.mp h with h | h
    · cases h
      exact ⟨hs.1, hs.2.1⟩
    · exact hs.2.2.admits h

mutual

/-- At every visit there is to see what its outline says. -/
theorem Sees.at_visit : ∀ {o : Outline} {p : Place} {start : Option String}, t.Sees p start o →
    ∀ {v : Visit}, v ∈ o.visits p → t.Sees v.place (some v.node.id) v.outline
  | .done, _, _, _, _, h => absurd h List.not_mem_nil
  | .fault _ _, _, _, _, _, h => absurd h List.not_mem_nil
  | .missing _, _, _, _, _, h => absurd h List.not_mem_nil
  | .step n slots next, p, none, hs, _, _ => by simp [Sees] at hs
  | .step n slots next, p, some start, hs, v, h => by
    rw [Outline.visits] at h
    rcases List.mem_cons.mp h with rfl | h
    · show t.Sees p (some n.id) (.step n slots next)
      rw [Sees] at hs
      rw [Graph.id_of_node? hs.1, Sees]
      exact hs
    rw [Sees] at hs
    rcases List.mem_append.mp h with h | h
    · exact hs.2.2.1.at_visit h
    · exact hs.2.2.2.at_visit h

/-- At each visit behind exits, there is to see what the outline has there. -/
theorem SeesSlots.at_visit : ∀ {slots : List (Role × Outline)} {p : Place} {n : Node},
    t.SeesSlots p n slots → ∀ {v : Visit}, v ∈ Outline.slotVisits (p.inside n) slots →
      t.Sees v.place (some v.node.id) v.outline
  | [], _, _, _, _, h => absurd h List.not_mem_nil
  | (role, o) :: rest, p, n, hs, v, h => by
    rw [SeesSlots] at hs
    rw [Outline.slotVisits] at h
    rcases List.mem_append.mp h with h | h
    · exact hs.2.1.at_visit h
    · exact hs.2.2.at_visit h

end

/-- A chain begins with a visit of the node that it starts from. -/
theorem Sees.exists_outline {p : Place} {start : String} {o : Outline}
    (h : t.Sees p (some start) o) :
    ∃ v : Visit, v.node.id = start ∧ v.place = p ∧ v.outline = o ∧ v ∈ o.visits p := by
  cases o with
  | step n slots next =>
    rw [Sees] at h
    refine ⟨⟨p, n, slots, next⟩, Graph.id_of_node? h.1, rfl, rfl, ?_⟩
    rw [Outline.visits]
    exact List.mem_cons_self
  | done => simp [Sees] at h
  | fault _ _ => simp [Sees] at h
  | missing _ => simp [Sees] at h

/-- Where an exit leads nowhere there is nothing to see. -/
theorem Sees.eq_done {p : Place} {o : Outline} (h : t.Sees p none o) : o = .done := by
  cases o with
  | done => rfl
  | fault _ _ => simp [Sees] at h
  | missing _ => simp [Sees] at h
  | step _ _ _ => simp [Sees] at h

/-- Behind an exit of a visited node is what there is to see from where the exit leads. -/
theorem Sees.of_behind {v : Visit} (h : t.Sees v.place (some v.node.id) v.outline) {role : Role}
    {o : Outline} (hb : v.Behind role o) :
    t.Sees (v.place.behind v.node role) (t.target v.place v.node role) o := by
  rw [Visit.outline, Sees] at h
  rcases hb with hslot | ⟨rfl, rfl⟩
  · have hrole : role ∈ v.node.slotRoles := by
      rw [← h.2.1]
      exact List.mem_map_of_mem hslot
    rw [Place.behind_of_ne _ _ (Node.ne_next_of_mem_slotRoles hrole)]
    exact (h.2.2.1.admits hslot).2
  · rw [Place.behind_next]
    exact h.2.2.2

/-- Something stands behind every exit of a visited node. -/
theorem Sees.exists_behind {v : Visit} (h : t.Sees v.place (some v.node.id) v.outline)
    {role : Role} (hrole : role ∈ v.node.exitRoles) :
    ∃ o, v.Behind role o ∧
      o.visits (v.place.behind v.node role) ⊆ v.outline.visits v.place := by
  rw [Visit.outline, Sees] at h
  rw [Visit.outline, Outline.visits]
  rcases List.mem_append.mp hrole with hslot | hnext
  · rw [Place.behind_of_ne _ _ (Node.ne_next_of_mem_slotRoles hslot)]
    rw [← h.2.1] at hslot
    obtain ⟨⟨role', o⟩, hmem, rfl⟩ := List.mem_map.mp hslot
    refine ⟨o, Or.inl hmem, List.subset_cons_of_subset _ ?_⟩
    exact List.subset_append_of_subset_left _ (Outline.visits_subset_slotVisits _ hmem)
  · rw [List.mem_singleton.mp hnext, Place.behind_next]
    refine ⟨v.next, Or.inr ⟨rfl, rfl⟩, List.subset_cons_of_subset _ ?_⟩
    exact List.subset_append_right _ _

mutual

/-- Whatever holds at the start and is handed on through the exits holds at every visit. -/
theorem Sees.visits_induction {I : String → Place → Prop} {all : List Visit}
    (hstep : ∀ v ∈ all, I v.node.id v.place → ∀ role ∈ v.node.exitRoles, ∀ id,
      t.target v.place v.node role = some id → I id (v.place.behind v.node role)) :
    ∀ {o : Outline} {p : Place} {start : Option String}, t.Sees p start o → o.visits p ⊆ all →
      (∀ id, start = some id → I id p) → ∀ v ∈ o.visits p, I v.node.id v.place
  | .done, _, _, _, _, _, _, h => absurd h List.not_mem_nil
  | .fault _ _, _, _, _, _, _, _, h => absurd h List.not_mem_nil
  | .missing _, _, _, _, _, _, _, h => absurd h List.not_mem_nil
  | .step n slots next, p, none, hs, _, _, _, _ => by simp [Sees] at hs
  | .step n slots next, p, some start, hs, hall, hstart, v, hv => by
    rw [Sees] at hs
    rw [Outline.visits] at hall hv
    obtain ⟨hmem, hsub⟩ := List.cons_subset.mp hall
    obtain ⟨hsubSlots, hsubNext⟩ := List.append_subset.mp hsub
    have hhere : I n.id p := by
      rw [Graph.id_of_node? hs.1]
      exact hstart start rfl
    -- the visit is the first one, or behind an exit of it, or in the rest of the chain
    rcases List.mem_cons.mp hv with rfl | hv
    · exact hhere
    rcases List.mem_append.mp hv with hv | hv
    · refine SeesSlots.visits_induction hstep hs.2.2.1 hsubSlots ?_ v hv
      intro role hrole id hid
      have hslot : role ∈ n.slotRoles := by rw [← hs.2.1]; exact hrole
      have := hstep _ hmem hhere role (List.mem_append_left _ hslot) id hid
      rwa [Place.behind_of_ne _ _ (Node.ne_next_of_mem_slotRoles hslot)] at this
    · refine Sees.visits_induction hstep hs.2.2.2 hsubNext ?_ v hv
      intro id hid
      have := hstep _ hmem hhere .next (List.mem_append_right _ List.mem_cons_self) id hid
      rwa [Place.behind_next] at this

/-- The induction goes through the exits of a node. -/
theorem SeesSlots.visits_induction {I : String → Place → Prop} {all : List Visit}
    (hstep : ∀ v ∈ all, I v.node.id v.place → ∀ role ∈ v.node.exitRoles, ∀ id,
      t.target v.place v.node role = some id → I id (v.place.behind v.node role)) :
    ∀ {slots : List (Role × Outline)} {p : Place} {n : Node}, t.SeesSlots p n slots →
      Outline.slotVisits (p.inside n) slots ⊆ all →
      (∀ role ∈ slots.map Prod.fst, ∀ id, t.target p n role = some id → I id (p.inside n)) →
      ∀ v ∈ Outline.slotVisits (p.inside n) slots, I v.node.id v.place
  | [], _, _, _, _, _, _, h => absurd h List.not_mem_nil
  | (role, o) :: rest, p, n, hs, hall, hstart, v, hv => by
    rw [SeesSlots] at hs
    rw [Outline.slotVisits] at hall hv
    obtain ⟨hsubHere, hsubRest⟩ := List.append_subset.mp hall
    rcases List.mem_append.mp hv with hv | hv
    · exact Sees.visits_induction hstep hs.2.1 hsubHere
        (hstart role (List.mem_cons_self)) v hv
    · exact SeesSlots.visits_induction hstep hs.2.2 hsubRest
        (fun r hr => hstart r (List.mem_cons_of_mem _ hr)) v hv

end

mutual

/-- Every node of an outline is the start or is what an exit of a visited node leads to, and each as
often as it is in the outline. -/
theorem Sees.count_ids (id : String) : ∀ {o : Outline} {p : Place} {start : Option String},
    t.Sees p start o →
      o.ids.count id = start.toList.count id + ((o.visits p).flatMap t.targetsAt).count id
  | .done, _, none, _ => rfl
  | .done, _, some _, hs => by simp [Sees] at hs
  | .fault _ _, _, _, hs => by simp [Sees] at hs
  | .missing _, _, _, hs => by simp [Sees] at hs
  | .step n slots next, p, none, hs => by simp [Sees] at hs
  | .step n slots next, p, some start, hs => by
    rw [Sees] at hs
    have hslots := SeesSlots.count_ids id hs.2.2.1
    have hnext := Sees.count_ids id hs.2.2.2
    -- the targets of the visit itself are the starts of what stands behind its exits
    rw [hs.2.1] at hslots
    rw [Outline.ids_step, Outline.visits, Graph.id_of_node? hs.1, List.flatMap_cons,
      List.flatMap_append, targetsAt, Node.exitRoles, List.flatMap_append]
    simp only [List.count_cons, List.count_append, List.flatMap_cons, List.flatMap_nil,
      List.append_nil, Option.toList_some, List.count_nil]
    omega

/-- The count goes through the exits of a node. -/
theorem SeesSlots.count_ids (id : String) :
    ∀ {slots : List (Role × Outline)} {p : Place} {n : Node}, t.SeesSlots p n slots →
      (Outline.slotIds slots).count id =
        ((slots.map Prod.fst).flatMap fun role => (t.target p n role).toList).count id +
          ((Outline.slotVisits (p.inside n) slots).flatMap t.targetsAt).count id
  | [], _, _, _ => rfl
  | (role, o) :: rest, p, n, hs => by
    rw [SeesSlots] at hs
    have hhere := Sees.count_ids id hs.2.1
    have hrest := SeesSlots.count_ids id hs.2.2
    rw [Outline.slotIds_cons, Outline.slotVisits, List.map_cons, List.flatMap_cons,
      List.flatMap_append]
    simp only [List.count_append]
    omega

end

/-- The same for the outlines from several starts. -/
theorem count_outlineIds (id : String) {starts : List String} {os : List Outline}
    (h : List.Forall₂ (fun start o => t.Sees {} (some start) o) starts os) :
    (os.flatMap Outline.ids).count id =
      (starts ++ (os.flatMap (Outline.visits {})).flatMap t.targetsAt).count id := by
  induction h with
  | nil => rfl
  | cons hs _ ih =>
    have hhere := hs.count_ids id
    simp only [List.flatMap_cons, List.flatMap_append, List.cons_append, List.count_cons,
      List.count_append, Option.toList_some, List.count_nil] at hhere ih ⊢
    omega

end Tour

/-! ## Complete tours -/

theorem forall₂_exists_left {α β : Type} {R : α → β → Prop} {as : List α} {bs : List β}
    (h : List.Forall₂ R as bs) {b : β} (hb : b ∈ bs) : ∃ a ∈ as, R a b := by
  induction h with
  | nil => exact absurd hb List.not_mem_nil
  | cons hr _ ih =>
    rcases List.mem_cons.mp hb with rfl | hb
    · exact ⟨_, List.mem_cons_self, hr⟩
    · obtain ⟨a, ha, hab⟩ := ih hb
      exact ⟨a, List.mem_cons_of_mem _ ha, hab⟩

/-- In a list without repetitions that is put together from parts, a member is in one part only. -/
theorem eq_of_nodup_flatMap {α β : Type} {f : α → List β} {l : List α} (h : (l.flatMap f).Nodup)
    {a b : α} (ha : a ∈ l) (hb : b ∈ l) {x : β} (hxa : x ∈ f a) (hxb : x ∈ f b) : a = b := by
  have hsymm : Std.Symm (Function.onFun List.Disjoint f) := ⟨fun _ _ hd _ hx hy => hd hy hx⟩
  by_contra hne
  exact (List.nodup_flatMap.mp h).2.forall ha hb hne hxa hxb

namespace Graph

/-- The visits of a graph, chain by chain. -/
def visits (g : Graph) (limit : Int) : List Visit :=
  (g.outline limit).1.flatMap (Outline.visits {})

variable {g : Graph} {limit : Int}

/-- The visits are of the nodes of the outline, in its order. -/
theorem map_id_visits (g : Graph) (limit : Int) :
    (g.visits limit).map (fun v => v.node.id) = g.outlineIds limit := by
  rw [outlineIds_eq, outlineNodes, visits, List.map_flatMap, List.map_flatMap]
  refine congrArg (List.flatMap · _) (funext fun o => ?_)
  rw [← o.map_node_visits {}, List.map_map]
  rfl

/-- No node is visited twice. -/
theorem visits_nodup (g : Graph) (limit : Int) :
    ((g.visits limit).map fun v => v.node.id).Nodup := by
  rw [map_id_visits]
  exact g.outlineIds_nodup limit

/-- A node is visited once. -/
theorem visit_unique {v w : Visit} (hv : v ∈ g.visits limit) (hw : w ∈ g.visits limit)
    (h : v.node.id = w.node.id) : v = w :=
  List.inj_on_of_nodup_map (visits_nodup g limit) hv hw h

theorem mem_nodes_of_visit {v : Visit} (hv : v ∈ g.visits limit) : v.node ∈ g.nodes := by
  obtain ⟨o, ho, hvo⟩ := List.mem_flatMap.mp hv
  refine g.outlineNodes_subset limit (List.mem_flatMap.mpr ⟨o, ho, ?_⟩)
  rw [← o.map_node_visits {}]
  exact List.mem_map_of_mem hvo

/-- The visits below a visit are visits of the graph. -/
theorem outline_visits_subset {v : Visit} (hv : v ∈ g.visits limit) :
    v.outline.visits v.place ⊆ g.visits limit := by
  intro w hw
  obtain ⟨o, ho, hvo⟩ := List.mem_flatMap.mp hv
  exact List.mem_flatMap.mpr ⟨o, ho, o.visits_trans {} hvo hw⟩

/-- The tour of the graph meets no fault. -/
structure Flawless (g : Graph) (limit : Int) : Prop where
  faultless : ∀ o ∈ (g.outline limit).1, o.Faultless

namespace Flawless

/-- An outline without faults has what there is to see from the entry points. -/
theorem sees (hf : g.Flawless limit) :
    List.Forall₂ (fun start o => (g.tour limit).Sees {} (some start) o) g.entryPoints
      (g.outline limit).1 :=
  (g.outline_walksFrom limit).sees hf.faultless

/-- At each visit there is to see what the outline has there. -/
theorem sees_at (hf : g.Flawless limit) {v : Visit} (hv : v ∈ g.visits limit) :
    (g.tour limit).Sees v.place (some v.node.id) v.outline := by
  obtain ⟨o, ho, hvo⟩ := List.mem_flatMap.mp hv
  obtain ⟨start, -, hs⟩ := forall₂_exists_left hf.sees ho
  exact hs.at_visit hvo

/-- The entry points are visited, and nothing is around them. -/
theorem exists_entry (hf : g.Flawless limit) {start : String} (hs : start ∈ g.entryPoints) :
    ∃ v ∈ g.visits limit, v.node.id = start ∧ v.place = {} := by
  obtain ⟨o, ho, hso⟩ := forall₂_exists_left hf.sees.flip hs
  obtain ⟨v, hid, hplace, -, hv⟩ := hso.exists_outline
  exact ⟨v, List.mem_flatMap.mpr ⟨o, ho, hv⟩, hid, hplace⟩

/-- **An exit that leads somewhere leads to a visit, and that is what stands behind it.** -/
theorem exists_behind (hf : g.Flawless limit) {v : Visit} (hv : v ∈ g.visits limit) {role : Role}
    (hrole : role ∈ v.node.exitRoles) {id : String}
    (hid : (g.tour limit).target v.place v.node role = some id) :
    ∃ w ∈ g.visits limit, w.node.id = id ∧ w.place = v.place.behind v.node role ∧
      v.Behind role w.outline := by
  obtain ⟨o, hbehind, hsub⟩ := (hf.sees_at hv).exists_behind hrole
  have hsees := (hf.sees_at hv).of_behind hbehind
  rw [hid] at hsees
  obtain ⟨w, hwid, hplace, rfl, hw⟩ := hsees.exists_outline
  exact ⟨w, outline_visits_subset hv (hsub hw), hwid, hplace, hbehind⟩

/-- **Every visit is come to from an entry point.** Whatever holds at the entry points and is handed
on through the exits holds at every visit. -/
theorem visits_induction (hf : g.Flawless limit) {I : String → Place → Prop}
    (hentry : ∀ start ∈ g.entryPoints, I start {})
    (hstep : ∀ v ∈ g.visits limit, I v.node.id v.place → ∀ role ∈ v.node.exitRoles, ∀ id,
      (g.tour limit).target v.place v.node role = some id → I id (v.place.behind v.node role)) :
    ∀ v ∈ g.visits limit, I v.node.id v.place := by
  intro v hv
  obtain ⟨o, ho, hvo⟩ := List.mem_flatMap.mp hv
  obtain ⟨start, hstart, hs⟩ := forall₂_exists_left hf.sees ho
  refine hs.visits_induction hstep (fun w hw => List.mem_flatMap.mpr ⟨o, ho, hw⟩) ?_ v hvo
  intro id hid
  cases hid
  exact hentry start hstart

/-- Every node is an entry point or is what an exit leads to, and only once. -/
theorem starts_nodup (hf : g.Flawless limit) :
    (g.entryPoints ++ (g.visits limit).flatMap (g.tour limit).targetsAt).Nodup := by
  -- a node is started from as often as it is in the outline, and that is once at most
  refine List.nodup_iff_count_le_one.mpr fun id => ?_
  rw [visits, ← Tour.count_outlineIds id hf.sees]
  exact List.nodup_iff_count_le_one.mp (g.outlineIds_nodup limit) id

/-- **No exit leads to an entry point.** -/
theorem target_ne_entry (hf : g.Flawless limit) {v : Visit} (hv : v ∈ g.visits limit) {role : Role}
    (hrole : role ∈ v.node.exitRoles) {id : String}
    (hid : (g.tour limit).target v.place v.node role = some id) : id ∉ g.entryPoints := by
  intro hentry
  obtain ⟨-, -, hdisj⟩ := List.nodup_append.mp hf.starts_nodup
  exact hdisj id hentry id
    (List.mem_flatMap.mpr ⟨v, hv, Tour.mem_targetsAt.mpr ⟨role, hrole, hid⟩⟩) rfl

/-- **No two exits lead to one node.** -/
theorem target_unique (hf : g.Flawless limit) {v w : Visit} (hv : v ∈ g.visits limit)
    (hw : w ∈ g.visits limit) {role role' : Role} (hrole : role ∈ v.node.exitRoles)
    (hrole' : role' ∈ w.node.exitRoles) {id : String}
    (hid : (g.tour limit).target v.place v.node role = some id)
    (hid' : (g.tour limit).target w.place w.node role' = some id) : v = w ∧ role = role' := by
  obtain ⟨-, hnd, -⟩ := List.nodup_append.mp hf.starts_nodup
  obtain rfl := eq_of_nodup_flatMap hnd hv hw (Tour.mem_targetsAt.mpr ⟨role, hrole, hid⟩)
    (Tour.mem_targetsAt.mpr ⟨role', hrole', hid'⟩)
  have hinner := (List.nodup_flatMap.mp hnd).1 v hv
  exact ⟨rfl, eq_of_nodup_flatMap hinner hrole hrole' (Option.mem_toList.mpr hid)
    (Option.mem_toList.mpr hid')⟩

end Flawless

/-- The tour of the graph meets no fault and leaves no node out. -/
structure Toured (g : Graph) (limit : Int) : Prop extends Flawless g limit where
  complete : (g.outlineIds limit).Perm g.ids

/-- Every node is visited. -/
theorem Toured.exists_visit (ht : g.Toured limit) {n : Node} (hn : n ∈ g.nodes) :
    ∃ v ∈ g.visits limit, v.node = n := by
  have hid : n.id ∈ (g.visits limit).map fun v => v.node.id := by
    rw [map_id_visits]
    exact ht.complete.mem_iff.mpr (List.mem_map_of_mem hn)
  obtain ⟨v, hv, hvn⟩ := List.mem_map.mp hid
  exact ⟨v, hv, List.inj_on_of_nodup_map g.nodup (mem_nodes_of_visit hv) hn hvn⟩

end Graph

end Blockflow
