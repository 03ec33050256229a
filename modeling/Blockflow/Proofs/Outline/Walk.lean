import Blockflow.Program.Assembly
import Mathlib.Data.List.Nodup

/-!
# What a walk through a graph does

`Tour.chain` is a recursion over the nodes that are not on the path. Here it is said once what such
a walk can do, as a relation with one rule for every way in which it can go on: `Tour.Walks` for a
chain and `Tour.WalksSlots` for the exits of a node. Everything that is proved about outlines is
proved by induction on these rules.

A `Place` holds what a chain inherits from the blocks around it.
-/

namespace Blockflow

/-! ## Places -/

/-- Where a chain stands: the loops around it, how many blocks are around it, and whether it is the
body of a class. -/
structure Place where
  loops : List String := []
  depth : Nat := 0
  inClass : Bool := false

/-- Are the blocks behind the exits of a node parts of a class body? -/
def Node.innerClass (n : Node) (inClass : Bool) : Bool :=
  match n.block? with
  | some .function => false
  | some .classDef => true
  | _ => inClass

/-- The blocks inside of a node are in a class if the node is one, or is in one and is no
function. -/
theorem Node.innerClass_eq_true {n : Node} {inClass : Bool} (h : n.innerClass inClass = true) :
    n.block? = some .classDef ∨ inClass = true ∧ n.block? ≠ some .function := by
  unfold innerClass at h
  split at h
  next => cases h
  next hb => exact Or.inl hb
  next hfunction _ => exact Or.inr ⟨h, hfunction⟩

namespace Place

/-- The place of the blocks inside of a node. -/
def inside (p : Place) (n : Node) : Place :=
  { loops := n.enclosing p.loops, depth := p.depth + 1, inClass := n.innerClass p.inClass }

/-- The place behind an exit: `next` leads on in the same place, every other exit leads inside. -/
def behind (p : Place) (n : Node) (role : Role) : Place :=
  if role = .next then p else p.inside n

@[simp] theorem behind_next (p : Place) (n : Node) : p.behind n .next = p := by simp [behind]

theorem behind_of_ne {role : Role} (p : Place) (n : Node) (h : role ≠ .next) :
    p.behind n role = p.inside n := by simp [behind, h]

end Place

theorem BlockType.next_notMem_slotRoles (type : BlockType) (cases : List String) :
    Role.next ∉ type.slotRoles cases := by
  cases type <;> simp [BlockType.slotRoles, List.mem_mapIdx]

/-- A block type has no exit twice. -/
theorem BlockType.slotRoles_nodup (type : BlockType) (cases : List String) :
    (type.slotRoles cases).Nodup := by
  cases type with
  | switch =>
    have hcases : cases.mapIdx (fun i _ => Role.case i) = (List.range cases.length).map Role.case :=
      List.ext_getElem (by simp) (by simp)
    rw [slotRoles, hcases, List.nodup_append]
    refine ⟨List.nodup_range.map fun _ _ h => by cases h; rfl, by simp, ?_⟩
    simp
  | _ => simp [slotRoles]

theorem Node.slotRoles_nodup (n : Node) : n.slotRoles.Nodup := by
  unfold slotRoles
  split
  · exact List.nodup_nil
  · exact BlockType.slotRoles_nodup _ _

theorem Node.ne_next_of_mem_slotRoles {n : Node} {role : Role} (h : role ∈ n.slotRoles) :
    role ≠ .next := by
  rintro rfl
  unfold Node.slotRoles at h
  split at h
  · simp at h
  · exact BlockType.next_notMem_slotRoles _ _ h

/-- Only the first exit of a branch has to have an edge. -/
theorem Node.requires_iff {n : Node} {role : Role} :
    n.requires role = true ↔ n.block? = some .branch ∧ role = .whenTrue := by
  unfold requires
  cases n.block? with
  | none => simp
  | some type => cases type <;> simp [BlockType.exits, eq_comm]

/-! ## The rules of a walk -/

namespace Tour

/-- Where an exit of a node leads. -/
def target (t : Tour) (p : Place) (n : Node) (role : Role) : Option String :=
  (t.graph.edgeFor n.id role).bind (follow t.back (p.behind n role).loops)

/-- The walk may go through an exit: an edge that is required is there, and the block behind the
exit is not too deep. -/
def Admits (t : Tour) (p : Place) (n : Node) (role : Role) : Prop :=
  (t.graph.edgeFor n.id role = none → n.requires role = false) ∧
    ((t.target p n role).isSome → (p.depth : Int) + 1 ≤ t.limit)

mutual

/-- A walk along a chain. It has the nodes of `path` behind it and around it; it goes from the nodes
that have been placed before to those that have been placed after it. -/
inductive Walks (t : Tour) :
    List String → Place → List String → Option String → Outline → List String → Prop where
  | stop {path p placed} : t.Walks path p placed none .done placed
  | cycle {path p placed start} : start ∈ path →
      t.Walks path p placed (some start) (.fault start .cycle) placed
  | again {path p placed start} : start ∉ path → start ∈ placed →
      t.Walks path p placed (some start) (.fault start .reachedTwice) placed
  | missing {path p placed start} : start ∉ path → start ∉ placed →
      t.graph.node? start = none → t.Walks path p placed (some start) (.missing start) placed
  | enter {path p placed start n slots placed₁ next placed₂} : start ∉ path → start ∉ placed →
      t.graph.node? start = some n →
      t.WalksSlots (start :: path) p n (start :: placed) n.slotRoles slots placed₁ →
      t.Walks (start :: path) p placed₁ (t.target p n .next) next placed₂ →
      t.Walks path p placed (some start) (.step n slots next) placed₂

/-- A walk through the exits of a node other than `next`, one after the other. -/
inductive WalksSlots (t : Tour) :
    List String → Place → Node → List String → List Role → List (Role × Outline) → List String →
      Prop where
  | nil {path p n placed} : t.WalksSlots path p n placed [] [] placed
  | refused {path p n placed role rest fault slots placed'} : ¬ t.Admits p n role →
      t.WalksSlots path p n placed rest slots placed' →
      t.WalksSlots path p n placed (role :: rest) ((role, .fault n.id fault) :: slots) placed'
  | admitted {path p n placed role rest o placed₁ slots placed₂} : t.Admits p n role →
      t.Walks path (p.inside n) placed (t.target p n role) o placed₁ →
      t.WalksSlots path p n placed₁ rest slots placed₂ →
      t.WalksSlots path p n placed (role :: rest) ((role, o) :: slots) placed₂

end

/-- The walks from the entry points, one after the other. -/
inductive WalksFrom (t : Tour) : List String → List String → List Outline → List String → Prop where
  | nil {placed} : t.WalksFrom placed [] [] placed
  | cons {placed start o placed₁ rest os placed₂} : t.Walks [] {} placed (some start) o placed₁ →
      t.WalksFrom placed₁ rest os placed₂ →
      t.WalksFrom placed (start :: rest) (o :: os) placed₂

/-! ## The walk follows the rules -/

variable {t : Tour} {path placed : List String} {p : Place} {n : Node}

/-- One exit, where `enter` follows the rules. -/
theorem slot_walksSlots {enter : List String → String → Outline × List String} {role : Role}
    (henter : ∀ placed start,
      t.Walks path (p.inside n) placed (some start) (enter placed start).1 (enter placed start).2)
    (hrole : role ≠ .next) {rest : List Role} {slots : List (Role × Outline)}
    {placed₂ : List String}
    (hrest : t.WalksSlots path p n (t.slot n (n.enclosing p.loops) p.depth enter placed role).2
      rest slots placed₂) :
    t.WalksSlots path p n placed (role :: rest)
      ((t.slot n (n.enclosing p.loops) p.depth enter placed role).1 :: slots) placed₂ := by
  have htarget : t.target p n role =
      (t.graph.edgeFor n.id role).bind (follow t.back (n.enclosing p.loops)) := by
    rw [target, p.behind_of_ne n hrole]; rfl
  unfold Tour.slot at hrest ⊢
  -- an exit is refused in two cases: a required edge is missing, or the block would be too deep
  cases he : t.graph.edgeFor n.id role with
  | none =>
    have hnone : t.target p n role = none := by rw [htarget, he]; rfl
    simp only [he] at hrest ⊢
    cases hreq : n.requires role with
    | true =>
      refine .refused ?_ hrest
      intro hadm
      rw [hadm.1 he] at hreq
      exact absurd hreq (by simp)
    | false =>
      refine .admitted ⟨fun _ => hreq, fun h => by rw [hnone] at h; simp at h⟩ ?_ hrest
      rw [hnone]
      exact .stop
  | some e =>
    have hbind : t.target p n role = follow t.back (n.enclosing p.loops) e := by
      rw [htarget, he]; rfl
    simp only [he] at hrest ⊢
    cases hf : follow t.back (n.enclosing p.loops) e with
    | none =>
      simp only [hf] at hrest ⊢
      refine .admitted ⟨fun h => by simp [he] at h, fun h => by rw [hbind, hf] at h; simp at h⟩
        ?_ hrest
      rw [hbind, hf]
      exact .stop
    | some start =>
      simp only [hf] at hrest ⊢
      by_cases hdeep : t.limit < p.depth + 1
      · rw [if_pos hdeep] at hrest ⊢
        refine .refused ?_ hrest
        intro hadm
        have := hadm.2 (by rw [hbind, hf]; rfl)
        omega
      · rw [if_neg hdeep] at hrest ⊢
        refine .admitted ⟨fun h => by simp [he] at h, fun _ => by omega⟩ ?_ hrest
        rw [hbind, hf]
        exact henter placed start

/-- All exits, where `enter` follows the rules. -/
theorem mapAccum_slot_walksSlots (path : List String) (p : Place) (n : Node)
    {enter : List String → String → Outline × List String}
    (henter : ∀ placed start,
      t.Walks path (p.inside n) placed (some start) (enter placed start).1 (enter placed start).2) :
    ∀ (roles : List Role) (placed : List String), (∀ role ∈ roles, role ≠ .next) →
      t.WalksSlots path p n placed roles
        (mapAccum (t.slot n (n.enclosing p.loops) p.depth enter) placed roles).1
        (mapAccum (t.slot n (n.enclosing p.loops) p.depth enter) placed roles).2 := by
  intro roles
  induction roles with
  | nil => intro placed _; exact .nil
  | cons role rest ih =>
    intro placed hroles
    have hrest := ih (t.slot n (n.enclosing p.loops) p.depth enter placed role).2
      (fun r hr => hroles r (List.mem_cons_of_mem _ hr))
    exact slot_walksSlots henter (hroles role List.mem_cons_self) hrest

/-- **A chain is what a walk by the rules sees.** -/
theorem chain_walks (t : Tour) (path : List String) (p : Place) (placed : List String)
    (start : String) :
    t.Walks path p placed (some start) (t.chain path p.loops p.depth placed start).1
      (t.chain path p.loops p.depth placed start).2 := by
  -- by induction on the number of nodes off the path, as the walk itself
  induction hm : t.graph.offPath path using Nat.strongRecOn
    generalizing path p placed start with
  | _ m ih =>
    rw [Tour.chain]
    by_cases hp : path.contains start = true
    · rw [dif_pos hp]
      exact .cycle (by simpa using hp)
    rw [dif_neg hp]
    by_cases hpl : placed.contains start = true
    · rw [if_pos hpl]
      exact .again (by simpa using hp) (by simpa using hpl)
    rw [if_neg hpl]
    split
    next hn => exact .missing (by simpa using hp) (by simpa using hpl) hn
    next n hn =>
      have hlt : t.graph.offPath (start :: path) < m := by
        rw [← hm]
        exact Graph.offPath_cons_lt hn (by simpa using hp)
      have hslots := mapAccum_slot_walksSlots (start :: path) p n
        (fun placed start' => ih _ hlt (start :: path) (p.inside n) placed start' rfl)
        n.slotRoles (start :: placed) (fun _ => Node.ne_next_of_mem_slotRoles)
      have hnext : t.target p n .next =
          (t.graph.edgeFor start .next).bind (follow t.back p.loops) := by
        rw [target, Place.behind_next, show n.id = start by simpa using List.find?_some hn]
      cases hx : (t.graph.edgeFor start .next).bind (follow t.back p.loops) with
      | none =>
        refine .enter (by simpa using hp) (by simpa using hpl) hn hslots ?_
        rw [hnext, hx]
        exact .stop
      | some target =>
        refine .enter (by simpa using hp) (by simpa using hpl) hn hslots ?_
        rw [hnext, hx]
        exact ih _ hlt (start :: path) p _ target rfl

/-- What the walks by the rules see from the entry points, one after the other. -/
theorem mapAccum_chain_walksFrom (t : Tour) : ∀ (starts placed : List String),
    t.WalksFrom placed starts
      (mapAccum (fun placed start => t.chain [] [] 0 placed start) placed starts).1
      (mapAccum (fun placed start => t.chain [] [] 0 placed start) placed starts).2
  | [], _ => .nil
  | start :: rest, placed =>
    .cons (t.chain_walks [] {} placed start) (mapAccum_chain_walksFrom t rest _)

end Tour

/-- The tour that the outline of a graph is taken from. -/
def Graph.tour (g : Graph) (limit : Int) : Tour := { graph := g, back := g.backEdges, limit }

/-- The outline of a graph is what the walks from its entry points see. -/
theorem Graph.outline_walksFrom (g : Graph) (limit : Int) :
    (g.tour limit).WalksFrom [] g.entryPoints (g.outline limit).1 (g.outline limit).2 :=
  (g.tour limit).mapAccum_chain_walksFrom g.entryPoints []

/-! ## Placing nodes -/

namespace Outline

mutual

/-- The nodes of an outline, depth first. -/
def nodes : Outline → List Node
  | .step n slots next => n :: (slotNodes slots ++ next.nodes)
  | _ => []

/-- The nodes behind some exits. -/
def slotNodes : List (Role × Outline) → List Node
  | [] => []
  | (_, o) :: rest => o.nodes ++ slotNodes rest

end

/-- The ids of the nodes of an outline. -/
def ids (o : Outline) : List String := o.nodes.map Node.id

/-- The ids of the nodes behind some exits. -/
def slotIds (slots : List (Role × Outline)) : List String := (slotNodes slots).map Node.id

@[simp] theorem ids_done : ids .done = [] := rfl

@[simp] theorem ids_fault (node : String) (fault : FlowFault) : ids (.fault node fault) = [] := rfl

@[simp] theorem ids_step (n : Node) (slots : List (Role × Outline)) (next : Outline) :
    ids (.step n slots next) = n.id :: (slotIds slots ++ next.ids) := by
  simp [ids, slotIds, nodes]

@[simp] theorem slotIds_nil : slotIds [] = [] := rfl

@[simp] theorem slotIds_cons (role : Role) (o : Outline) (rest : List (Role × Outline)) :
    slotIds ((role, o) :: rest) = o.ids ++ slotIds rest := by
  simp [ids, slotIds, slotNodes]

end Outline

theorem Graph.mem_of_node? {g : Graph} {id : String} {n : Node} (h : g.node? id = some n) :
    n ∈ g.nodes := List.mem_of_find?_eq_some h

theorem Graph.id_of_node? {g : Graph} {id : String} {n : Node} (h : g.node? id = some n) :
    n.id = id := by
  simpa using List.find?_some h

namespace Tour

variable {t : Tour}

mutual

/-- A walk places the nodes that it sees. -/
theorem Walks.placed_eq {path placed placed' : List String} {p : Place} {start : Option String}
    {o : Outline} (h : t.Walks path p placed start o placed') :
    placed' = o.ids.reverse ++ placed := by
  cases h with
  | stop => rfl
  | cycle _ => rfl
  | again _ _ => rfl
  | missing _ _ _ => rfl
  | enter _ _ hn hslots hnext =>
    rw [hnext.placed_eq, hslots.placed_eq, Outline.ids_step, Graph.id_of_node? hn]
    simp

/-- The walks through the exits of a node place the nodes behind them. -/
theorem WalksSlots.placed_eq {path placed placed' : List String} {p : Place} {n : Node}
    {roles : List Role} {slots : List (Role × Outline)}
    (h : t.WalksSlots path p n placed roles slots placed') :
    placed' = (Outline.slotIds slots).reverse ++ placed := by
  cases h with
  | nil => rfl
  | refused _ hrest =>
    rw [hrest.placed_eq, Outline.slotIds_cons]
    simp
  | admitted _ hwalk hrest =>
    rw [hrest.placed_eq, hwalk.placed_eq, Outline.slotIds_cons]
    simp

end

mutual

/-- No node is placed twice. -/
theorem Walks.nodup {path placed placed' : List String} {p : Place} {start : Option String}
    {o : Outline} (h : t.Walks path p placed start o placed') (hnd : placed.Nodup) :
    placed'.Nodup := by
  cases h with
  | stop => exact hnd
  | cycle _ => exact hnd
  | again _ _ => exact hnd
  | missing _ _ _ => exact hnd
  | enter _ hfresh _ hslots hnext => exact hnext.nodup (hslots.nodup (hnd.cons hfresh))

/-- The walks through the exits of a node place no node twice. -/
theorem WalksSlots.nodup {path placed placed' : List String} {p : Place} {n : Node}
    {roles : List Role} {slots : List (Role × Outline)}
    (h : t.WalksSlots path p n placed roles slots placed') (hnd : placed.Nodup) :
    placed'.Nodup := by
  cases h with
  | nil => exact hnd
  | refused _ hrest => exact hrest.nodup hnd
  | admitted _ hwalk hrest => exact hrest.nodup (hwalk.nodup hnd)

end

mutual

/-- A walk sees nodes of the graph only. -/
theorem Walks.nodes_subset {path placed placed' : List String} {p : Place} {start : Option String}
    {o : Outline} (h : t.Walks path p placed start o placed') : o.nodes ⊆ t.graph.nodes := by
  cases h with
  | stop => exact List.nil_subset _
  | cycle _ => exact List.nil_subset _
  | again _ _ => exact List.nil_subset _
  | missing _ _ _ => exact List.nil_subset _
  | enter _ _ hn hslots hnext =>
    rw [Outline.nodes]
    refine List.cons_subset.mpr ⟨Graph.mem_of_node? hn, ?_⟩
    exact List.append_subset.mpr ⟨hslots.nodes_subset, hnext.nodes_subset⟩

/-- The walks through the exits of a node place only nodes of the graph. -/
theorem WalksSlots.nodes_subset {path placed placed' : List String} {p : Place} {n : Node}
    {roles : List Role} {slots : List (Role × Outline)}
    (h : t.WalksSlots path p n placed roles slots placed') :
    Outline.slotNodes slots ⊆ t.graph.nodes := by
  cases h with
  | nil => exact List.nil_subset _
  | refused _ hrest =>
    rw [Outline.slotNodes]
    exact hrest.nodes_subset
  | admitted _ hwalk hrest =>
    rw [Outline.slotNodes]
    exact List.append_subset.mpr ⟨hwalk.nodes_subset, hrest.nodes_subset⟩

end

/-- The walks from the entry points place the nodes of their outlines. -/
theorem WalksFrom.placed_eq {placed placed' starts : List String} {os : List Outline}
    (h : t.WalksFrom placed starts os placed') :
    placed' = (os.flatMap Outline.ids).reverse ++ placed := by
  induction h with
  | nil => rfl
  | cons hwalk _ ih =>
    rw [ih, hwalk.placed_eq]
    simp

/-- The walks from the entry points place no node twice. -/
theorem WalksFrom.nodup {placed placed' starts : List String} {os : List Outline}
    (h : t.WalksFrom placed starts os placed') (hnd : placed.Nodup) : placed'.Nodup := by
  induction h with
  | nil => exact hnd
  | cons hwalk _ ih => exact ih (hwalk.nodup hnd)

/-- The walks from the entry points place only nodes of the graph. -/
theorem WalksFrom.nodes_subset {placed placed' starts : List String} {os : List Outline}
    (h : t.WalksFrom placed starts os placed') : os.flatMap Outline.nodes ⊆ t.graph.nodes := by
  induction h with
  | nil => exact List.nil_subset _
  | cons hwalk _ ih => exact List.append_subset.mpr ⟨hwalk.nodes_subset, ih⟩

end Tour

namespace Graph

variable (g : Graph) (limit : Int)

/-- The nodes of the whole outline of a graph, chain by chain. -/
def outlineNodes : List Node := (g.outline limit).1.flatMap Outline.nodes

/-- The ids of the whole outline of a graph, chain by chain. -/
def outlineIds : List String := (g.outline limit).1.flatMap Outline.ids

/-- The outline reports the nodes that it has placed, the last one first. -/
theorem outline_placed : (g.outline limit).2 = (g.outlineIds limit).reverse := by
  rw [(g.outline_walksFrom limit).placed_eq, List.append_nil, outlineIds]

/-- No node is twice in an outline. -/
theorem outlineIds_nodup : (g.outlineIds limit).Nodup := by
  have h := (g.outline_walksFrom limit).nodup List.nodup_nil
  rw [outline_placed] at h
  exact List.nodup_reverse.mp h

/-- An outline has only nodes of the graph. -/
theorem outlineNodes_subset : g.outlineNodes limit ⊆ g.nodes :=
  (g.outline_walksFrom limit).nodes_subset

theorem outlineIds_eq : g.outlineIds limit = (g.outlineNodes limit).map Node.id := by
  rw [outlineIds, outlineNodes, List.map_flatMap]
  rfl

variable {g limit}

/-- An outline has all nodes exactly when it misses none. -/
theorem outlineIds_perm_iff :
    (g.outlineIds limit).Perm g.ids ↔ ∀ id ∈ g.ids, id ∈ g.outlineIds limit := by
  have hnd : g.ids.Nodup := g.nodup
  rw [List.perm_ext_iff_of_nodup (g.outlineIds_nodup limit) hnd]
  constructor
  · exact fun h id => (h id).mpr
  · intro h id
    refine ⟨fun hid => ?_, h id⟩
    rw [outlineIds_eq] at hid
    obtain ⟨n, hn, rfl⟩ := List.mem_map.mp hid
    exact List.mem_map_of_mem (g.outlineNodes_subset limit hn)

/-- **If no node is left out, the outline has every node of the graph exactly once.** -/
theorem unplaced?_eq_none_iff :
    g.unplaced? (g.outline limit).2 = none ↔ (g.outlineIds limit).Perm g.ids := by
  rw [outlineIds_perm_iff, unplaced?, List.find?_eq_none, outline_placed]
  simp

end Graph

end Blockflow
