import Blockflow.Proofs.Program.Linked
import Blockflow.Proofs.Program.Shape

/-!
# What runs after a back edge

A back edge is dropped wherever it is drawn. If it leaves a node through an exit into a block, the
block is empty, and the program goes on behind the node. So the loop body is closed only if nothing
stands there: neither behind the source of the edge nor behind one of the branches around it.

What is left of a loop body is read off the program (`Block.after`) and off the graph
(`Graph.Follows`); the two agree for every back edge of a graph that is built
(`Graph.exists_after_backEdge`).
-/

namespace Blockflow

/-! ## Blocks inside of statements -/

namespace Statement

/-- The block of a statement behind an exit. -/
def slot? : Statement → Role → Option Block
  | .branch _ yes _ _, .whenTrue => some yes
  | .branch _ _ no _, .whenFalse => some no
  | .switch _ _ cases _ _, .case i => (cases[i]?).map Prod.snd
  | .switch _ _ _ default _, .default => some default
  | .forLoop _ _ _ _ body _, .body => some body
  | .whileLoop _ body _, .body => some body
  | _, _ => none

/-- What a statement does when a block inside of it has ended: a loop starts over. -/
def again : Statement → Block
  | .forLoop init cond step declares body node => [.forLoop init cond step declares body node]
  | .whileLoop cond body node => [.whileLoop cond body node]
  | _ => []

theorem mem_walk_self (s : Statement) : s ∈ s.walk := by
  cases s <;> simp [walk]

end Statement

theorem Block.walk_subset_walkCases : ∀ {cases : List (String × Block)} {value : String}
    {block : Block}, (value, block) ∈ cases → Block.walk block ⊆ Block.walkCases cases
  | [], _, _, h => absurd h List.not_mem_nil
  | (_, _) :: rest, value, block, h => by
    rw [Block.walkCases]
    rcases List.mem_cons.mp h with h | h
    · cases h
      exact List.subset_append_left _ _
    · exact List.Subset.trans (walk_subset_walkCases h) (List.subset_append_right _ _)

/-- What is inside the block behind an exit is inside the statement. -/
theorem Statement.walk_subset_of_slot {s : Statement} {role : Role} {inner : Block}
    (h : s.slot? role = some inner) : Block.walk inner ⊆ s.walk := by
  unfold slot? at h
  split at h
  next => cases h; simp [walk]
  next => cases h; simp [walk]
  next cases _ _ i =>
    obtain ⟨⟨value, block⟩, hcase, rfl⟩ := Option.map_eq_some_iff.mp h
    have hsub := Block.walk_subset_walkCases (List.mem_of_getElem? hcase)
    exact fun t ht => List.mem_cons_of_mem _ (List.mem_append_left _ (hsub ht))
  next => cases h; simp [walk]
  next => cases h; simp [walk]
  next => cases h; simp [walk]
  next => cases h

/-- A statement that is followed by its inner statements holds what they hold. -/
theorem Statement.walk_trans_of_inner {s t : Statement} (inner : List Statement)
    (hs : s.walk = s :: inner) (hinner : t ∈ inner → t.walk ⊆ inner) (h : t ∈ s.walk) :
    t.walk ⊆ s.walk := by
  rw [hs] at h
  rcases List.mem_cons.mp h with rfl | h
  · exact List.Subset.refl _
  · rw [hs]
    exact List.subset_cons_of_subset _ (hinner h)

mutual

/-- What is inside of a statement inside of another one is inside of that one. -/
theorem Statement.walk_trans : ∀ {s t : Statement}, t ∈ s.walk → t.walk ⊆ s.walk
  | .branch _ yes no _, t, h => by
    refine Statement.walk_trans_of_inner _ (by rw [Statement.walk]) (fun h => ?_) h
    rcases List.mem_append.mp h with h | h
    · exact List.Subset.trans (Block.walk_trans h) (List.subset_append_left _ _)
    · exact List.Subset.trans (Block.walk_trans h) (List.subset_append_right _ _)
  | .switch _ _ cases default _, t, h => by
    refine Statement.walk_trans_of_inner _ (by rw [Statement.walk]) (fun h => ?_) h
    rcases List.mem_append.mp h with h | h
    · exact List.Subset.trans (Block.walkCases_trans h) (List.subset_append_left _ _)
    · exact List.Subset.trans (Block.walk_trans h) (List.subset_append_right _ _)
  | .forLoop _ _ _ _ body _, t, h | .whileLoop _ body _, t, h =>
    Statement.walk_trans_of_inner _ (by rw [Statement.walk]) Block.walk_trans h
  | .declare _, t, h | .assign _ _ _, t, h | .array _ _ _ _, t, h | .print _ _, t, h
  | .call _ _ _, t, h | .create _ _ _ _, t, h | .foreign _, t, h =>
    Statement.walk_trans_of_inner [] rfl (absurd · List.not_mem_nil) h

/-- What is inside a statement of a block is inside the block. -/
theorem Block.walk_trans : ∀ {b : List Statement} {t : Statement}, t ∈ Block.walk b →
    t.walk ⊆ Block.walk b
  | [], _, h => absurd h List.not_mem_nil
  | s :: rest, t, h => by
    rw [Block.walk] at h ⊢
    rcases List.mem_append.mp h with h | h
    · exact List.Subset.trans (Statement.walk_trans h) (List.subset_append_left _ _)
    · exact List.Subset.trans (Block.walk_trans h) (List.subset_append_right _ _)

theorem Block.walkCases_trans : ∀ {cases : List (String × List Statement)} {t : Statement},
    t ∈ Block.walkCases cases → t.walk ⊆ Block.walkCases cases
  | [], _, h => absurd h List.not_mem_nil
  | (_, block) :: rest, t, h => by
    rw [Block.walkCases] at h ⊢
    rcases List.mem_append.mp h with h | h
    · exact List.Subset.trans (Block.walk_trans h) (List.subset_append_left _ _)
    · exact List.Subset.trans (Block.walkCases_trans h) (List.subset_append_right _ _)

end

/-! ## Parts that hold what is inside of their statements -/

/-- With a statement, everything inside of it is among the parts. -/
def WalkClosed (parts : List Part) : Prop :=
  ∀ s, Part.statement s ∈ parts → ∀ t ∈ s.walk, Part.statement t ∈ parts

theorem WalkClosed.append {parts more : List Part} (h : WalkClosed parts) (h' : WalkClosed more) :
    WalkClosed (parts ++ more) := by
  intro s hs t ht
  rcases List.mem_append.mp hs with hs | hs
  · exact List.mem_append_left _ (h s hs t ht)
  · exact List.mem_append_right _ (h' s hs t ht)

theorem WalkClosed.flatMap {α : Type} {f : α → List Part} (h : ∀ x, WalkClosed (f x))
    (l : List α) : WalkClosed (l.flatMap f) := by
  intro s hs t ht
  obtain ⟨x, hx, hs⟩ := List.mem_flatMap.mp hs
  exact List.mem_flatMap.mpr ⟨x, hx, h x s hs t ht⟩

/-- The statements of a block hold what is inside of them. -/
theorem walkClosed_block (b : Block) : WalkClosed ((Block.walk b).map Part.statement) := by
  intro s hs t ht
  obtain ⟨s', hs, heq⟩ := List.mem_map.mp hs
  cases heq
  exact List.mem_map_of_mem (Block.walk_trans hs ht)

theorem walkClosed_function (f : FunctionDef) : WalkClosed f.walk := by
  intro s hs t ht
  rw [FunctionDef.walk] at hs ⊢
  rcases List.mem_cons.mp hs with hs | hs
  · cases hs
  · exact List.mem_cons_of_mem _ (walkClosed_block f.body s hs t ht)

theorem walkClosed_member : ∀ (m : Member), WalkClosed m.walk
  | .field d => fun s hs t ht => by
    rw [Member.walk, List.mem_singleton] at hs
    cases hs
    rw [List.mem_singleton.mp ht]
    exact List.mem_singleton_self _
  | .method f => walkClosed_function f
  | .stray s => fun r hr t ht => by
    obtain ⟨r', hr, heq⟩ := List.mem_map.mp hr
    cases heq
    exact List.mem_map_of_mem (Statement.walk_trans hr ht)

theorem walkClosed_class (c : ClassDef) : WalkClosed c.walk := by
  intro s hs t ht
  rw [ClassDef.walk] at hs ⊢
  rcases List.mem_cons.mp hs with hs | hs
  · cases hs
  · exact List.mem_cons_of_mem _ (WalkClosed.flatMap walkClosed_member c.members s hs t ht)

/-- The parts of an assembly hold what is inside of their statements. -/
theorem Assembly.walkClosed (a : Assembly) (main : Block) :
    WalkClosed (a.walk ++ (Block.walk main).map Part.statement) :=
  ((WalkClosed.flatMap walkClosed_class _).append (WalkClosed.flatMap walkClosed_function _)).append
    (walkClosed_block main)

/-- Marking constructors keeps the statements of a program. -/
theorem Program.statement_mem_withConstructors {p q : Program} (h : p.withConstructors = .ok q)
    {s : Statement} (hs : Part.statement s ∈ p.walk) : Part.statement s ∈ q.walk := by
  obtain ⟨needed, -, rfl⟩ := withConstructors_eq_ok.mp h
  rcases List.mem_append.mp hs with hs | hs
  · refine List.mem_append_left _ ?_
    rcases List.mem_append.mp hs with hs | hs
    · obtain ⟨c, hc, hs⟩ := List.mem_flatMap.mp hs
      refine List.mem_append_left _ (List.mem_flatMap.mpr ⟨_, List.mem_map_of_mem hc, ?_⟩)
      rw [ClassDef.walk] at hs ⊢
      rcases List.mem_cons.mp hs with hs | hs
      · cases hs
      · rw [ClassDef.members_marked]
        exact List.mem_cons_of_mem _ hs
    · exact List.mem_append_right _ hs
  · exact List.mem_append_right _ hs

/-! ## What is left of a block -/

/-- What is left of a block after a point inside of it. The point is reached through some exits,
each of them in the block behind the one before, and then stands after the statement of the node
`last`. A block without that statement has nothing left. -/
def Block.after (last : String) : List (String × Role) → Block → Option Block
  | [], block => some (block.dropWhile (·.node ≠ last)).tail
  | (id, role) :: exits, block =>
    match block.dropWhile (·.node ≠ id) with
    | [] => none
    | s :: rest => do
      let inner ← s.slot? role
      let left ← Block.after last exits inner
      return left ++ s.again ++ rest

/-- Statements before the point do not matter for what is left. -/
theorem Block.after_cons_of_ne {last : String} {exits : List (String × Role)} {s : Statement}
    {block : Block} (hlast : s.node ≠ last) (hexits : ∀ exit ∈ exits, s.node ≠ exit.1) :
    Block.after last exits (s :: block) = Block.after last exits block := by
  cases exits with
  | nil => rw [after, after, List.dropWhile_cons_of_pos (by simpa using hlast)]
  | cons exit exits =>
    have hne := hexits exit List.mem_cons_self
    rw [after, after, List.dropWhile_cons_of_pos (by simpa using hne)]

/-- Of a block that is left through an exit, what is left inside comes first, then a loop starts
over, then the block goes on. -/
theorem Block.after_cons_self {last : String} {role : Role} {exits : List (String × Role)}
    {s : Statement} {block inner left : Block} (hslot : s.slot? role = some inner)
    (hinner : Block.after last exits inner = some left) :
    Block.after last ((s.node, role) :: exits) (s :: block) = some (left ++ s.again ++ block) := by
  rw [after, List.dropWhile_cons_of_neg (by simp)]
  simp [hslot, hinner]

namespace Graph

variable {g : Graph} {limit : Int}

/-! ## What is drawn behind the exits -/

/-- The exits into blocks through which some edges leave. -/
def exitsOf (r : List Edge) : List (String × Role) :=
  r.filterMap fun e => (e.role.filter (· ≠ .next)).map (e.source, ·)

theorem exitsOf_cons_next {e : Edge} (h : e.role = some .next) (r : List Edge) :
    exitsOf (e :: r) = exitsOf r := by
  simp [exitsOf, h]

theorem exitsOf_cons_slot {e : Edge} {role : Role} (h : e.role = some role) (hne : role ≠ .next)
    (r : List Edge) : exitsOf (e :: r) = (e.source, role) :: exitsOf r := by
  simp [exitsOf, h, hne]

theorem exists_of_mem_exitsOf {r : List Edge} {exit : String × Role} (h : exit ∈ exitsOf r) :
    ∃ e ∈ r, e.source = exit.1 ∧ e.role = some exit.2 := by
  obtain ⟨e, he, h⟩ := List.mem_filterMap.mp h
  obtain ⟨role, hrole, rfl⟩ := Option.map_eq_some_iff.mp h
  exact ⟨e, he, rfl, (Option.filter_eq_some_iff.mp hrole).1⟩

/-- The exits between the body of a loop and an edge that leads back to the loop. If the edge leads
into a block, its own exit is the last one. -/
def Exits (g : Graph) (e : Edge) (exits : List (String × Role)) : Prop :=
  ∃ first rest, g.IsBodyOf BlockType.isLoop first ∧ g.Route e.target (first :: rest) e.source ∧
    exits = exitsOf (rest ++ [e])

/-- The nodes that follow when the innermost of some exits has been taken and the block behind it
has ended: from the inside to the outside, a loop starts over, and then the chain goes on. -/
inductive Follows (g : Graph) : List (String × Role) → List String → Prop where
  | nil : g.Follows [] []
  | cons {id : String} {role : Role} {exits : List (String × Role)} {inner ids : List String} :
      g.Follows exits inner → g.IsBlock (g.leadsTo? id .next) ids →
      g.Follows ((id, role) :: exits) (inner ++ (if role = .body then [id] else []) ++ ids)

/-- Nothing of the loop body is drawn after an edge that leads back to the loop: no way leads on
from its source, unless the edge itself is that way, nor from a node around it. -/
def ClosesBody (g : Graph) (e : Edge) : Prop :=
  ∀ exits, g.Exits e exits → ∀ exit ∈ exits, g.leadsTo? exit.1 .next = none

theorem IsBlock.eq_nil {ids : List String} (h : g.IsBlock none ids) : ids = [] := by
  obtain ⟨chain, hchain, rfl⟩ := h
  cases hchain
  rfl

/-- The nodes of a block start with its first node, unless that is a definition. -/
theorem IsBlock.exists_first {start : String} {ids : List String}
    (h : g.IsBlock (some start) ids) :
    ∃ n ∈ g.nodes, n.id = start ∧ ∃ rest, g.IsBlock (g.leadsTo? n.id .next) rest ∧
      ids = if n.isDefinition then rest else n.id :: rest := by
  obtain ⟨chain, hchain, rfl⟩ := h
  cases hchain with
  | @step n chain hn hchain =>
    refine ⟨n, hn, rfl, _, ⟨chain, hchain, rfl⟩, ?_⟩
    cases hdef : n.isDefinition <;> simp [hdef]

/-- Nothing follows if no chain goes on after an exit and no exit is a loop body. -/
theorem Follows.eq_nil {exits : List (String × Role)} {ids : List String}
    (h : g.Follows exits ids)
    (hexits : ∀ exit ∈ exits, g.leadsTo? exit.1 .next = none ∧ exit.2 ≠ .body) : ids = [] := by
  induction h with
  | nil => rfl
  | @cons id role exits inner ids _ hids ih =>
    obtain ⟨hnone, hbody⟩ := hexits (id, role) List.mem_cons_self
    rw [hnone] at hids
    rw [ih fun exit hexit => hexits exit (List.mem_cons_of_mem _ hexit), hids.eq_nil,
      if_neg hbody]
    rfl

/-! ## Edges that are followed -/

/-- An edge that is not closed is the one that its exit leads along. -/
theorem leadsTo?_of_isOpen (hv : g.Valid) {e : Edge} {role : Role} (he : g.IsOpen e)
    (hr : e.role = some role) : g.leadsTo? e.source role = some e.target := by
  rw [leadsTo?, hv.edgeFor_eq he.1 hr]
  simp [Option.filter, he.2]

/-- An exit of a back edge leads nowhere. -/
theorem leadsTo?_of_backEdge (hv : g.Valid) {e : Edge} {role : Role} (he : e ∈ g.edges)
    (hback : e.id ∈ g.backEdges) (hr : e.role = some role) : g.leadsTo? e.source role = none := by
  rw [leadsTo?, hv.edgeFor_eq he hr]
  simp [Option.filter, hback]

/-- On a route that moves, no edge starts at the start of the route but the first one, nor does the
route end there. -/
theorem Forest.source_ne_start (h : g.Forest) {n : Node} (hn : n ∈ g.nodes) {e : Edge}
    {r : List Edge} {x : String} (hr : g.Route n.id (e :: r) x) :
    n.id ≠ x ∧ ∀ f ∈ r, n.id ≠ f.source := by
  constructor
  · rintro rfl
    exact absurd (h.acyclic hn hr) (List.cons_ne_nil _ _)
  · intro f hf heq
    obtain ⟨s, u, rfl⟩ := List.append_of_mem hf
    rw [← List.cons_append] at hr
    obtain ⟨c, hs, -, hc, -⟩ := route_append.mp hr
    rw [← hc, ← heq] at hs
    exact absurd (h.acyclic hn hs) (List.cons_ne_nil _ _)

/-- Between a loop and an edge that leads back to it from its body there is no other loop. -/
theorem Forest.role_ne_body (h : g.Forest) (hv : g.Valid) {first e : Edge} {rest : List Edge}
    (hfirst : g.IsBodyOf BlockType.isLoop first)
    (hroute : g.Route e.target (first :: rest) e.source) (he : e ∈ g.edges)
    (hdefs : ∀ f ∈ rest, ¬ g.IsBodyOf BlockType.isDefinition f) :
    ∀ f ∈ rest, f.role ≠ some .body := by
  intro f hf hbody
  have hdef := hdefs f hf
  obtain ⟨s, u, rfl⟩ := List.append_of_mem hf
  rw [← List.cons_append] at hroute
  obtain ⟨c, hdown, hopen, rfl, hup⟩ := route_append.mp hroute
  obtain ⟨n, hn, role, hexit, hs, hr, -⟩ := hv.exists_exit hopen.1
  cases hbody.symm.trans hr
  obtain ⟨type, hb⟩ := hv.exists_block hn
  have hloop : g.IsBodyOf BlockType.isLoop f := by
    rw [isBodyOf_definition_iff hn hb hs hr hexit] at hdef
    refine ⟨hr, n, hn, hs.symm, ?_⟩
    rw [Node.exitRoles, Node.slotRoles, hb] at hexit
    cases type <;> simp_all [BlockType.slotRoles, BlockType.isLoop, BlockType.isDefinition]
  -- the loop of the edge is the innermost one, so the other loop would be around it and inside of
  -- it
  have hne : f.source ≠ e.target := by
    intro heq
    rw [← heq, hs] at hdown
    exact absurd (h.acyclic hn hdown) (List.cons_ne_nil _ _)
  have hinner := h.innermost_of_inBody hv he ⟨first, s ++ f :: u, hfirst, hroute⟩
  obtain ⟨⟨first', rest', -, hback⟩, -⟩ := hinner.2 f.source ⟨f, u, hloop, hopen, rfl, hup⟩ hne
  have hcycle := hback.trans hdown
  rw [hs] at hcycle
  exact absurd (h.acyclic hn hcycle) (by simp)

/-! ## Statements have the blocks of their nodes -/

/-- A statement has the block of its node behind each exit, and starts over if the exit is a
body. -/
theorem Mirrors.exists_slot {s : Statement} (h : g.Mirrors (.statement s)) {n : Node}
    (hn : n ∈ g.nodes) (hid : s.node = n.id) {role : Role} (hrole : role ∈ n.exitRoles)
    (hnext : role ≠ .next) :
    ∃ inner, s.slot? role = some inner ∧
      g.IsBlock (g.leadsTo? n.id role) (inner.map Statement.node) ∧
      s.again.map Statement.node = if role = .body then [n.id] else [] := by
  obtain ⟨⟨m, hm, hmid, hkind⟩, hblocks⟩ := h
  obtain rfl := List.inj_on_of_nodup_map g.nodup hm hn (hmid.trans hid)
  rw [← hid]
  replace hrole : role ∈ m.slotRoles := by
    rcases List.mem_append.mp hrole with hrole | hrole
    · exact hrole
    · exact absurd (List.mem_singleton.mp hrole) hnext
  cases s with
  | branch cond yes no id =>
    rw [Node.slotRoles, hkind] at hrole
    rcases List.mem_pair.mp hrole with rfl | rfl
    · exact ⟨yes, rfl, hblocks.1, rfl⟩
    · exact ⟨no, rfl, hblocks.2, rfl⟩
  | switch subject type cases default id =>
    obtain ⟨⟨k, hk, hkid, hvalues⟩, hcases, hdefault⟩ := hblocks
    obtain rfl := List.inj_on_of_nodup_map g.nodup hm hk (hmid.trans hkid.symm)
    rw [Node.slotRoles_switch hkind hvalues] at hrole
    rcases List.mem_append.mp hrole with hrole | hrole
    · obtain ⟨i, hi, rfl⟩ := List.mem_mapIdx.mp hrole
      rw [List.length_map] at hi
      refine ⟨cases[i].2, ?_, hcases i cases[i].1 cases[i].2 ?_, rfl⟩
      · simp [Statement.slot?, List.getElem?_eq_getElem hi]
      · exact List.getElem?_eq_getElem hi
    · rw [List.mem_singleton.mp hrole]
      exact ⟨default, rfl, hdefault, rfl⟩
  | forLoop init cond step declares body id =>
    rw [Node.slotRoles, hkind] at hrole
    rw [List.mem_singleton.mp hrole]
    exact ⟨body, rfl, hblocks, rfl⟩
  | whileLoop cond body id =>
    rw [Node.slotRoles, hkind] at hrole
    rw [List.mem_singleton.mp hrole]
    exact ⟨body, rfl, hblocks, rfl⟩
  | _ =>
    rw [Node.slotRoles, hkind] at hrole
    cases hrole

/-! ## Down to the back edge -/

/-- A node that is left into a block, but not as the body of a definition, defines nothing. -/
theorem isDefinition_eq_false {n : Node} (hn : n ∈ g.nodes) {e : Edge} {role : Role}
    (hs : e.source = n.id) (hr : e.role = some role) (hexit : role ∈ n.exitRoles)
    (hne : role ≠ .next) (hdef : ¬ g.IsBodyOf BlockType.isDefinition e) :
    n.isDefinition = false := by
  cases hb : n.block? with
  | none => simp [Node.isDefinition, hb]
  | some type =>
    rw [isBodyOf_definition_iff hn hb hs hr hexit] at hdef
    simpa [Node.isDefinition, hb, hne] using hdef

/-- Through an exit into a block: what is left there comes first, then what is left around it. -/
theorem exists_after_slot (hv : g.Valid) {e : Edge} {role : Role} (he : e ∈ g.edges)
    (hr : e.role = some role) (hne : role ≠ .next) (hdef : ¬ g.IsBodyOf BlockType.isDefinition e)
    {block : Block} (hblock : g.IsBlock (some e.source) (block.map Statement.node))
    (hmirrors : ∀ t ∈ Block.walk block, g.Mirrors (.statement t)) {last : String}
    {exits : List (String × Role)}
    (hinner : ∀ inner : Block, g.IsBlock (g.leadsTo? e.source role) (inner.map Statement.node) →
      (∀ t ∈ Block.walk inner, g.Mirrors (.statement t)) →
      ∃ left, Block.after last exits inner = some left ∧
        g.Follows exits (left.map Statement.node)) :
    ∃ left, Block.after last ((e.source, role) :: exits) block = some left ∧
      g.Follows ((e.source, role) :: exits) (left.map Statement.node) := by
  obtain ⟨n, hn, role', hexit, hs, hr', -⟩ := hv.exists_exit he
  cases hr.symm.trans hr'
  obtain ⟨m, hm, hmid, rest, hrest, hids⟩ := hblock.exists_first
  obtain rfl := List.inj_on_of_nodup_map g.nodup hm hn (hmid.trans hs)
  rw [isDefinition_eq_false hn hs hr hexit hne hdef] at hids
  obtain ⟨s, after, rfl, hsid, rfl⟩ := List.map_eq_cons_iff.mp hids
  rw [Block.walk] at hmirrors
  have hsm := hmirrors s (List.mem_append_left _ s.mem_walk_self)
  obtain ⟨inner, hslot, hisBlock, hagain⟩ := hsm.exists_slot hn hsid hexit hne
  rw [← hs] at hisBlock hagain hsid
  obtain ⟨left, hleft, hfollows⟩ := hinner inner hisBlock fun t ht =>
    hmirrors t (List.mem_append_left _ (Statement.walk_subset_of_slot hslot ht))
  refine ⟨left ++ s.again ++ after, ?_, ?_⟩
  · rw [← hsid]
    exact Block.after_cons_self hslot hleft
  · rw [List.map_append, List.map_append, hagain]
    exact .cons hfollows (hs ▸ hrest)

/-- Nothing is left of a block after its last node. -/
theorem IsBlock.after_last {last : String} {block : Block}
    (h : g.IsBlock (some last) (block.map Statement.node)) (hnone : g.leadsTo? last .next = none) :
    Block.after last [] block = some [] := by
  obtain ⟨n, hn, hid, rest, hrest, hids⟩ := h.exists_first
  rw [hid, hnone] at hrest
  rw [hrest.eq_nil] at hids
  cases hdefinition : n.isDefinition with
  | true =>
    rw [hdefinition] at hids
    rw [List.map_eq_nil_iff.mp hids]
    rfl
  | false =>
    rw [hdefinition] at hids
    obtain ⟨s, after, rfl, hsid, hafter⟩ := List.map_eq_cons_iff.mp hids
    rw [List.map_eq_nil_iff.mp hafter]
    show some ([s].dropWhile (·.node ≠ last)).tail = some []
    rw [List.dropWhile_cons_of_neg (by simp [hsid, hid])]
    rfl

/-- On to the next node: what is left after the edge is the same with and without the first node. -/
theorem Forest.exists_after_next (h : g.Forest) {f e : Edge} {r : List Edge}
    (hroute : g.Route f.source (f :: r) e.source)
    (hleads : g.leadsTo? f.source .next = some f.target)
    {block : Block} (hblock : g.IsBlock (some f.source) (block.map Statement.node))
    (hmirrors : ∀ t ∈ Block.walk block, g.Mirrors (.statement t))
    (hrest : ∀ rest : Block, g.IsBlock (some f.target) (rest.map Statement.node) →
      (∀ t ∈ Block.walk rest, g.Mirrors (.statement t)) →
      ∃ left, Block.after e.source (exitsOf (r ++ [e])) rest = some left ∧
        g.Follows (exitsOf (r ++ [e])) (left.map Statement.node)) :
    ∃ left, Block.after e.source (exitsOf (r ++ [e])) block = some left ∧
      g.Follows (exitsOf (r ++ [e])) (left.map Statement.node) := by
  obtain ⟨n, hn, hid, rest, hafter, hids⟩ := hblock.exists_first
  rw [hid, hleads] at hafter
  cases hdefinition : n.isDefinition with
  | true =>
    -- a definition is taken out of the block, so the whole block is what comes after it
    rw [hdefinition] at hids
    refine hrest block ?_ hmirrors
    rw [hids]
    exact hafter
  | false =>
    rw [hdefinition] at hids
    obtain ⟨s, after, rfl, hsid, rfl⟩ := List.map_eq_cons_iff.mp hids
    rw [Block.walk] at hmirrors
    rw [← hid] at hroute
    obtain ⟨hend, hsources⟩ := h.source_ne_start hn hroute
    rw [Block.after_cons_of_ne (hsid ▸ hend)]
    · exact hrest after hafter fun t ht => hmirrors t (List.mem_append_right _ ht)
    · intro exit hexit
      obtain ⟨f', hf', hfs, -⟩ := exists_of_mem_exitsOf hexit
      rw [hsid, ← hfs]
      rcases List.mem_append.mp hf' with hf' | hf'
      · exact hsources f' hf'
      · rw [List.mem_singleton.mp hf']
        exact hend

/-- **What is left of a block after a back edge inside of it is what is drawn behind the exits.** -/
theorem Forest.exists_after (h : g.Forest) (hv : g.Valid) {e : Edge} (he : e ∈ g.edges)
    (hback : e.id ∈ g.backEdges) (hdef : ¬ g.IsBodyOf BlockType.isDefinition e) :
    ∀ {r : List Edge} {start : String} {block : Block}, g.Route start r e.source →
      (∀ f ∈ r, ¬ g.IsBodyOf BlockType.isDefinition f) →
      g.IsBlock (some start) (block.map Statement.node) →
      (∀ t ∈ Block.walk block, g.Mirrors (.statement t)) →
      ∃ left, Block.after e.source (exitsOf (r ++ [e])) block = some left ∧
        g.Follows (exitsOf (r ++ [e])) (left.map Statement.node)
  | [], start, block, hroute, _, hblock, hmirrors => by
    rw [route_nil.mp hroute] at hblock
    obtain ⟨role, hr⟩ := hv.exists_role he
    have hnone := leadsTo?_of_backEdge hv he hback hr
    by_cases hnext : role = .next
    · -- the chain ends with the source of the edge
      subst hnext
      rw [List.nil_append, exitsOf_cons_next hr]
      exact ⟨[], hblock.after_last hnone, .nil⟩
    · rw [List.nil_append, exitsOf_cons_slot hr hnext]
      refine exists_after_slot hv he hr hnext hdef hblock hmirrors fun inner hinner _ => ?_
      rw [hnone] at hinner
      rw [List.map_eq_nil_iff.mp hinner.eq_nil]
      exact ⟨[], rfl, .nil⟩
  | f :: r, start, block, hroute, hdefs, hblock, hmirrors => by
    obtain ⟨hopen, rfl, hrest⟩ := route_cons.mp hroute
    obtain ⟨role, hr⟩ := hv.exists_role hopen.1
    have hleads := leadsTo?_of_isOpen hv hopen hr
    have hdefs' := fun f' hf' => hdefs f' (List.mem_cons_of_mem _ hf')
    by_cases hnext : role = .next
    · subst hnext
      rw [List.cons_append, exitsOf_cons_next hr]
      exact h.exists_after_next hroute hleads hblock hmirrors fun rest hblock' hmirrors' =>
        h.exists_after hv he hback hdef hrest hdefs' hblock' hmirrors'
    · rw [List.cons_append, exitsOf_cons_slot hr hnext]
      refine exists_after_slot hv hopen.1 hr hnext (hdefs f List.mem_cons_self) hblock hmirrors ?_
      intro inner hinner hmirrors'
      rw [hleads] at hinner
      exact h.exists_after hv he hback hdef hrest hdefs' hinner hmirrors'

/-! ## Programs that are built -/

/-- All parts of an assembled program mirror their nodes. -/
theorem Valid.mirrors_of_assemble (hv : g.Valid) {main : Block} {a : Assembly}
    (h : g.assemble limit = .ok (main, a)) :
    ∀ q ∈ a.walk ++ (Block.walk main).map Part.statement, g.Mirrors q := by
  obtain ⟨-, parts, hparts, hperm⟩ := assemble_becomes h
  intro q hq
  obtain ⟨v, hvis, hbecomes⟩ := forall₂_exists_left hparts (hperm.mem_iff.mp hq)
  exact (toured_of_assemble h).mirrors_of_becomes hv hvis hbecomes

/-- A node that defines nothing becomes a statement. -/
theorem exists_statement_of_assemble {main : Block} {a : Assembly}
    (h : g.assemble limit = .ok (main, a)) {n : Node} (hn : n ∈ g.nodes)
    (hdef : n.isDefinition = false) :
    ∃ s, Part.statement s ∈ a.walk ++ (Block.walk main).map Part.statement ∧ s.node = n.id := by
  obtain ⟨-, parts, hparts, hperm⟩ := assemble_becomes h
  obtain ⟨v, hvis, rfl⟩ := (toured_of_assemble h).exists_visit hn
  obtain ⟨q, hq, hbecomes⟩ := forall₂_exists_left hparts.flip hvis
  have hmem := hperm.mem_iff.mpr hq
  cases q with
  | statement s => exact ⟨s, hmem, hbecomes.node_eq⟩
  | function f | classDef c =>
    rw [Node.isDefinition, hbecomes.kind_eq] at hdef
    cases hdef

/-- The statements that are put together are statements of the program, with or without a
library. -/
theorem exists_assemble_of_build {lib : Library} {b : Build}
    (h : g.buildAlone limit = .ok b ∨ g.build limit lib = .ok b) :
    ∃ main a, g.assemble limit = .ok (main, a) ∧
      ∀ s, Part.statement s ∈ a.walk ++ (Block.walk main).map Part.statement →
        Part.statement s ∈ b.program.walk := by
  rcases h with h | h
  · obtain ⟨main, a, hassemble, hprogram⟩ := buildAlone_eq_ok h
    refine ⟨main, a, hassemble, fun s hs => ?_⟩
    rw [hprogram, Assembly.walk_finish]
    exact List.mem_map.mpr ⟨_, hs, rfl⟩
  · obtain ⟨main, a, l, hassemble, -, hlink, hprogram, -⟩ := build_eq_ok.mp h
    have hsound := sound_of_link hassemble hlink
    refine ⟨main, a, hassemble, fun s hs => ?_⟩
    refine Program.statement_mem_withConstructors hprogram ?_
    rw [Assembly.walk_finish]
    refine List.mem_map.mpr ⟨.statement s, ?_, rfl⟩
    rcases List.mem_append.mp hs with hs | hs
    · refine List.mem_append_left _ ?_
      rcases List.mem_append.mp hs with hs | hs
      · obtain ⟨c, hc, hs⟩ := List.mem_flatMap.mp hs
        exact List.mem_append_left _ (List.mem_flatMap.mpr ⟨c, hsound.classes.subset hc, hs⟩)
      · obtain ⟨f, hf, hs⟩ := List.mem_flatMap.mp hs
        exact List.mem_append_right _ (List.mem_flatMap.mpr ⟨f, hsound.functions.subset hf, hs⟩)
    · exact List.mem_append_right _ hs

/-- **What runs after a back edge is what is drawn behind the exits around it.** The loop that the
edge leads to is in the program. What is left of its body after the edge are the chains that go on
behind the exits between the body and the edge; if the edge is the body of a loop, that loop starts
over before. So nothing is left if the edge closes the body and is not the body of a loop. -/
theorem exists_after_backEdge (hv : g.Valid) {lib : Library} {b : Build}
    (h : g.buildAlone limit = .ok b ∨ g.build limit lib = .ok b) {e : Edge} (he : e ∈ g.edges)
    (hback : e.id ∈ g.backEdges) :
    ∃ exits loop body left, g.Exits e exits ∧
      Part.statement loop ∈ b.program.walk ∧ loop.node = e.target ∧
      loop.slot? .body = some body ∧ Block.after e.source exits body = some left ∧
      g.Follows exits (left.map Statement.node) ∧
      (g.ClosesBody e → e.role ≠ some .body → left = []) := by
  obtain ⟨main, a, hassemble, hstatements⟩ := exists_assemble_of_build h
  have ht := toured_of_assemble hassemble
  have hmirrors := hv.mirrors_of_assemble hassemble
  obtain ⟨hdef, first, rest, hroute, hfirst, hdefs⟩ := ht.exists_body_route hv he hback
  have hexits : g.Exits e (exitsOf (rest ++ [e])) := ⟨first, rest, hfirst, hroute, rfl⟩
  obtain ⟨hopen, hfs, hrest⟩ := route_cons.mp hroute
  obtain ⟨n, hn, role, hexit, hns, hr, -⟩ := hv.exists_exit hopen.1
  have hbody : role = .body := by
    have := hfirst.1
    rw [hr] at this
    exact Option.some.inj this
  subst hbody
  obtain ⟨loop, hloop, hid⟩ := exists_statement_of_assemble hassemble hn
    (isDefinition_eq_false hn hns hr hexit (by simp) (hdefs first List.mem_cons_self))
  obtain ⟨body, hslot, hblock, -⟩ := (hmirrors _ hloop).exists_slot hn hid hexit (by simp)
  rw [← hns, leadsTo?_of_isOpen hv hopen hr] at hblock
  obtain ⟨left, hleft, hfollows⟩ := (ht.forest hv).exists_after hv he hback hdef hrest
    (fun f hf => hdefs f (List.mem_cons_of_mem _ hf)) hblock fun t ht =>
      hmirrors _ (a.walkClosed main loop hloop t (Statement.walk_subset_of_slot hslot ht))
  refine ⟨_, loop, body, left, hexits, hstatements loop hloop, ?_, hslot, hleft, hfollows, ?_⟩
  · rw [hid, ← hns, hfs]
  · intro hcloses hbody
    have hroles := (ht.forest hv).role_ne_body hv hfirst hroute he fun f hf =>
      hdefs f (List.mem_cons_of_mem _ hf)
    refine List.map_eq_nil_iff.mp (hfollows.eq_nil fun exit hexit => ?_)
    obtain ⟨f, hf, -, hfr⟩ := exists_of_mem_exitsOf hexit
    refine ⟨hcloses _ hexits exit hexit, fun hrole => ?_⟩
    rw [hrole] at hfr
    rcases List.mem_append.mp hf with hf | hf
    · exact hroles f hf hfr
    · rw [List.mem_singleton.mp hf] at hfr
      exact hbody hfr

/-- The edge into the body of a loop. -/
def intoBody : Edge := { id := "e1", source := "loop", target := "test", role := some .body }

/-- An edge from a branch in the body back to the loop. -/
def backToLoop : Edge := { id := "e2", source := "test", target := "loop", role := some .whenTrue }

/-- A loop with a branch in which an edge leads back to the loop, although the body goes on after
the branch. -/
def unclosed : Graph where
  nodes :=
    [{ id := "loop", type := "while", data := [("condition", .text "i < 3")] },
     { id := "test", type := "if", data := [("condition", .text "i == 1")] },
     { id := "shown", type := "print", data := [("value", .text "i")] }]
  edges :=
    [intoBody, backToLoop, { id := "e3", source := "test", target := "shown", role := some .next }]
  nodup := by decide

theorem valid_unclosed : unclosed.Valid := by
  unfold Valid
  decide

theorem exists_build_unclosed : ∃ b, unclosed.build 100 [] = .ok b :=
  exists_build_of_buildWithin (n := 1) (by decide +kernel)

/-- What is left of the body of `unclosed` after the edge that leads back. -/
theorem exists_after_backEdge_unclosed :
    unclosed.Valid ∧ backToLoop ∈ unclosed.edges ∧ backToLoop.id ∈ unclosed.backEdges ∧
      ∃ b, unclosed.build 100 [] = .ok b ∧ ∃ exits loop body left,
        unclosed.Exits backToLoop exits ∧ Part.statement loop ∈ b.program.walk ∧
        loop.node = "loop" ∧ loop.slot? .body = some body ∧
        Block.after "test" exits body = some left ∧
        unclosed.Follows exits (left.map Statement.node) := by
  obtain ⟨b, hb⟩ := exists_build_unclosed
  have he : backToLoop ∈ unclosed.edges := by decide
  have hback : backToLoop.id ∈ unclosed.backEdges := by decide +kernel
  obtain ⟨exits, loop, body, left, hexits, hloop, hid, hslot, hleft, hfollows, -⟩ :=
    exists_after_backEdge valid_unclosed (Or.inr hb) he hback
  exact ⟨valid_unclosed, he, hback, b, hb, exits, loop, body, left, hexits, hloop, hid, hslot,
    hleft, hfollows⟩

/-- Back edges need not close the body: in this graph the body goes on. -/
theorem not_forall_closesBody :
    ¬ ∀ (g : Graph) (limit : Int) (lib : Library) (b : Build) (e : Edge), g.Valid →
      g.build limit lib = .ok b → e ∈ g.edges → e.id ∈ g.backEdges → g.ClosesBody e := by
  intro h
  obtain ⟨b, hb⟩ := exists_build_unclosed
  have hopen : unclosed.IsOpen intoBody := ⟨by decide, by decide +kernel⟩
  have hbody : unclosed.IsBodyOf BlockType.isLoop intoBody := ⟨rfl, by decide⟩
  have hexits : unclosed.Exits backToLoop (exitsOf [backToLoop]) :=
    ⟨intoBody, [], hbody, ⟨hopen, rfl, rfl⟩, rfl⟩
  have hcloses := h unclosed 100 [] b backToLoop valid_unclosed hb (by decide) (by decide +kernel)
  have hnone := hcloses _ hexits ("test", .whenTrue) (by decide)
  have hsome : unclosed.leadsTo? "test" .next = some "shown" := by decide +kernel
  rw [hsome] at hnone
  cases hnone

end Graph

end Blockflow
