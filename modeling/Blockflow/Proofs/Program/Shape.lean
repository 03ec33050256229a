import Blockflow.Proofs.Outline.Followed
import Blockflow.Proofs.Program.Build

/-!
# Programs mirror their graphs

An exit leads to the target of its edge, unless there is no edge or it is a back edge
(`Graph.leadsTo?`). The chain of a node is what one comes to along the `next` exits. A block of the
program that is built from a valid graph holds the chain behind its exit, without the definitions
(`Graph.IsBlock`); the body of a class holds its chain as a whole (`Graph.IsClassBody`). This is
said for every part of the program, however deep it is nested (`Graph.Mirrors`), and for the main
block.
-/

namespace Blockflow.Graph

variable {g : Graph} {limit : Int}

/-! ## Chains in a graph -/

/-- Where an exit of a node leads: nowhere, if there is no edge or if the edge is a back edge. -/
def leadsTo? (g : Graph) (id : String) (role : Role) : Option String :=
  ((g.edgeFor id role).filter fun e => !g.backEdges.contains e.id).map Edge.target

/-- The nodes that one comes to from a start along the `next` exits. -/
inductive NextChain (g : Graph) : Option String → List Node → Prop where
  | done : g.NextChain none []
  | step {n : Node} {rest : List Node} : n ∈ g.nodes → g.NextChain (g.leadsTo? n.id .next) rest →
      g.NextChain (some n.id) (n :: rest)

/-- The nodes of a block that starts somewhere: its chain without the definitions. -/
def IsBlock (g : Graph) (start : Option String) (ids : List String) : Prop :=
  ∃ chain, g.NextChain start chain ∧ ids = (chain.filter fun n => !n.isDefinition).map Node.id

/-- The nodes of a class body that starts somewhere: its chain as a whole. -/
def IsClassBody (g : Graph) (start : Option String) (ids : List String) : Prop :=
  ∃ chain, g.NextChain start chain ∧ ids = chain.map Node.id

/-! ## Parts and their blocks -/

/-- The blocks of a part hold what stands behind the exits of its node. -/
def MirrorsBlocks (g : Graph) : Part → Prop
  | .statement (.branch _ yes no id) =>
    g.IsBlock (g.leadsTo? id .whenTrue) (yes.map Statement.node) ∧
      g.IsBlock (g.leadsTo? id .whenFalse) (no.map Statement.node)
  | .statement (.switch _ _ cases default id) =>
    (∃ n ∈ g.nodes, n.id = id ∧ n.list "cases" = .ok (cases.map Prod.fst)) ∧
      (∀ i value block, cases[i]? = some (value, block) →
        g.IsBlock (g.leadsTo? id (.case i)) (block.map Statement.node)) ∧
      g.IsBlock (g.leadsTo? id .default) (default.map Statement.node)
  | .statement (.forLoop _ _ _ _ body id) | .statement (.whileLoop _ body id) =>
    g.IsBlock (g.leadsTo? id .body) (body.map Statement.node)
  | .statement _ => True
  | .function f => g.IsBlock (g.leadsTo? f.node .body) (f.body.map Statement.node)
  | .classDef c => g.IsClassBody (g.leadsTo? c.node .body) (c.members.map Member.node)

/-- The part is of the kind of its node, and its blocks are those of the node. -/
structure Mirrors (g : Graph) (q : Part) : Prop where
  kind : ∃ n ∈ g.nodes, n.id = q.node ∧ n.block? = q.kind?
  blocks : g.MirrorsBlocks q

theorem Mirrors.typed {q : Part} (h : g.Mirrors q) (calls : List CallSite) :
    g.Mirrors (q.typed calls) := by
  obtain ⟨hkind, hblocks⟩ := h
  cases q with
  | statement s => exact ⟨hkind, hblocks⟩
  | function f =>
    refine ⟨by simpa [Part.typed, Part.node, Part.kind?] using hkind, ?_⟩
    simpa [Part.typed, MirrorsBlocks] using hblocks
  | classDef c =>
    refine ⟨hkind, ?_⟩
    have hnodes : (c.members.map (Member.typed calls)).map Member.node =
        c.members.map Member.node := by
      rw [List.map_map]
      exact List.map_congr_left fun m _ => m.node_typed calls
    show g.IsClassBody _ ((c.members.map (Member.typed calls)).map Member.node)
    rw [hnodes]
    exact hblocks

/-! ## The walk follows the chains -/

namespace Toured

theorem target_eq_leadsTo (ht : g.Toured limit) (hv : g.Valid) {v : Visit}
    (hvis : v ∈ g.visits limit) (role : Role) :
    (g.tour limit).target v.place v.node role = g.leadsTo? v.node.id role := by
  unfold leadsTo?
  cases he : g.edgeFor v.node.id role with
  | none => rw [Tour.target, show (g.tour limit).graph = g from rfl, he]; rfl
  | some e =>
    obtain ⟨hmem, hs, hr⟩ := mem_of_edgeFor he
    by_cases hback : e.id ∈ g.backEdges
    · rw [(ht.target_eq_none_iff hv hvis hmem hs hr).mpr hback]
      simp [Option.filter, hback]
    · rw [(ht.target_eq_some_iff hv hvis hmem hs hr).mpr hback]
      simp [Option.filter, hback]

theorem nextChain_of_sees (ht : g.Toured limit) (hv : g.Valid) :
    ∀ {o : Outline} {p : Place} {start : Option String}, (g.tour limit).Sees p start o →
      o.visits p ⊆ g.visits limit → g.NextChain start o.chainNodes
  | .done, _, none, _, _ => .done
  | .done, _, some _, hs, _ => by simp [Tour.Sees] at hs
  | .fault _ _, _, _, hs, _ => by simp [Tour.Sees] at hs
  | .missing _, _, _, hs, _ => by simp [Tour.Sees] at hs
  | .step _ _ _, _, none, hs, _ => by simp [Tour.Sees] at hs
  | .step n slots next, p, some start, hs, hsub => by
    rw [Tour.Sees] at hs
    rw [Outline.visits] at hsub
    obtain ⟨hhere, hsub⟩ := List.cons_subset.mp hsub
    have hnext := ht.target_eq_leadsTo hv hhere .next
    rw [← id_of_node? hs.1]
    refine .step (mem_of_node? hs.1) ?_
    rw [← hnext]
    exact ht.nextChain_of_sees hv hs.2.2.2 (List.append_subset.mp hsub).2

/-- Behind an exit of a visited node is the chain of the node that the exit leads to. -/
theorem nextChain_of_slot (ht : g.Toured limit) (hv : g.Valid) {v : Visit}
    (hvis : v ∈ g.visits limit) {role : Role} {o : Outline} (hslot : (role, o) ∈ v.slots) :
    g.NextChain (g.leadsTo? v.node.id role) o.chainNodes := by
  have hsees := ht.sees_at hvis
  have hsub := outline_visits_subset hvis
  rw [Visit.outline, Tour.Sees] at hsees
  rw [Visit.outline, Outline.visits] at hsub
  have hslots := (List.append_subset.mp (List.cons_subset.mp hsub).2).1
  rw [← ht.target_eq_leadsTo hv hvis role]
  exact ht.nextChain_of_sees hv (hsees.2.2.1.admits hslot).2
    (List.Subset.trans (Outline.visits_subset_slotVisits _ hslot) hslots)

end Toured

/-! ## What a visit becomes mirrors its node -/

theorem isBlock_of_fills {start : Option String} {o : Outline} {parts : List Part}
    (hchain : g.NextChain start o.chainNodes) (hfill : o.Fills false parts) :
    g.IsBlock start ((Heading.block parts).map Statement.node) := by
  refine ⟨o.chainNodes, hchain, ?_⟩
  rw [Heading.map_node_block hfill.1, hfill.2]
  rfl

theorem isClassBody_of_fills {start : Option String} {o : Outline} {parts : List Part}
    (hchain : g.NextChain start o.chainNodes) (hfill : o.Fills true parts) :
    g.IsClassBody start ((Heading.members parts).map Member.node) := by
  refine ⟨o.chainNodes, hchain, ?_⟩
  rw [Heading.map_node_members hfill.1, hfill.2, Outline.kept]
  simp

/-- The parts behind the exits of a node are those that the chains there become, exit by exit. -/
def FilledAt (g : Graph) (n : Node) (inClass : Bool) (blocks : List (List Part)) : Prop :=
  blocks.length = n.slotRoles.length ∧
    ∀ {i : Nat} {role : Role} {parts : List Part}, n.slotRoles[i]? = some role →
      blocks[i]? = some parts →
      ∃ o : Outline, g.NextChain (g.leadsTo? n.id role) o.chainNodes ∧ o.Fills inClass parts

theorem Toured.filledAt (ht : g.Toured limit) (hv : g.Valid) {v : Visit}
    (hvis : v ∈ g.visits limit) {inClass : Bool} {blocks : List (List Part)}
    (hfilled : List.Forall₂ (fun (slot : Role × Outline) block => slot.2.Fills inClass block)
      v.slots blocks) : g.FilledAt v.node inClass blocks := by
  have hsees := ht.sees_at hvis
  rw [Visit.outline, Tour.Sees] at hsees
  refine ⟨by rw [← hsees.2.1, List.length_map, hfilled.length_eq], ?_⟩
  intro i role parts hrole hparts
  rw [← hsees.2.1, List.getElem?_map] at hrole
  obtain ⟨⟨role', o⟩, hslot, rfl⟩ := Option.map_eq_some_iff.mp hrole
  refine ⟨o, ht.nextChain_of_slot hv hvis (List.mem_of_getElem? hslot), ?_⟩
  obtain ⟨hi, hget⟩ := List.getElem?_eq_some_iff.mp hslot
  obtain ⟨hj, hget'⟩ := List.getElem?_eq_some_iff.mp hparts
  have hfill := hfilled.get hi hj
  simp only [List.get_eq_getElem, hget, hget'] at hfill
  exact hfill

theorem FilledAt.isBlock {n : Node} {blocks : List (List Part)} (h : g.FilledAt n false blocks)
    {i : Nat} {role : Role} {parts : List Part} (hrole : n.slotRoles[i]? = some role)
    (hparts : blocks[i]? = some parts) :
    g.IsBlock (g.leadsTo? n.id role) ((Heading.block parts).map Statement.node) := by
  obtain ⟨o, hchain, hfill⟩ := h.2 hrole hparts
  exact isBlock_of_fills hchain hfill

/-- A node whose only exit leads into its body has one block. -/
theorem FilledAt.exists_body {n : Node} {inClass : Bool} {blocks : List (List Part)}
    (h : g.FilledAt n inClass blocks) (hroles : n.slotRoles = [.body]) :
    ∃ body, blocks = [body] ∧
      ∃ o : Outline, g.NextChain (g.leadsTo? n.id .body) o.chainNodes ∧ o.Fills inClass body := by
  have hlen := h.1
  rw [hroles] at hlen
  obtain ⟨body, rfl⟩ := List.length_eq_one_iff.mp hlen
  have hrole : n.slotRoles[0]? = some .body := by rw [hroles]; rfl
  exact ⟨body, rfl, h.2 hrole rfl⟩

/-- The cases of a switch. -/
theorem FilledAt.mirrors_switch {n : Node} (hn : n ∈ g.nodes) {values : List String}
    {blocks : List (List Part)} (h : g.FilledAt n false blocks) (hb : n.block? = some .switch)
    (hvalues : n.list "cases" = .ok values) (subject : String) (type : ValueType) :
    g.MirrorsBlocks (Heading.part n.id blocks (.switch subject type values)) := by
  have hroles := Node.slotRoles_switch hb hvalues
  have hlen := h.1
  rw [hroles, List.length_append, List.length_mapIdx, List.length_singleton] at hlen
  have hfst : (values.zip (blocks.map Heading.block)).map Prod.fst = values :=
    List.map_fst_zip (by simp [hlen])
  refine ⟨⟨n, hn, rfl, by rw [hfst]; exact hvalues⟩, ?_, ?_⟩
  · intro i value block hcase
    rw [List.getElem?_zip_eq_some, List.getElem?_map] at hcase
    obtain ⟨hvalue, hblock⟩ := hcase
    obtain ⟨parts, hparts, rfl⟩ := Option.map_eq_some_iff.mp hblock
    obtain ⟨hi, -⟩ := List.getElem?_eq_some_iff.mp hvalue
    refine h.isBlock ?_ hparts
    rw [hroles, List.getElem?_append_left (by simpa using hi), List.getElem?_mapIdx, hvalue]
    rfl
  · -- the default is behind the last exit
    have hlast : blocks[values.length]? = some (blocks.getD values.length []) := by
      rw [List.getD_eq_getElem?_getD, List.getElem?_eq_getElem (by omega)]
      rfl
    refine h.isBlock ?_ hlast
    rw [hroles, List.getElem?_append_right (by simp)]
    simp

theorem FilledAt.mirrorsBlocks {n : Node} (hn : n ∈ g.nodes) {type : BlockType} {heading : Heading}
    {inClass : Bool} {blocks : List (List Part)} (hf : heading.Fits n type)
    (hb : n.block? = some type) (hmember : inClass = true → type.isMember = true)
    (h : g.FilledAt n (n.innerClass inClass) blocks) :
    g.MirrorsBlocks (heading.part n.id blocks) := by
  rw [Node.innerClass, hb] at h
  cases hf with
  | declare _ | call _ => trivial
  | @plain _ s hkind hplain _ =>
    rcases BlockType.isPlain_iff.mp hplain with rfl | rfl | rfl | rfl <;>
      cases s <;> cases hkind <;> trivial
  | branch =>
    obtain rfl : inClass = false := by simpa [BlockType.isMember] using hmember
    have hlen := h.1
    rw [Node.slotRoles, hb] at hlen
    obtain ⟨yes, no, rfl⟩ := List.length_eq_two.mp hlen
    have htrue : n.slotRoles[0]? = some .whenTrue := by rw [Node.slotRoles, hb]; rfl
    have hfalse : n.slotRoles[1]? = some .whenFalse := by rw [Node.slotRoles, hb]; rfl
    exact ⟨h.isBlock htrue rfl, h.isBlock hfalse rfl⟩
  | switch hvalues =>
    obtain rfl : inClass = false := by simpa [BlockType.isMember] using hmember
    exact h.mirrors_switch hn hb hvalues _ _
  | forLoop | whileLoop =>
    obtain rfl : inClass = false := by simpa [BlockType.isMember] using hmember
    obtain ⟨body, rfl, o, hchain, hfill⟩ := h.exists_body (by rw [Node.slotRoles, hb]; rfl)
    exact isBlock_of_fills hchain hfill
  | function =>
    obtain ⟨body, rfl, o, hchain, hfill⟩ := h.exists_body (by rw [Node.slotRoles, hb]; rfl)
    exact isBlock_of_fills hchain hfill
  | classDef =>
    obtain ⟨body, rfl, o, hchain, hfill⟩ := h.exists_body (by rw [Node.slotRoles, hb]; rfl)
    exact isClassBody_of_fills hchain hfill

theorem Toured.mirrors_of_becomes (ht : g.Toured limit) (hv : g.Valid) {v : Visit}
    (hvis : v ∈ g.visits limit) {q : Part} (hq : v.Becomes q) : g.Mirrors q := by
  obtain ⟨hb, hf, hmember, hfilled⟩ := hq
  refine ⟨⟨v.node, mem_nodes_of_visit hvis, (hf.node_part _).symm, ?_⟩, ?_⟩
  · rw [hb, hf.kind_part]
  · exact (ht.filledAt hv hvis hfilled).mirrorsBlocks (mem_nodes_of_visit hvis) hf hb hmember

/-! ## Programs mirror their graphs -/

/-- The chains from the entry points. -/
theorem Toured.isBlock_starts (ht : g.Toured limit) (hv : g.Valid) {starts : List String}
    {os : List Outline}
    (hs : List.Forall₂ (fun start o => (g.tour limit).Sees {} (some start) o) starts os)
    (hsub : ∀ o ∈ os, o.visits {} ⊆ g.visits limit) :
    List.Forall₂ (fun start ids => g.IsBlock (some start) ids) starts
      (os.map (Outline.kept false)) := by
  induction hs with
  | nil => exact .nil
  | cons hsees _ ih =>
    refine .cons ⟨_, ht.nextChain_of_sees hv hsees (hsub _ List.mem_cons_self), rfl⟩ ?_
    exact ih fun o ho => hsub o (List.mem_cons_of_mem _ ho)

/-- **The program has the structure of the graph.** The main block is made of the chains from the
entry points, and the blocks of every part are made of the chains behind the exits of its node. -/
theorem program_mirrors (hv : g.Valid) {b : Build} (h : g.buildAlone limit = .ok b) :
    (∃ blocks, List.Forall₂ (fun start ids => g.IsBlock (some start) ids) g.entryPoints blocks ∧
      b.program.main.map Statement.node = blocks.flatten) ∧
    ∀ q ∈ b.program.walk, g.Mirrors q := by
  obtain ⟨main, a, hassemble, hprogram⟩ := buildAlone_eq_ok h
  have ht := toured_of_assemble hassemble
  obtain ⟨hmain, parts, hparts, hperm⟩ := assemble_becomes hassemble
  rw [hprogram]
  constructor
  · refine ⟨(g.outline limit).1.map (Outline.kept false), ht.isBlock_starts hv ht.sees ?_, ?_⟩
    · intro o ho v hvo
      exact List.mem_flatMap.mpr ⟨o, ho, hvo⟩
    · rw [← List.flatMap_def]
      exact hmain
  · intro q hq
    rw [a.walk_finish main] at hq
    obtain ⟨r, hr, rfl⟩ := List.mem_map.mp hq
    obtain ⟨v, hvis, hbecomes⟩ := forall₂_exists_left hparts (hperm.mem_iff.mp hr)
    exact (ht.mirrors_of_becomes hv hvis hbecomes).typed a.calls

theorem program_mirrors_sample :
    sample.Valid ∧ ∃ b, sample.buildAlone 100 = .ok b ∧
      (∃ blocks,
        List.Forall₂ (fun start ids => sample.IsBlock (some start) ids) sample.entryPoints blocks ∧
        b.program.main.map Statement.node = blocks.flatten) ∧
      ∀ q ∈ b.program.walk, sample.Mirrors q := by
  obtain ⟨b, hb⟩ := exists_build_sample
  exact ⟨valid_sample, b, hb, program_mirrors valid_sample hb⟩

end Blockflow.Graph
