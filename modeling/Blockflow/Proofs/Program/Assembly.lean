import Blockflow.Proofs.Program.Heading

/-!
# What is assembled from an outline

Every visited node becomes one part of the program (`Visit.Becomes`), and the walk through what has
been assembled meets these parts and no others (`Assembly.chain_becomes`), wherever they have been
put: into the block or the class body that is being built, or among the definitions.
-/

namespace Blockflow

open scoped List

/-! ## Steps of the assembly -/

namespace Assembly

variable {inClass : Bool} {a b : Assembly}

theorem heading_eq_read {n : Node} {h : Heading} (hh : a.heading n = .ok h) :
    ∃ type, n.block? = some type ∧ Heading.read a.symbols n type = .ok h := by
  unfold heading at hh
  split at hh
  next => cases hh
  next type hb =>
    split at hh
    next h' hread =>
      cases hh
      exact ⟨type, hb, hread⟩
    next => cases hh

theorem heading_eq_ok {n : Node} {h : Heading} (hh : a.heading n = .ok h) :
    ∃ type, n.block? = some type ∧ h.Fits n type := by
  obtain ⟨type, hb, hread⟩ := heading_eq_read hh
  exact ⟨type, hb, Heading.read_fits hread⟩

/-- A part is put where it was built, or it is a new definition that is taken out. -/
theorem place_eq_ok {node : String} {q : Part} {here : List Part}
    (h : place inClass node q a = .ok (here, b)) :
    (q.Fits inClass ∧ here = [q] ∧ b = a) ∨
      (inClass = false ∧ here = [] ∧
        ((∃ f, q = .function f ∧ f.name ∉ a.functions.map FunctionDef.name ∧
            b = { a with functions := a.functions ++ [f] }) ∨
          ∃ c, q = .classDef c ∧ c.name ∉ a.classes.map ClassDef.name ∧
            b = { a with classes := a.classes ++ [c] })) := by
  unfold place at h
  split at h
  next => cases h; exact Or.inl ⟨rfl, rfl, rfl⟩
  next => cases h; exact Or.inl ⟨rfl, rfl, rfl⟩
  next => cases h
  next f =>
    split at h
    next => cases h
    next hname =>
      cases h
      exact Or.inr ⟨rfl, rfl, Or.inl ⟨f, rfl, by simpa using hname, rfl⟩⟩
  next c =>
    split at h
    next => cases h
    next hname =>
      cases h
      exact Or.inr ⟨rfl, rfl, Or.inr ⟨c, rfl, by simpa using hname, rfl⟩⟩
  next => cases h; exact Or.inl ⟨rfl, rfl, rfl⟩

/-- What it takes to put together a chain that starts with a node: the heading, the blocks behind
its exits, its place and the rest of the chain. -/
theorem chain_step_eq_ok {n : Node} {slots : List (Role × Outline)} {next : Outline}
    {parts : List Part} (h : chain inClass (.step n slots next) a = .ok (parts, b)) :
    ∃ (type : BlockType) (heading : Heading) (blocks : List (List Part)) (b₁ : Assembly)
      (here : List Part) (b₂ : Assembly) (rest : List Part),
      n.block? = some type ∧ heading.Fits n type ∧
      chains (n.innerClass inClass) slots { a with symbols := heading.inner a.symbols } =
        .ok (blocks, b₁) ∧
      place inClass n.id (heading.part n.id blocks)
        { b₁ with
          symbols := heading.outer a.symbols b₁.symbols, calls := b₁.calls ++ heading.calls } =
        .ok (here, b₂) ∧
      chain inClass next b₂ = .ok (rest, b) ∧ parts = here ++ rest := by
  rw [chain] at h
  obtain ⟨heading, hheading, h⟩ := bind_eq_ok.mp h
  obtain ⟨type, hb, hf⟩ := heading_eq_ok hheading
  obtain ⟨⟨blocks, b₁⟩, hblocks, h⟩ := bind_eq_ok.mp h
  obtain ⟨⟨here, b₂⟩, hplace, h⟩ := bind_eq_ok.mp h
  obtain ⟨⟨rest, b₃⟩, hnext, h⟩ := bind_eq_ok.mp h
  cases h
  rw [hf.innerClass_eq hb] at hblocks
  exact ⟨type, heading, blocks, b₁, here, b₂, rest, hb, hf, hblocks, hplace, hnext, rfl⟩

/-- The chains behind exits are put together one after the other. -/
theorem chains_cons_eq_ok {role : Role} {o : Outline} {slots : List (Role × Outline)}
    {blocks : List (List Part)} (h : chains inClass ((role, o) :: slots) a = .ok (blocks, b)) :
    ∃ block b₁ rest, chain inClass o a = .ok (block, b₁) ∧ chains inClass slots b₁ = .ok (rest, b) ∧
      blocks = block :: rest := by
  rw [chains] at h
  obtain ⟨⟨block, b₁⟩, hchain, h⟩ := bind_eq_ok.mp h
  obtain ⟨⟨rest, b₂⟩, hrest, h⟩ := bind_eq_ok.mp h
  cases h
  exact ⟨block, b₁, rest, hchain, hrest, rfl⟩

mutual

/-- An outline with a fault is not assembled. -/
theorem faultless_of_chain : ∀ {o : Outline} {inClass : Bool} {a b : Assembly} {parts : List Part},
    chain inClass o a = .ok (parts, b) → o.Faultless
  | .done, _, _, _, _, _ => trivial
  | .fault _ _, _, _, _, _, h => by rw [chain] at h; cases h
  | .missing _, _, _, _, _, h => by rw [chain] at h; cases h
  | .step n slots next, inClass, a, b, parts, h => by
    obtain ⟨type, heading, blocks, b₁, here, b₂, rest, -, -, hslots, -, hnext, -⟩ :=
      chain_step_eq_ok h
    exact ⟨slotsFaultless_of_chains hslots, faultless_of_chain hnext⟩

theorem slotsFaultless_of_chains : ∀ {slots : List (Role × Outline)} {inClass : Bool}
    {a b : Assembly} {blocks : List (List Part)}, chains inClass slots a = .ok (blocks, b) →
      Outline.SlotsFaultless slots
  | [], _, _, _, _, _ => trivial
  | (role, o) :: slots, _, _, _, _, h => by
    obtain ⟨block, b₁, rest, hchain, hrest, -⟩ := chains_cons_eq_ok h
    exact ⟨faultless_of_chain hchain, slotsFaultless_of_chains hrest⟩

end

/-! ## Where the parts are -/

/-- All parts of the definitions that were taken out. -/
def walk (a : Assembly) : List Part :=
  a.classes.flatMap ClassDef.walk ++ a.functions.flatMap FunctionDef.walk

/-- Between two states of the assembly, the parts `new` have been added: they are met among the
definitions or in what has been built. -/
def Gains (a b : Assembly) (parts new : List Part) : Prop :=
  (b.walk ++ parts.flatMap Part.walk).Perm (a.walk ++ new)

/-- What is gained in two steps is gained in one. -/
theorem Gains.append {c : Assembly} {p q new₁ new₂ : List Part} (h₁ : a.Gains b p new₁)
    (h₂ : b.Gains c q new₂) : a.Gains c (p ++ q) (new₁ ++ new₂) := by
  have hswap : ∀ x y z : List Part, (x ++ y ++ z).Perm (x ++ z ++ y) := by
    intro x y z
    rw [List.append_assoc, List.append_assoc]
    exact List.perm_append_comm.append_left x
  unfold Gains
  rw [List.flatMap_append, ← List.append_assoc, ← List.append_assoc]
  calc c.walk ++ p.flatMap Part.walk ++ q.flatMap Part.walk
    _ ~ c.walk ++ q.flatMap Part.walk ++ p.flatMap Part.walk := hswap _ _ _
    _ ~ b.walk ++ new₂ ++ p.flatMap Part.walk := h₂.append_right _
    _ ~ b.walk ++ p.flatMap Part.walk ++ new₂ := hswap _ _ _
    _ ~ a.walk ++ new₁ ++ new₂ := h₁.append_right _

/-- A part that is put in its place is there with all parts inside of it, and all others are where
they were. -/
theorem gains_place {node : String} {q : Part} {here : List Part}
    (h : place inClass node q a = .ok (here, b)) : a.Gains b here q.walk := by
  unfold Gains
  rcases place_eq_ok h with ⟨-, rfl, rfl⟩ | ⟨-, rfl, ⟨f, rfl, -, rfl⟩ | ⟨c, rfl, -, rfl⟩⟩
  · simp
  · simp [walk, Part.walk]
  · simp only [walk, Part.walk, List.flatMap_append, List.flatMap_cons, List.flatMap_nil,
      List.append_nil, List.append_assoc]
    exact List.perm_append_comm.append_left _

/-- A part is added after the parts inside of it. -/
theorem Gains.cons {c : Assembly} {q : Part} {inner here new : List Part}
    (hinner : a.Gains b inner new) (hq : q.walk = q :: inner.flatMap Part.walk)
    (hhere : b.Gains c here q.walk) : a.Gains c here (q :: new) := by
  unfold Gains at hinner hhere ⊢
  rw [hq] at hhere
  calc c.walk ++ here.flatMap Part.walk
    _ ~ b.walk ++ q :: inner.flatMap Part.walk := hhere
    _ ~ q :: (b.walk ++ inner.flatMap Part.walk) := List.perm_middle
    _ ~ q :: (a.walk ++ new) := hinner.cons q
    _ ~ a.walk ++ q :: new := List.perm_middle.symm

end Assembly

/-! ## What a visit becomes -/

/-- Is the node a function or a class? -/
def Node.isDefinition (n : Node) : Bool := n.block?.any BlockType.isDefinition

theorem Node.isDefinition_iff {n : Node} :
    n.isDefinition = true ↔ ∃ type, n.block? = some type ∧ type.isDefinition = true := by
  unfold isDefinition
  cases n.block? with
  | none => simp
  | some type => simp

namespace Outline

/-- The nodes of a chain, without those inside of them. -/
def chainNodes : Outline → List Node
  | .step n _ next => n :: next.chainNodes
  | _ => []

/-- The nodes of a chain that stay in it: definitions stay in class bodies only. -/
def kept (inClass : Bool) (o : Outline) : List String :=
  (o.chainNodes.filter fun n => inClass || !n.isDefinition).map Node.id

/-- The parts that a chain is to become: those of the nodes that stay in it. -/
def Fills (o : Outline) (inClass : Bool) (parts : List Part) : Prop :=
  (∀ q ∈ parts, q.Fits inClass) ∧ parts.map Part.node = o.kept inClass

end Outline

/-- The part that a visited node becomes. Its blocks are filled by what is behind the exits. -/
inductive Visit.Becomes (v : Visit) : Part → Prop where
  | intro {type : BlockType} {heading : Heading} {blocks : List (List Part)}
      (kind : v.node.block? = some type) (fits : heading.Fits v.node type)
      (member : v.place.inClass = true → type.isMember = true)
      (filled : List.Forall₂ (fun (slot : Role × Outline) block =>
        slot.2.Fills (v.node.innerClass v.place.inClass) block) v.slots blocks) :
      v.Becomes (heading.part v.node.id blocks)

theorem Visit.Becomes.node_eq {v : Visit} {q : Part} (h : v.Becomes q) : q.node = v.node.id := by
  cases h with
  | intro kind fits member filled => exact fits.node_part _

theorem Visit.map_node_of_becomes {vs : List Visit} {parts : List Part}
    (h : List.Forall₂ Visit.Becomes vs parts) :
    parts.map Part.node = vs.map fun v => v.node.id := by
  induction h with
  | nil => rfl
  | cons hbecomes _ ih => rw [List.map_cons, List.map_cons, hbecomes.node_eq, ih]

namespace Assembly

/-- What stays of a single node where it was built. -/
theorem place_fills {n : Node} {type : BlockType} {heading : Heading} {inClass : Bool}
    {blocks : List (List Part)} {a b : Assembly} {here : List Part}
    (hf : heading.Fits n type) (hb : n.block? = some type)
    (h : place inClass n.id (heading.part n.id blocks) a = .ok (here, b)) :
    (inClass = true → type.isMember = true) ∧ (∀ q ∈ here, q.Fits inClass) ∧
      here.map Part.node = if inClass || !n.isDefinition then [n.id] else [] := by
  have hdef : n.isDefinition = type.isDefinition := by rw [Node.isDefinition, hb]; rfl
  have hstatement := hf.isStatement_part blocks
  rcases place_eq_ok h with ⟨hfits, rfl, -⟩ | ⟨rfl, rfl, hq⟩
  · refine ⟨?_, by simpa using hfits, ?_⟩
    · rintro rfl
      rw [← hf.isMember_part blocks]
      exact hfits
    · cases inClass with
      | true => simp [hf.node_part blocks]
      | false =>
        rw [show (heading.part n.id blocks).isStatement = true from hfits] at hstatement
        simp [hf.node_part blocks, hdef, hstatement]
  · -- only definitions are taken out
    have htaken : type.isDefinition = true := by
      rcases hq with ⟨f, hq, -⟩ | ⟨c, hq, -⟩ <;>
      · rw [hq] at hstatement
        simpa [Part.isStatement] using hstatement
    exact ⟨by simp, by simp, by simp [hdef, htaken]⟩

/-- A chain is filled by its first node, if that stays in place, and the rest. -/
theorem fills_step {n : Node} {slots : List (Role × Outline)} {next : Outline} {inClass : Bool}
    {here rest : List Part} (hhere : ∀ q ∈ here, q.Fits inClass)
    (hnode : here.map Part.node = if inClass || !n.isDefinition then [n.id] else [])
    (hrest : next.Fills inClass rest) :
    (Outline.step n slots next).Fills inClass (here ++ rest) := by
  refine ⟨fun q hq => (List.mem_append.mp hq).elim (hhere q) (hrest.1 q), ?_⟩
  rw [List.map_append, hnode, hrest.2, Outline.kept, Outline.kept, Outline.chainNodes,
    List.filter_cons]
  split <;> simp_all

variable {t : Tour}

mutual

/-- **Every visited node becomes one part, and these are the parts that are met.** -/
theorem chain_becomes : ∀ {o : Outline} {p : Place} {start : Option String}, t.Sees p start o →
    ∀ {a b : Assembly} {parts : List Part}, chain p.inClass o a = .ok (parts, b) →
      o.Fills p.inClass parts ∧ ∃ new, List.Forall₂ Visit.Becomes (o.visits p) new ∧
        a.Gains b parts new
  | .done, _, _, _, _, _, _, h => by
    rw [chain] at h
    cases h
    exact ⟨⟨by simp, rfl⟩, [], .nil, .refl _⟩
  | .fault _ _, _, _, _, _, _, _, h => by rw [chain] at h; cases h
  | .missing _, _, _, _, _, _, _, h => by rw [chain] at h; cases h
  | .step n slots next, _, none, hs, _, _, _, _ => by simp [Tour.Sees] at hs
  | .step n slots next, p, some start, hs, a, b, parts, h => by
    rw [Tour.Sees] at hs
    obtain ⟨type, heading, blocks, b₁, here, b₂, rest, hb, hf, hslots, hplace, hnext, rfl⟩ :=
      chain_step_eq_ok h
    obtain ⟨hfilled, new₁, hnew₁, hgains₁⟩ := chains_becomes hs.2.2.1 hslots
    obtain ⟨hrest, new₂, hnew₂, hgains₂⟩ := chain_becomes hs.2.2.2 hnext
    obtain ⟨hmember, hhere, hnode⟩ := place_fills hf hb hplace
    -- the visits are in the order of the walk, though the node takes its place after its exits
    refine ⟨fills_step hhere hnode hrest, heading.part n.id blocks :: (new₁ ++ new₂), ?_, ?_⟩
    · rw [Outline.visits]
      exact .cons (.intro hb hf hmember hfilled) (List.rel_append hnew₁ hnew₂)
    · have hlen : blocks.length = n.slotRoles.length := by
        rw [← hs.2.1, List.length_map, hfilled.length_eq]
      have hfits : ∀ block ∈ blocks, ∀ q ∈ block, Part.Fits (n.innerClass p.inClass) q :=
        fun block hblock => by
          obtain ⟨slot, -, hfill⟩ := forall₂_exists_left hfilled hblock
          exact hfill.1
      have hwalk := hf.walk_part hb hmember hlen hfits
      have hplaced := gains_place hplace
      exact (hgains₁.cons hwalk hplaced).append hgains₂

/-- Behind the exits of a node, each chain fills its block, and the visits become parts. -/
theorem chains_becomes : ∀ {slots : List (Role × Outline)} {p : Place} {n : Node},
    t.SeesSlots p n slots → ∀ {a b : Assembly} {blocks : List (List Part)},
      chains (n.innerClass p.inClass) slots a = .ok (blocks, b) →
        List.Forall₂ (fun (slot : Role × Outline) block =>
            slot.2.Fills (n.innerClass p.inClass) block) slots blocks ∧
          ∃ new, List.Forall₂ Visit.Becomes (Outline.slotVisits (p.inside n) slots) new ∧
            a.Gains b blocks.flatten new
  | [], _, _, _, _, _, _, h => by
    rw [chains] at h
    cases h
    exact ⟨.nil, [], .nil, .refl _⟩
  | (role, o) :: slots, p, n, hs, a, b, blocks, h => by
    rw [Tour.SeesSlots] at hs
    obtain ⟨block, b₁, rest, hchain, hrest, rfl⟩ := chains_cons_eq_ok h
    obtain ⟨hfill, new₁, hnew₁, hgains₁⟩ := chain_becomes hs.2.1 hchain
    obtain ⟨hfilled, new₂, hnew₂, hgains₂⟩ := chains_becomes hs.2.2 hrest
    refine ⟨.cons hfill hfilled, new₁ ++ new₂, ?_, ?_⟩
    · rw [Outline.slotVisits]
      exact List.rel_append hnew₁ hnew₂
    · exact hgains₁.append hgains₂

end

theorem mainBlock_cons_eq_ok {o : Outline} {os : List Outline} {a b : Assembly} {main : Block}
    (h : mainBlock (o :: os) a = .ok (main, b)) :
    ∃ parts b₁ rest, chain false o a = .ok (parts, b₁) ∧ mainBlock os b₁ = .ok (rest, b) ∧
      main = Heading.block parts ++ rest := by
  rw [mainBlock] at h
  obtain ⟨⟨parts, b₁⟩, hchain, h⟩ := bind_eq_ok.mp h
  obtain ⟨⟨rest, b₂⟩, hrest, h⟩ := bind_eq_ok.mp h
  cases h
  exact ⟨parts, b₁, rest, hchain, hrest, rfl⟩

/-- An outline that is put together has no fault. -/
theorem faultless_of_mainBlock : ∀ {os : List Outline} {a b : Assembly} {main : Block},
    mainBlock os a = .ok (main, b) → ∀ o ∈ os, o.Faultless
  | [], _, _, _, _, _, ho => absurd ho List.not_mem_nil
  | o :: os, _, _, _, h, o', ho => by
    obtain ⟨parts, b₁, rest, hchain, hrest, -⟩ := mainBlock_cons_eq_ok h
    rcases List.mem_cons.mp ho with rfl | ho
    · exact faultless_of_chain hchain
    · exact faultless_of_mainBlock hrest o' ho

/-- The main block keeps the nodes that define nothing, and all visits become parts. -/
theorem mainBlock_becomes {starts : List String} {os : List Outline}
    (hs : List.Forall₂ (fun start o => t.Sees {} (some start) o) starts os) :
    ∀ {a b : Assembly} {main : Block}, mainBlock os a = .ok (main, b) →
      main.map Statement.node = os.flatMap (Outline.kept false) ∧
        ∃ new, List.Forall₂ Visit.Becomes (os.flatMap (Outline.visits {})) new ∧
          a.Gains b (main.map .statement) new := by
  induction hs with
  | nil =>
    intro a b main h
    rw [mainBlock] at h
    cases h
    exact ⟨rfl, [], .nil, .refl _⟩
  | cons hsees _ ih =>
    intro a b main h
    obtain ⟨parts, b₁, rest, hchain, hrest, rfl⟩ := mainBlock_cons_eq_ok h
    obtain ⟨⟨hfits, hnodes⟩, new₁, hnew₁, hgains₁⟩ := chain_becomes hsees hchain
    obtain ⟨hmain, new₂, hnew₂, hgains₂⟩ := ih hrest
    refine ⟨?_, new₁ ++ new₂, List.rel_append hnew₁ hnew₂, ?_⟩
    · rw [List.map_append, hmain, List.flatMap_cons, Heading.map_node_block hfits, hnodes]
    · rw [List.map_append, Heading.map_statement_block hfits]
      exact hgains₁.append hgains₂

end Assembly

/-! ## The program of a graph -/

namespace Graph

variable {g : Graph} {limit : Int}

/-- A graph is assembled if its outline is put together and misses no node. -/
theorem assemble_eq_ok {main : Block} {a : Assembly} :
    g.assemble limit = .ok (main, a) ↔
      Assembly.mainBlock (g.outline limit).1 {} = .ok (main, a) ∧
        g.unplaced? (g.outline limit).2 = none := by
  unfold assemble
  generalize g.outline limit = toured
  constructor
  · intro h
    obtain ⟨⟨main', a'⟩, hmain, h⟩ := bind_eq_ok.mp h
    cases hplaced : g.unplaced? toured.2 with
    | none =>
      rw [hplaced] at h
      cases h
      exact ⟨hmain, rfl⟩
    | some id =>
      rw [hplaced] at h
      cases h
  · rintro ⟨hmain, hplaced⟩
    refine bind_eq_ok.mpr ⟨(main, a), hmain, ?_⟩
    rw [hplaced]
    rfl

/-- A graph from which a program is assembled has been toured completely. -/
theorem toured_of_assemble {main : Block} {a : Assembly} (h : g.assemble limit = .ok (main, a)) :
    g.Toured limit := by
  obtain ⟨hmain, hplaced⟩ := assemble_eq_ok.mp h
  exact ⟨⟨Assembly.faultless_of_mainBlock hmain⟩, unplaced?_eq_none_iff.mp hplaced⟩

/-- **The parts of the program are those that the visited nodes become.** -/
theorem assemble_becomes {main : Block} {a : Assembly} (h : g.assemble limit = .ok (main, a)) :
    main.map Statement.node = (g.outline limit).1.flatMap (Outline.kept false) ∧
      ∃ parts, List.Forall₂ Visit.Becomes (g.visits limit) parts ∧
        (a.walk ++ (Block.walk main).map Part.statement).Perm parts := by
  obtain ⟨hmain, -⟩ := assemble_eq_ok.mp h
  obtain ⟨hnodes, parts, hparts, hgains⟩ :=
    Assembly.mainBlock_becomes (toured_of_assemble h).sees hmain
  refine ⟨hnodes, parts, hparts, ?_⟩
  rw [Block.walk_eq]
  exact hgains

end Graph

end Blockflow
