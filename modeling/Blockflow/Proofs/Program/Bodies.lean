import Blockflow.Proofs.Outline.Emptied
import Blockflow.Proofs.Program.Rebuild

/-!
# Functions do not depend on the bodies of other functions

A function has its own visible names, and the names around it are the same before and after it. So
taking away its body changes nothing else in a program (`Graph.buildAlone_emptied`): the main block,
the classes and the other functions are put together in the same way. Only the calls in the body are
no longer met, and with them the types that they gave to parameters.
-/

namespace Blockflow

/-! ## Programs without a body -/

/-- The function without its body if it was built from the node. -/
def FunctionDef.emptied (root : String) (f : FunctionDef) : FunctionDef :=
  if f.node = root then { f with body := [] } else f

def Member.emptied (root : String) : Member → Member
  | .method f => .method (f.emptied root)
  | .field d => .field d
  | .stray s => .stray s

def ClassDef.emptied (root : String) (c : ClassDef) : ClassDef :=
  { c with members := c.members.map (Member.emptied root) }

def Part.emptied (root : String) : Part → Part
  | .statement s => .statement s
  | .function f => .function (f.emptied root)
  | .classDef c => .classDef (c.emptied root)

/-- The program where the function of a node has no body, whether it is a method or not. -/
def Program.emptied (root : String) (p : Program) : Program :=
  { p with
    classes := p.classes.map (ClassDef.emptied root)
    functions := p.functions.map (FunctionDef.emptied root) }

/-- The program whose untyped parameters have the types of the first calls. -/
def Program.typed (calls : List CallSite) (p : Program) : Program :=
  { p with
    classes := p.classes.map (ClassDef.typed calls)
    functions := p.functions.map (FunctionDef.typed calls) }

variable {root : String}

theorem FunctionDef.name_emptied (root : String) (f : FunctionDef) :
    (f.emptied root).name = f.name := by
  unfold emptied
  split <;> rfl

/-- Losing its body, a part stays where it may stand. -/
theorem Part.fits_emptied_iff {inClass : Bool} {q : Part} :
    (q.emptied root).Fits inClass ↔ q.Fits inClass := by
  cases q <;> rfl

namespace Heading

theorem block_map_emptied (parts : List Part) :
    block (parts.map (Part.emptied root)) = block parts := by
  rw [block, List.filterMap_map]
  refine congrArg (List.filterMap · parts) (funext fun q => ?_)
  cases q <;> rfl

theorem members_map_emptied (parts : List Part) :
    members (parts.map (Part.emptied root)) = (members parts).map (Member.emptied root) := by
  rw [members, members, List.filterMap_map, List.map_filterMap]
  refine congrArg (List.filterMap · parts) (funext fun q => ?_)
  cases q with
  | statement s => cases s <;> rfl
  | function f => rfl
  | classDef c => rfl

theorem getD_map_emptied (blocks : List (List Part)) (i : Nat) :
    (blocks.map (List.map (Part.emptied root))).getD i [] =
      (blocks.getD i []).map (Part.emptied root) := by
  rw [List.getD_eq_getElem?_getD, List.getD_eq_getElem?_getD, List.getElem?_map]
  cases blocks[i]? <;> rfl

/-- The part of another node, with the body taken away from what is inside of it. -/
theorem part_map_emptied {node : String} (hnode : node ≠ root) (blocks : List (List Part)) :
    ∀ (h : Heading), h.part node (blocks.map (List.map (Part.emptied root))) =
      (h.part node blocks).emptied root
  | .plain _ | .declare _ | .call _ => rfl
  | .branch _ | .forLoop _ _ _ _ _ | .whileLoop _ => by
    simp only [part, getD_map_emptied, block_map_emptied, Part.emptied]
  | .switch _ _ _ => by
    simp only [part, getD_map_emptied, block_map_emptied, List.map_map, Part.emptied]
    congr 3
    exact List.map_congr_left fun parts _ => block_map_emptied parts
  | .function _ _ => by
    simp only [part, getD_map_emptied, block_map_emptied, Part.emptied, FunctionDef.emptied,
      if_neg hnode]
  | .classDef _ => by
    simp only [part, getD_map_emptied, members_map_emptied, Part.emptied, ClassDef.emptied]

/-- The sites of a node are its own. -/
theorem Fits.node_of_mem_calls {n : Node} {type : BlockType} {h : Heading} (hf : h.Fits n type) :
    ∀ site ∈ h.calls, site.node = n.id := by
  intro site hsite
  cases hf with
  | call hnode =>
    rw [calls, List.mem_singleton] at hsite
    rw [hsite, hnode]
  | _ => exact absurd hsite List.not_mem_nil

end Heading

namespace Assembly

/-! ## Chains without definitions -/

/-- What is met between two states of the assembly if nothing is defined: the visible names may
change, and calls are added that belong to some nodes. -/
structure Notes (a b : Assembly) (nodes : List String) : Prop where
  functions : b.functions = a.functions
  classes : b.classes = a.classes
  calls : ∃ sites, b.calls = a.calls ++ sites ∧ ∀ site ∈ sites, site.node ∈ nodes

theorem Notes.refl (a : Assembly) : a.Notes a [] := ⟨rfl, rfl, [], by simp, by simp⟩

/-- What is met in two steps is met in one, with the nodes of both. -/
theorem Notes.trans {a b c : Assembly} {nodes more : List String} (h : a.Notes b nodes)
    (h' : b.Notes c more) : a.Notes c (nodes ++ more) := by
  obtain ⟨sites, hsites, hnodes⟩ := h.calls
  obtain ⟨sites', hsites', hmore⟩ := h'.calls
  refine ⟨h'.functions.trans h.functions, h'.classes.trans h.classes, sites ++ sites', ?_, ?_⟩
  · rw [hsites', hsites, List.append_assoc]
  · intro site hsite
    rcases List.mem_append.mp hsite with hsite | hsite
    · exact List.mem_append_left _ (hnodes site hsite)
    · exact List.mem_append_right _ (hmore site hsite)

theorem Notes.mono {a b : Assembly} {nodes more : List String} (h : a.Notes b nodes)
    (hsub : nodes ⊆ more) : a.Notes b more := by
  obtain ⟨sites, hsites, hnodes⟩ := h.calls
  exact ⟨h.functions, h.classes, sites, hsites, fun site hsite => hsub (hnodes site hsite)⟩

mutual

/-- **A chain without definitions takes nothing out.** -/
theorem notes_chain : ∀ {o : Outline} {inClass : Bool} {a b : Assembly} {parts : List Part},
    chain inClass o a = .ok (parts, b) → (∀ n ∈ o.nodes, n.isDefinition = false) →
      a.Notes b o.ids
  | .done, _, _, _, _, h, _ => by
    rw [chain] at h
    cases h
    exact .refl _
  | .fault _ _, _, _, _, _, h, _ => by rw [chain] at h; cases h
  | .missing _, _, _, _, _, h, _ => by rw [chain] at h; cases h
  | .step n slots next, inClass, a, b, parts, h, hplain => by
    obtain ⟨type, heading, blocks, b₁, here, b₂, rest, hb, hf, hslots, hplace, hnext, -⟩ :=
      chain_step_eq_ok h
    rw [Outline.nodes, List.forall_mem_cons, List.forall_mem_append] at hplain
    obtain ⟨hdef, hplainSlots, hplainNext⟩ := hplain
    have hinner : a.Notes b₁ (Outline.slotIds slots) := by
      obtain ⟨hfunctions, hclasses, hcalls⟩ := notes_chains hslots hplainSlots
      exact ⟨hfunctions, hclasses, hcalls⟩
    have hhere : b₁.Notes b₂ [n.id] := by
      have hsites : ∀ site ∈ heading.calls, site.node ∈ [n.id] := fun site hsite =>
        List.mem_singleton.mpr (hf.node_of_mem_calls site hsite)
      have hstatement := hf.isStatement_part blocks
      rw [show type.isDefinition = false by simpa [Node.isDefinition, hb] using hdef] at hstatement
      rcases place_eq_ok hplace with ⟨-, -, rfl⟩ | ⟨-, -, ⟨f, hq, -⟩ | ⟨c, hq, -⟩⟩
      · exact ⟨rfl, rfl, heading.calls, rfl, hsites⟩
      · rw [hq] at hstatement
        cases hstatement
      · rw [hq] at hstatement
        cases hstatement
    rw [Outline.ids_step]
    exact ((hinner.trans hhere).trans (notes_chain hnext hplainNext)).mono (by simp)

/-- Behind exits without definitions, only calls are added. -/
theorem notes_chains : ∀ {slots : List (Role × Outline)} {inClass : Bool} {a b : Assembly}
    {blocks : List (List Part)}, chains inClass slots a = .ok (blocks, b) →
      (∀ n ∈ Outline.slotNodes slots, n.isDefinition = false) → a.Notes b (Outline.slotIds slots)
  | [], _, _, _, _, h, _ => by
    rw [chains] at h
    cases h
    exact .refl _
  | (role, o) :: slots, _, _, _, _, h, hplain => by
    obtain ⟨block, b₁, rest, hchain, hrest, -⟩ := chains_cons_eq_ok h
    rw [Outline.slotNodes, List.forall_mem_append] at hplain
    rw [Outline.slotIds_cons]
    exact (notes_chain hchain hplain.1).trans (notes_chains hrest hplain.2)

end

/-! ## Assembling without a body -/

/-- One assembly has met the same as another one, except for the body of a function and the calls in
it. -/
structure Empties (a' a : Assembly) (root : String) (body : List String) : Prop where
  symbols : a'.symbols = a.symbols
  functions : a'.functions = a.functions.map (FunctionDef.emptied root)
  classes : a'.classes = a.classes.map (ClassDef.emptied root)
  calls : a'.calls = a.calls.filter (!body.contains ·.node)

/-- The function is where the body is, and nothing is defined there. -/
def IsBody (root : String) (body : List String) (v : Visit) : Prop :=
  v.node.id = root → v.node.block? = some .function ∧
    ∀ n ∈ Outline.slotNodes v.slots, n.isDefinition = false ∧ n.id ∈ body

/-- Emptied exits put nothing together. -/
theorem chains_map_done (inClass : Bool) (a : Assembly) : ∀ (slots : List (Role × Outline)),
    chains inClass (slots.map fun slot => (slot.1, .done)) a = .ok (slots.map fun _ => [], a)
  | [] => by rw [List.map_nil, chains]; rfl
  | slot :: slots => by
    rw [List.map_cons, chains, chain]
    exact bind_eq_ok.mpr ⟨([], a), rfl,
      bind_eq_ok.mpr ⟨(slots.map fun _ => [], a), chains_map_done inClass a slots, rfl⟩⟩

namespace Empties

variable {a a' b : Assembly} {body : List String} {inClass : Bool}

/-- Placing a part keeps the two assemblies together. -/
theorem place (h : a'.Empties a root body) {node : String} {q : Part} {here : List Part}
    (hplace : place inClass node q a = .ok (here, b)) :
    ∃ b', Assembly.place inClass node (q.emptied root) a' =
        .ok (here.map (Part.emptied root), b') ∧ b'.Empties b root body := by
  rcases place_eq_ok hplace with
    ⟨hfits, rfl, rfl⟩ | ⟨rfl, rfl, ⟨f, rfl, hname, rfl⟩ | ⟨c, rfl, hname, rfl⟩⟩
  · exact ⟨a', place_of_fits (Part.fits_emptied_iff.mpr hfits) node a', h⟩
  · have hnames : a'.functions.map FunctionDef.name = a.functions.map FunctionDef.name := by
      rw [h.functions, List.map_map]
      exact List.map_congr_left fun f _ => f.name_emptied root
    have hname' : ¬ a'.functions.any (·.name = (f.emptied root).name) = true := by
      rw [any_name_iff, hnames, f.name_emptied root]
      exact hname
    refine ⟨_, if_neg hname', h.symbols, ?_, h.classes, h.calls⟩
    rw [List.map_append, h.functions]
    rfl
  · have hnames : a'.classes.map ClassDef.name = a.classes.map ClassDef.name := by
      rw [h.classes, List.map_map]
      rfl
    have hname' : ¬ a'.classes.any (·.name = (c.emptied root).name) = true := by
      rw [any_name_iff, hnames]
      exact hname
    refine ⟨_, if_neg hname', h.symbols, h.functions, ?_, h.calls⟩
    rw [List.map_append, h.classes]
    rfl

theorem inner (h : a'.Empties a root body) (heading : Heading) :
    Empties { a' with symbols := heading.inner a'.symbols }
      { a with symbols := heading.inner a.symbols } root body :=
  ⟨congrArg (Heading.inner · heading) h.symbols, h.functions, h.classes, h.calls⟩

/-- A node outside of the body adds the same calls. -/
theorem outer {b' : Assembly} (h : a'.Empties a root body) (hl : b'.Empties b root body) {n : Node}
    (hnode : n.id ∉ body) {type : BlockType} {heading : Heading} (hf : heading.Fits n type) :
    Empties { b' with symbols := heading.outer a'.symbols b'.symbols
                      calls := b'.calls ++ heading.calls }
      { b with symbols := heading.outer a.symbols b.symbols
               calls := b.calls ++ heading.calls } root body := by
  have hcalls : heading.calls.filter (!body.contains ·.node) = heading.calls := by
    refine List.filter_eq_self.mpr fun site hsite => ?_
    rw [hf.node_of_mem_calls site hsite]
    simpa using hnode
  refine ⟨by rw [h.symbols, hl.symbols], hl.functions, hl.classes, ?_⟩
  rw [List.filter_append, hcalls, hl.calls]

/-- A function whose body is taken away is put together as before, but for the body. -/
theorem function (h : a'.Empties a root body) {n : Node} (hid : n.id = root)
    {slots : List (Role × Outline)}
    (hbody : ∀ m ∈ Outline.slotNodes slots, m.isDefinition = false ∧ m.id ∈ body)
    {heading : Heading} (hf : heading.Fits n .function) {blocks : List (List Part)} {b₁ : Assembly}
    (hslots : Assembly.chains (n.innerClass inClass) slots
      { a with symbols := heading.inner a.symbols } = .ok (blocks, b₁)) :
    heading.part n.id (slots.map fun _ => []) = (heading.part n.id blocks).emptied root ∧
      Empties { a' with symbols := heading.outer a'.symbols (heading.inner a'.symbols)
                        calls := a'.calls ++ heading.calls }
        { b₁ with symbols := heading.outer a.symbols b₁.symbols
                  calls := b₁.calls ++ heading.calls } root body := by
  have hnotes := notes_chains hslots fun m hm => (hbody m hm).1
  obtain ⟨sites, hsites, hnodes⟩ := hnotes.calls
  -- what the body adds to the calls is filtered out again
  have hinside : sites.filter (!body.contains ·.node) = [] := by
    refine List.filter_eq_nil_iff.mpr fun site hsite => ?_
    obtain ⟨m, hm, hmid⟩ := List.mem_map.mp (hnodes site hsite)
    rw [← hmid]
    simpa using (hbody m hm).2
  cases hf with
  | plain _ hplain _ => cases hplain
  | function =>
    constructor
    · have hnone : (slots.map fun _ => ([] : List Part)).getD 0 [] = [] := by
        cases slots <;> rfl
      rw [Heading.part, hnone, Heading.part, Part.emptied, FunctionDef.emptied, if_pos hid]
      rfl
    · refine ⟨h.symbols, h.functions.trans ?_, h.classes.trans ?_, ?_⟩
      · exact congrArg (List.map (FunctionDef.emptied root)) hnotes.functions.symm
      · exact congrArg (List.map (ClassDef.emptied root)) hnotes.classes.symm
      · show a'.calls ++ [] = (b₁.calls ++ []).filter (!body.contains ·.node)
        rw [List.append_nil, List.append_nil, hsites, List.filter_append, hinside, List.append_nil]
        exact h.calls

mutual

/-- **A chain is put together as before, but for the body.** -/
theorem chain : ∀ {o : Outline} {p : Place} {a a' b : Assembly} {parts : List Part},
    a'.Empties a root body → (∀ v ∈ o.visits p, IsBody root body v) →
      (∀ id ∈ (o.emptied root).ids, id ∉ body) → Assembly.chain p.inClass o a = .ok (parts, b) →
      ∃ b', Assembly.chain p.inClass (o.emptied root) a' =
          .ok (parts.map (Part.emptied root), b') ∧ b'.Empties b root body
  | .done, _, _, a', _, _, h, _, _, hchain => by
    rw [Assembly.chain] at hchain
    cases hchain
    exact ⟨a', by rw [Outline.emptied, Assembly.chain]; rfl, h⟩
  | .fault _ _, _, _, _, _, _, _, _, _, hchain => by rw [Assembly.chain] at hchain; cases hchain
  | .missing _, _, _, _, _, _, _, _, _, hchain => by rw [Assembly.chain] at hchain; cases hchain
  | .step n slots next, p, a, a', b, parts, h, hbody, hout, hchain => by
    obtain ⟨heading, blocks, b₁, here, b₂, rest, hheading, hslots, hplace, hnext, rfl⟩ :=
      chain_step_iff.mp hchain
    obtain ⟨type, hb, hf⟩ := heading_eq_ok hheading
    have hheading' := (heading_congr h.symbols n).trans hheading
    rw [Outline.visits, List.forall_mem_cons, List.forall_mem_append] at hbody
    obtain ⟨hhere, hbodySlots, hbodyNext⟩ := hbody
    have houtNext : ∀ id ∈ (next.emptied root).ids, id ∉ body := fun id hid =>
      hout id (by rw [Outline.emptied, Outline.ids_step]; simp [hid])
    -- the slots first, then the node itself and the rest of the chain
    obtain ⟨slots', blocks', b₁', hemptied, hslots', hpart, hl⟩ :
        ∃ slots' blocks' b₁', (Outline.step n slots next).emptied root =
            .step n slots' (next.emptied root) ∧
          Assembly.chains (n.innerClass p.inClass) slots'
            { a' with symbols := heading.inner a'.symbols } = .ok (blocks', b₁') ∧
          heading.part n.id blocks' = (heading.part n.id blocks).emptied root ∧
          Empties { b₁' with symbols := heading.outer a'.symbols b₁'.symbols
                             calls := b₁'.calls ++ heading.calls }
            { b₁ with symbols := heading.outer a.symbols b₁.symbols
                      calls := b₁.calls ++ heading.calls } root body := by
      by_cases hid : n.id = root
      · obtain ⟨hfunction, hinside⟩ := hhere hid
        cases hb.symm.trans hfunction
        obtain ⟨hpart, hl⟩ := h.function hid hinside hf hslots
        exact ⟨_, _, _, Outline.emptied_step_self hid slots next, chains_map_done _ _ _, hpart, hl⟩
      · have hemptied := Outline.emptied_step_of_ne hid slots next
        rw [hemptied, Outline.ids_step, List.forall_mem_cons, List.forall_mem_append] at hout
        obtain ⟨hnode, houtSlots, -⟩ := hout
        obtain ⟨b₁', hslots', hl⟩ :=
          chains (p := p.inside n) (h.inner heading) hbodySlots houtSlots hslots
        exact ⟨_, _, b₁', hemptied, hslots', Heading.part_map_emptied hid blocks heading,
          h.outer hl hnode hf⟩
    obtain ⟨b₂', hplace', hl₂⟩ := hl.place hplace
    rw [← hpart] at hplace'
    obtain ⟨b', hnext', hl'⟩ := chain hl₂ hbodyNext houtNext hnext
    refine ⟨b', ?_, hl'⟩
    rw [hemptied, List.map_append]
    exact chain_step_iff.mpr
      ⟨heading, blocks', b₁', _, b₂', _, hheading', hslots', hplace', hnext', rfl⟩

/-- Putting together the chains behind exits keeps the two assemblies together. -/
theorem chains : ∀ {slots : List (Role × Outline)} {p : Place} {a a' b : Assembly}
    {blocks : List (List Part)}, a'.Empties a root body →
      (∀ v ∈ Outline.slotVisits p slots, IsBody root body v) →
      (∀ id ∈ Outline.slotIds (Outline.emptiedSlots root slots), id ∉ body) →
      Assembly.chains p.inClass slots a = .ok (blocks, b) →
      ∃ b', Assembly.chains p.inClass (Outline.emptiedSlots root slots) a' =
          .ok (blocks.map (List.map (Part.emptied root)), b') ∧ b'.Empties b root body
  | [], _, _, a', _, _, h, _, _, hchains => by
    rw [Assembly.chains] at hchains
    cases hchains
    exact ⟨a', by rw [Outline.emptiedSlots, Assembly.chains]; rfl, h⟩
  | (role, o) :: slots, p, a, a', b, blocks, h, hbody, hout, hchains => by
    obtain ⟨block, b₁, rest, hchain, hrest, rfl⟩ := chains_cons_eq_ok hchains
    rw [Outline.slotVisits, List.forall_mem_append] at hbody
    rw [Outline.emptiedSlots, Outline.slotIds_cons, List.forall_mem_append] at hout
    obtain ⟨b₁', hchain', hl₁⟩ := chain h hbody.1 hout.1 hchain
    obtain ⟨b', hrest', hl'⟩ := chains hl₁ hbody.2 hout.2 hrest
    refine ⟨b', ?_, hl'⟩
    rw [Outline.emptiedSlots, Assembly.chains]
    exact bind_eq_ok.mpr ⟨(_, b₁'), hchain', bind_eq_ok.mpr ⟨(_, b'), hrest', rfl⟩⟩

end

/-- Putting together the main block keeps the two assemblies together. -/
theorem mainBlock : ∀ {os : List Outline} {a a' b : Assembly} {main : Block},
    a'.Empties a root body → (∀ v ∈ os.flatMap (Outline.visits {}), IsBody root body v) →
      (∀ id ∈ (os.map (Outline.emptied root)).flatMap Outline.ids, id ∉ body) →
      Assembly.mainBlock os a = .ok (main, b) →
      ∃ b', Assembly.mainBlock (os.map (Outline.emptied root)) a' = .ok (main, b') ∧
        b'.Empties b root body
  | [], _, a', _, _, h, _, _, hmain => by
    rw [Assembly.mainBlock] at hmain
    cases hmain
    exact ⟨a', by rw [List.map_nil, Assembly.mainBlock], h⟩
  | o :: os, a, a', b, main, h, hbody, hout, hmain => by
    obtain ⟨parts, b₁, rest, hchain, hrest, rfl⟩ := mainBlock_cons_eq_ok hmain
    rw [List.flatMap_cons, List.forall_mem_append] at hbody
    rw [List.map_cons, List.flatMap_cons, List.forall_mem_append] at hout
    obtain ⟨b₁', hchain', hl₁⟩ := chain (p := {}) h hbody.1 hout.1 hchain
    obtain ⟨b', hrest', hl'⟩ := mainBlock hl₁ hbody.2 hout.2 hrest
    refine ⟨b', ?_, hl'⟩
    have hparts : Heading.block (parts.map (Part.emptied root)) = Heading.block parts :=
      Heading.block_map_emptied parts
    rw [List.map_cons, Assembly.mainBlock, ← hparts]
    exact bind_eq_ok.mpr ⟨(_, b₁'), hchain', bind_eq_ok.mpr ⟨(rest, b'), hrest', rfl⟩⟩

end Empties

end Assembly

/-! ## Building without a body -/

namespace Graph

variable {g : Graph} {limit : Int} {n : Node}

/-- The emptied graph is assembled to the same main block, with the function emptied. -/
theorem HasFunction.exists_assemble (h : g.HasFunction root limit)
    (hplain : ∀ m ∈ g.nodes, m.id ∈ g.bodyNodes root → m.isDefinition = false) {main : Block}
    {a : Assembly} (hassemble : g.assemble limit = .ok (main, a)) :
    ∃ a', (g.emptied root).assemble limit = .ok (main, a') ∧
      a'.Empties a root (g.bodyNodes root) := by
  obtain ⟨hmain, -⟩ := assemble_eq_ok.mp hassemble
  have hbody : ∀ v ∈ g.visits limit, Assembly.IsBody root (g.bodyNodes root) v := by
    intro v hvis hid
    obtain ⟨m, hm, hmid, hb⟩ := h.function
    have heq :=
      List.inj_on_of_nodup_map g.nodup (mem_nodes_of_visit hvis) hm (hid.trans hmid.symm)
    refine ⟨heq ▸ hb, fun k hk => ?_⟩
    have hslot : k.id ∈ Outline.slotIds v.slots := List.mem_map_of_mem hk
    have hinside := ((h.cutOut.mem_slotIds_iff h.valid h.toured hvis hid).mp hslot).2
    have hmem : k ∈ g.nodes := by
      obtain ⟨w, hw, rfl⟩ := List.mem_map.mp
        (Outline.map_node_slotVisits v.slots (v.place.inside v.node) ▸ hk)
      refine mem_nodes_of_visit (outline_visits_subset hvis ?_)
      rw [Visit.outline, Outline.visits]
      exact List.mem_cons_of_mem _ (List.mem_append_left _ hw)
    rw [← h.mem_bodyNodes_iff] at hinside
    exact ⟨hplain k hmem hinside, hinside⟩
  have hout : ∀ id ∈ ((g.outline limit).1.map (Outline.emptied root)).flatMap Outline.ids,
      id ∉ g.bodyNodes root := by
    intro id hid
    rw [← h.outline_emptied] at hid
    obtain ⟨m, hm, rfl⟩ := List.mem_map.mp (h.complete_emptied.mem_iff.mp hid)
    rw [h.mem_bodyNodes_iff]
    exact (h.mem_nodes_iff.mp hm).2
  have hstart : ({} : Assembly).Empties {} root (g.bodyNodes root) := ⟨rfl, rfl, rfl, rfl⟩
  obtain ⟨a', hmain', hl⟩ := hstart.mainBlock hbody hout hmain
  rw [← h.outline_emptied] at hmain'
  exact ⟨a', assemble_eq_ok.mpr ⟨hmain', unplaced?_eq_none_iff.mpr h.complete_emptied⟩, hl⟩

/-- A valid graph that can be assembled can be built. -/
theorem buildAlone_of_assemble (hv : g.Valid) {main : Block} {a : Assembly}
    (h : g.assemble limit = .ok (main, a)) :
    g.buildAlone limit = .ok
      { program := a.finish main, symbols := a.symbols, calls := a.calls, lookups := [] } :=
  bind_eq_ok.mpr ⟨(main, a), h, bind_eq_ok.mpr ⟨(), hv.checkNames h, rfl⟩⟩

/-- **The body of a function does not interfere with the rest of the program.** If nothing is
defined in the body, the graph without it is valid and is built into the same program `p`, except
that the function has no body. The types of untyped parameters are taken from the first calls in
both programs; in the second one the calls in the body are missing. -/
theorem buildAlone_emptied (hv : g.Valid) {b : Build} (hb : g.buildAlone limit = .ok b)
    (hn : n ∈ g.nodes) (hfunction : n.block? = some .function)
    (hplain : ∀ m ∈ g.nodes, m.id ∈ g.bodyNodes n.id → m.isDefinition = false) :
    (g.emptied n.id).Valid ∧ ∃ (b' : Build) (p : Program),
      (g.emptied n.id).buildAlone limit = .ok b' ∧
      b'.program.main = b.program.main ∧ b'.symbols = b.symbols ∧
      b'.calls = b.calls.filter (!(g.bodyNodes n.id).contains ·.node) ∧
      b.program = p.typed b.calls ∧ b'.program = (p.emptied n.id).typed b'.calls := by
  obtain ⟨main, a, hassemble, -⟩ := buildAlone_eq_ok hb
  cases (buildAlone_of_assemble hv hassemble).symm.trans hb
  have h : g.HasFunction n.id limit := ⟨hv, toured_of_assemble hassemble, n, hn, rfl, hfunction⟩
  obtain ⟨a', hassemble', hl⟩ := h.exists_assemble hplain hassemble
  refine ⟨h.emptied_valid, _, ⟨a.classes, a.functions, main⟩,
    buildAlone_of_assemble h.emptied_valid hassemble', rfl, hl.symbols, hl.calls, rfl, ?_⟩
  rw [Assembly.finish, hl.functions, hl.classes]
  rfl

/-- A function inside of a loop that calls itself with a text, and is called with a number. -/
def echoing : Graph where
  nodes :=
    [{ id := "loop", type := "for",
       data := [("init", .text "i = 0"), ("condition", .text "i < 3"), ("step", .text "i++")] },
     { id := "echo", type := "functionDefine",
       data := [("name", .text "echo"), ("params", .text "x")] },
     { id := "test", type := "if", data := [("condition", .text "x == 0")] },
     { id := "again", type := "functionCall",
       data := [("name", .text "echo"), ("args", .text "'zero'")] },
     { id := "first", type := "functionCall",
       data := [("name", .text "echo"), ("args", .text "i")] }]
  edges :=
    [{ id := "e1", source := "loop", target := "echo", role := some .body },
     { id := "e2", source := "echo", target := "test", role := some .body },
     { id := "e3", source := "test", target := "again", role := some .whenTrue },
     { id := "e4", source := "echo", target := "first", role := some .next },
     { id := "e5", source := "first", target := "loop", role := some .next }]
  nodup := by decide

/-- A function inside of a loop that calls itself can be emptied. -/
theorem buildAlone_emptied_echoing :
    echoing.Valid ∧ ∃ (b b' : Build) (p : Program), echoing.buildAlone 100 = .ok b ∧
      (echoing.emptied "echo").buildAlone 100 = .ok b' ∧ b'.program.main = b.program.main ∧
      b.program = p.typed b.calls ∧ b'.program = (p.emptied "echo").typed b'.calls ∧
      (b.program.functions.map fun f => f.params.map Param.type) = [[.string]] ∧
      (b'.program.functions.map fun f => f.params.map Param.type) = [[.int]] := by
  have hv : echoing.Valid := by
    unfold Valid
    decide
  obtain ⟨b, hb, htypes⟩ : ∃ b, echoing.buildAlone 100 = .ok b ∧
      decide ((b.program.functions.map fun f => f.params.map Param.type) = [[.string]]) = true :=
    exists_ok_of_any (by decide +kernel)
  obtain ⟨b', hb', htypes'⟩ : ∃ b', (echoing.emptied "echo").buildAlone 100 = .ok b' ∧
      decide ((b'.program.functions.map fun f => f.params.map Param.type) = [[.int]]) = true :=
    exists_ok_of_any (by decide +kernel)
  have hn : echoing.nodes[1] ∈ echoing.nodes := List.getElem_mem _
  obtain ⟨-, _, p, hbuild, hmain, -, -, hp, hp'⟩ :=
    buildAlone_emptied hv hb hn (by decide) (by decide +kernel)
  cases hb'.symm.trans hbuild
  exact ⟨hv, b, b', p, hb, hb', hmain, hp, hp', of_decide_eq_true htypes,
    of_decide_eq_true htypes'⟩

end Graph

end Blockflow
