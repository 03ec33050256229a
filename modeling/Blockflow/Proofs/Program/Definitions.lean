import Blockflow.Proofs.Program.Assembly

/-!
# Definitions that are taken out

A function or a class that is not a member of a class is taken out of the block that it is drawn in,
if its name is new. So the definitions at the end have the names of the visits that define something
(`Assembly.chain_names`), and these are pairwise distinct.

Apart from faults, two things can end the assembly of a valid graph: a node in the body of a class
that is no member, and a name that is defined twice. Where neither is met, it succeeds
(`Assembly.exists_mainBlock`).
-/

namespace Blockflow

open scoped List

/-! ## Names of definitions -/

/-- May the node stand in the body of a class? -/
def Node.isMember (n : Node) : Bool := n.block?.any BlockType.isMember

theorem Node.isMember_iff {n : Node} :
    n.isMember = true ↔ n.block? = some .declare ∨ n.block? = some .function := by
  unfold isMember
  cases n.block? with
  | none => simp
  | some type => cases type <;> simp [BlockType.isMember]

/-- The visited node is taken out as a definition of this kind. -/
def Visit.defines (kind : BlockType) (v : Visit) : Bool :=
  decide (v.node.block? = some kind) && !v.place.inClass

/-- The names of the definitions of a kind that some visited nodes become. -/
def definedNames (kind : BlockType) (vs : List Visit) : List String :=
  (vs.filter (Visit.defines kind)).map fun v => v.node.definedName

@[simp] theorem definedNames_nil (kind : BlockType) : definedNames kind [] = [] := rfl

@[simp] theorem definedNames_append (kind : BlockType) (vs ws : List Visit) :
    definedNames kind (vs ++ ws) = definedNames kind vs ++ definedNames kind ws := by
  simp [definedNames]

/-- The name that a visited node of a known kind adds. -/
theorem definedNames_cons {kind type : BlockType} {v : Visit} (hb : v.node.block? = some type)
    (vs : List Visit) :
    definedNames kind (v :: vs) =
      (if type = kind ∧ v.place.inClass = false then [v.node.definedName] else []) ++
        definedNames kind vs := by
  unfold definedNames
  rw [List.filter_cons]
  by_cases h : type = kind ∧ v.place.inClass = false
  · simp [Visit.defines, hb, h]
  · rw [if_neg h, if_neg (by simpa [Visit.defines, hb] using h)]
    rfl

namespace Heading

variable {n : Node} {type : BlockType} {h : Heading}

theorem Fits.eq_function (hf : h.Fits n type) {blocks : List (List Part)} {f : FunctionDef}
    (hq : h.part n.id blocks = .function f) : type = .function ∧ f.name = n.definedName := by
  cases hf <;> cases hq
  exact ⟨rfl, rfl⟩

theorem Fits.eq_classDef (hf : h.Fits n type) {blocks : List (List Part)} {c : ClassDef}
    (hq : h.part n.id blocks = .classDef c) : type = .classDef ∧ c.name = n.definedName := by
  cases hf <;> cases hq
  exact ⟨rfl, rfl⟩

end Heading

namespace Assembly

/-- The names of the definitions of a kind that have been taken out. -/
def names (a : Assembly) : BlockType → List String
  | .function => a.functions.map FunctionDef.name
  | .classDef => a.classes.map ClassDef.name
  | _ => []

variable {kind type : BlockType} {n : Node} {heading : Heading} {inClass : Bool} {a b : Assembly}

theorem names_place (hkind : kind.isDefinition = true) (hf : heading.Fits n type)
    {blocks : List (List Part)} {here : List Part}
    (h : place inClass n.id (heading.part n.id blocks) a = .ok (here, b)) :
    b.names kind = a.names kind ++
        (if type = kind ∧ inClass = false then [n.definedName] else []) ∧
      (type = kind ∧ inClass = false → n.definedName ∉ a.names kind) := by
  rcases place_eq_ok h with ⟨hfits, -, rfl⟩ | ⟨rfl, -, ⟨f, hq, hname, rfl⟩ | ⟨c, hq, hname, rfl⟩⟩
  · -- what stays outside of class bodies is a statement, so nothing is defined
    have hnot : ¬ (type = kind ∧ inClass = false) := by
      rintro ⟨rfl, rfl⟩
      have hstatement : (heading.part n.id blocks).isStatement = true := hfits
      rw [hf.isStatement_part, hkind] at hstatement
      cases hstatement
    exact ⟨by rw [if_neg hnot, List.append_nil], fun h => absurd h hnot⟩
  · obtain ⟨rfl, hfn⟩ := hf.eq_function hq
    rw [hfn] at hname
    cases kind <;> simp_all [names, BlockType.isDefinition]
  · obtain ⟨rfl, hcn⟩ := hf.eq_classDef hq
    rw [hcn] at hname
    cases kind <;> simp_all [names, BlockType.isDefinition]

/-- A node is taken out after the definitions inside of it. -/
theorem names_step (hkind : kind.isDefinition = true) {v : Visit} (hb : v.node.block? = some type)
    (hf : heading.Fits v.node type) {vs : List Visit} {blocks : List (List Part)} {here : List Part}
    {b c : Assembly}
    (h : place v.place.inClass v.node.id (heading.part v.node.id blocks) b = .ok (here, c))
    (hperm : (b.names kind).Perm (a.names kind ++ definedNames kind vs)) :
    (c.names kind).Perm (a.names kind ++ definedNames kind (v :: vs)) ∧
      ((b.names kind).Nodup → (c.names kind).Nodup) := by
  obtain ⟨hnames, hnew⟩ := names_place hkind hf h
  rw [hnames, definedNames_cons hb]
  by_cases hdefines : type = kind ∧ v.place.inClass = false
  · rw [if_pos hdefines]
    constructor
    · calc b.names kind ++ [v.node.definedName]
        _ ~ a.names kind ++ definedNames kind vs ++ [v.node.definedName] := hperm.append_right _
        _ = a.names kind ++ (definedNames kind vs ++ [v.node.definedName]) :=
          List.append_assoc _ _ _
        _ ~ a.names kind ++ ([v.node.definedName] ++ definedNames kind vs) :=
          List.perm_append_comm.append_left _
    · intro hnd
      rw [← List.concat_eq_append]
      exact (List.nodup_concat _ _).mpr ⟨hnew hdefines, hnd⟩
  · rw [if_neg hdefines, List.append_nil, List.nil_append]
    exact ⟨hperm, id⟩

mutual

/-- **The definitions have the names of the visits that define something, and no name twice.** -/
theorem chain_names (hkind : kind.isDefinition = true) : ∀ {o : Outline} {p : Place}
    {a b : Assembly} {parts : List Part}, chain p.inClass o a = .ok (parts, b) →
      (b.names kind).Perm (a.names kind ++ definedNames kind (o.visits p)) ∧
        ((a.names kind).Nodup → (b.names kind).Nodup)
  | .done, _, _, _, _, h => by
    rw [chain] at h
    cases h
    simp
  | .fault _ _, _, _, _, _, h => by rw [chain] at h; cases h
  | .missing _, _, _, _, _, h => by rw [chain] at h; cases h
  | .step n slots next, p, a, b, parts, h => by
    obtain ⟨type, heading, blocks, b₁, here, b₂, rest, hb, hf, hslots, hplace, hnext, -⟩ :=
      chain_step_eq_ok h
    obtain ⟨hperm₁, hnd₁⟩ := chains_names hkind (p := p.inside n) hslots
    obtain ⟨hperm, hnd⟩ := names_step (v := ⟨p, n, slots, next⟩) hkind hb hf hplace hperm₁
    obtain ⟨hperm₂, hnd₂⟩ := chain_names hkind hnext
    rw [Outline.visits, ← List.cons_append, definedNames_append, ← List.append_assoc]
    exact ⟨hperm₂.trans (hperm.append_right _), fun h => hnd₂ (hnd (hnd₁ h))⟩

theorem chains_names (hkind : kind.isDefinition = true) : ∀ {slots : List (Role × Outline)}
    {p : Place} {a b : Assembly} {blocks : List (List Part)},
      chains p.inClass slots a = .ok (blocks, b) →
        (b.names kind).Perm (a.names kind ++ definedNames kind (Outline.slotVisits p slots)) ∧
          ((a.names kind).Nodup → (b.names kind).Nodup)
  | [], _, _, _, _, h => by
    rw [chains] at h
    cases h
    simp [Outline.slotVisits]
  | (role, o) :: slots, p, a, b, blocks, h => by
    obtain ⟨block, b₁, rest, hchain, hrest, -⟩ := chains_cons_eq_ok h
    obtain ⟨hperm₁, hnd₁⟩ := chain_names hkind hchain
    obtain ⟨hperm₂, hnd₂⟩ := chains_names hkind hrest
    rw [Outline.slotVisits, definedNames_append, ← List.append_assoc]
    exact ⟨hperm₂.trans (hperm₁.append_right _), fun hnd => hnd₂ (hnd₁ hnd)⟩

end

theorem mainBlock_names (hkind : kind.isDefinition = true) : ∀ {os : List Outline}
    {a b : Assembly} {main : Block}, mainBlock os a = .ok (main, b) →
      (b.names kind).Perm (a.names kind ++ definedNames kind (os.flatMap (Outline.visits {}))) ∧
        ((a.names kind).Nodup → (b.names kind).Nodup)
  | [], _, _, _, h => by
    rw [mainBlock] at h
    cases h
    simp
  | o :: os, a, b, main, h => by
    obtain ⟨parts, b₁, rest, hchain, hrest, -⟩ := mainBlock_cons_eq_ok h
    obtain ⟨hperm₁, hnd₁⟩ := chain_names (p := {}) hkind hchain
    obtain ⟨hperm₂, hnd₂⟩ := mainBlock_names hkind hrest
    rw [List.flatMap_cons, definedNames_append, ← List.append_assoc]
    exact ⟨hperm₂.trans (hperm₁.append_right _), fun hnd => hnd₂ (hnd₁ hnd)⟩

/-! ## The assembly of a valid graph -/

/-- The names that some visits define are new and pairwise distinct. -/
def Fresh (a : Assembly) (vs : List Visit) : Prop :=
  ∀ kind : BlockType, kind.isDefinition = true → (a.names kind ++ definedNames kind vs).Nodup

theorem Fresh.sublist {vs ws : List Visit} (h : a.Fresh vs) (hsub : ws.Sublist vs) :
    a.Fresh ws := by
  intro kind hkind
  have hnames : (definedNames kind ws).Sublist (definedNames kind vs) := (hsub.filter _).map _
  exact (h kind hkind).sublist (hnames.append_left _)

/-- What is fresh before some visits have been assembled is fresh after that. -/
theorem Fresh.after {vs ws : List Visit} (h : a.Fresh (vs ++ ws))
    (hperm : ∀ kind : BlockType, kind.isDefinition = true →
      (b.names kind).Perm (a.names kind ++ definedNames kind vs)) : b.Fresh ws := by
  intro kind hkind
  have := h kind hkind
  rw [definedNames_append, ← List.append_assoc] at this
  exact ((hperm kind hkind).append_right _).nodup_iff.mpr this

/-- The name of a visited node is new, also after definitions inside of it have been taken out. -/
theorem Fresh.notMem {v : Visit} {vs ws : List Visit} (h : a.Fresh (v :: (vs ++ ws)))
    (hb : v.node.block? = some type) (hdef : type.isDefinition = true)
    (hclass : v.place.inClass = false)
    (hperm : (b.names type).Perm (a.names type ++ definedNames type vs)) :
    v.node.definedName ∉ b.names type := by
  have hnd := h type hdef
  rw [definedNames_cons hb, if_pos ⟨rfl, hclass⟩, definedNames_append, List.singleton_append] at hnd
  have hnot := (List.nodup_cons.mp (List.perm_middle.nodup_iff.mp hnd)).1
  rw [hperm.mem_iff]
  intro hmem
  refine hnot ?_
  rw [← List.append_assoc]
  exact List.mem_append_left _ hmem

theorem exists_place (hf : heading.Fits n type) (blocks : List (List Part)) (a : Assembly)
    (hmember : inClass = true → type.isMember = true)
    (hnew : type.isDefinition = true → inClass = false → n.definedName ∉ a.names type) :
    ∃ r, place inClass n.id (heading.part n.id blocks) a = .ok r := by
  cases inClass with
  | true =>
    have hq : (heading.part n.id blocks).isMember = true := by
      rw [hf.isMember_part]
      exact hmember rfl
    unfold Part.isMember at hq
    split at hq
    next hd => exact ⟨_, by rw [hd]; rfl⟩
    next hfn => exact ⟨_, by rw [hfn]; rfl⟩
    next => cases hq
  | false =>
    cases hq : heading.part n.id blocks with
    | statement s => exact ⟨_, rfl⟩
    | function f =>
      obtain ⟨rfl, hname⟩ := hf.eq_function hq
      have hnot := hnew rfl rfl
      rw [← hname] at hnot
      exact ⟨_, if_neg (by simpa [names] using hnot)⟩
    | classDef c =>
      obtain ⟨rfl, hname⟩ := hf.eq_classDef hq
      have hnot := hnew rfl rfl
      rw [← hname] at hnot
      exact ⟨_, if_neg (by simpa [names] using hnot)⟩

variable {g : Graph}

mutual

/-- **A chain without faults is assembled if class bodies hold members and names are fresh.** -/
theorem exists_chain (hv : g.Valid) : ∀ {o : Outline} {p : Place} {a : Assembly}, o.Faultless →
    o.nodes ⊆ g.nodes →
    (∀ v ∈ o.visits p, v.place.inClass = true → v.node.isMember = true) → a.Fresh (o.visits p) →
      ∃ r, chain p.inClass o a = .ok r
  | .done, _, a, _, _, _, _ => ⟨([], a), by rw [chain]⟩
  | .fault _ _, _, _, hfaultless, _, _, _ => hfaultless.elim
  | .missing _, _, _, hfaultless, _, _, _ => hfaultless.elim
  | .step n slots next, p, a, hfaultless, hnodes, hmember, hfresh => by
    rw [Outline.nodes] at hnodes
    obtain ⟨hn, hnodes⟩ := List.cons_subset.mp hnodes
    obtain ⟨hslotNodes, hnextNodes⟩ := List.append_subset.mp hnodes
    obtain ⟨heading, hheading⟩ := hv.exists_heading hn a
    obtain ⟨type, hb, hf⟩ := heading_eq_ok hheading
    rw [Outline.visits] at hmember hfresh
    -- the exits come first, then the node takes its place, then the rest of the chain
    obtain ⟨⟨blocks, b₁⟩, hblocks⟩ := exists_chains hv (p := p.inside n)
      (a := { a with symbols := heading.inner a.symbols }) hfaultless.1 hslotNodes
      (fun v hvis => hmember v (List.mem_cons_of_mem _ (List.mem_append_left _ hvis)))
      (hfresh.sublist ((List.sublist_append_left _ _).cons _))
    have hinner := fun {kind : BlockType} (hkind : kind.isDefinition = true) =>
      (chains_names (p := p.inside n) hkind hblocks).1
    obtain ⟨⟨here, b₂⟩, hplace⟩ := exists_place hf blocks
      { b₁ with symbols := heading.outer a.symbols b₁.symbols, calls := b₁.calls ++ heading.calls }
      (fun hclass => by simpa [Node.isMember, hb] using hmember _ List.mem_cons_self hclass)
      (fun hdef hclass => hfresh.notMem hb hdef hclass (hinner hdef))
    obtain ⟨⟨rest, c⟩, hrest⟩ := exists_chain hv (a := b₂) hfaultless.2 hnextNodes
      (fun v hvis => hmember v (List.mem_cons_of_mem _ (List.mem_append_right _ hvis)))
      (hfresh.after fun kind hkind =>
        (names_step (v := ⟨p, n, slots, next⟩) hkind hb hf hplace (hinner hkind)).1)
    refine ⟨(here ++ rest, c), ?_⟩
    rw [chain]
    refine bind_eq_ok.mpr ⟨heading, hheading, ?_⟩
    rw [hf.innerClass_eq hb]
    refine bind_eq_ok.mpr ⟨_, hblocks, bind_eq_ok.mpr ⟨_, hplace, ?_⟩⟩
    exact bind_eq_ok.mpr ⟨_, hrest, rfl⟩

theorem exists_chains (hv : g.Valid) : ∀ {slots : List (Role × Outline)} {p : Place} {a : Assembly},
    Outline.SlotsFaultless slots → Outline.slotNodes slots ⊆ g.nodes →
    (∀ v ∈ Outline.slotVisits p slots, v.place.inClass = true → v.node.isMember = true) →
    a.Fresh (Outline.slotVisits p slots) → ∃ r, chains p.inClass slots a = .ok r
  | [], _, a, _, _, _, _ => ⟨([], a), by rw [chains]⟩
  | (role, o) :: slots, p, a, hfaultless, hnodes, hmember, hfresh => by
    rw [Outline.slotNodes] at hnodes
    rw [Outline.slotVisits] at hmember hfresh
    obtain ⟨hhere, hrest⟩ := List.append_subset.mp hnodes
    obtain ⟨⟨block, b⟩, hblock⟩ := exists_chain hv hfaultless.1 hhere
      (fun v hvis => hmember v (List.mem_append_left _ hvis))
      (hfresh.sublist (List.sublist_append_left _ _))
    obtain ⟨⟨blocks, c⟩, hblocks⟩ := exists_chains hv hfaultless.2 hrest
      (fun v hvis => hmember v (List.mem_append_right _ hvis))
      (hfresh.after fun kind hkind => (chain_names hkind hblock).1)
    refine ⟨(block :: blocks, c), ?_⟩
    rw [chains]
    exact bind_eq_ok.mpr ⟨_, hblock, bind_eq_ok.mpr ⟨_, hblocks, rfl⟩⟩

end

theorem exists_mainBlock (hv : g.Valid) : ∀ {os : List Outline} {a : Assembly},
    (∀ o ∈ os, o.Faultless) → os.flatMap Outline.nodes ⊆ g.nodes →
    (∀ v ∈ os.flatMap (Outline.visits {}), v.place.inClass = true → v.node.isMember = true) →
    a.Fresh (os.flatMap (Outline.visits {})) → ∃ r, mainBlock os a = .ok r
  | [], a, _, _, _, _ => ⟨([], a), by rw [mainBlock]⟩
  | o :: os, a, hfaultless, hnodes, hmember, hfresh => by
    rw [List.flatMap_cons] at hnodes hmember hfresh
    obtain ⟨hhere, hrest⟩ := List.append_subset.mp hnodes
    obtain ⟨⟨parts, b⟩, hparts⟩ := exists_chain hv (p := {}) (hfaultless o List.mem_cons_self) hhere
      (fun v hvis => hmember v (List.mem_append_left _ hvis))
      (hfresh.sublist (List.sublist_append_left _ _))
    obtain ⟨⟨block, c⟩, hblock⟩ := exists_mainBlock hv
      (fun o' ho' => hfaultless o' (List.mem_cons_of_mem _ ho')) hrest
      (fun v hvis => hmember v (List.mem_append_right _ hvis))
      (hfresh.after fun kind hkind => (chain_names (p := {}) hkind hparts).1)
    refine ⟨(Heading.block parts ++ block, c), ?_⟩
    rw [mainBlock]
    exact bind_eq_ok.mpr ⟨_, hparts, bind_eq_ok.mpr ⟨_, hblock, rfl⟩⟩

end Assembly

end Blockflow
