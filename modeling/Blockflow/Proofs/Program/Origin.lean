import Blockflow.Proofs.Program.Build

/-!
# Where the parts of a program come from

Every part of a program is built at a visit (`Visit.Builds`): its heading is read from the node, and
what stands in its blocks is assembled from the chains behind the exits of the node. This says more
than what kind of part a node becomes. It is the reason why what is known of the fields of a node is
known of the part that is built from it.
-/

namespace Blockflow

open Assembly

/-- The part that is built at a visit, with what was visible there and what was collected before. -/
inductive Visit.Builds (v : Visit) : Part → Prop where
  | intro {a b : Assembly} {heading : Heading} {blocks : List (List Part)}
      (read : a.heading v.node = .ok heading)
      (inner : chains (v.node.innerClass v.place.inClass) v.slots
        { a with symbols := heading.inner a.symbols } = .ok (blocks, b)) :
      v.Builds (heading.part v.node.id blocks)

theorem Visit.Builds.node_eq {v : Visit} {q : Part} (h : v.Builds q) : q.node = v.node.id := by
  cases h with
  | intro read inner =>
    obtain ⟨type, -, hf⟩ := heading_eq_ok read
    exact hf.node_part _

theorem Visit.Builds.kind_eq {v : Visit} {q : Part} (h : v.Builds q) : q.kind? = v.node.block? := by
  cases h with
  | intro read inner =>
    obtain ⟨type, hb, hf⟩ := heading_eq_ok read
    rw [hf.kind_part, hb]

namespace Assembly

variable {inClass : Bool} {a b : Assembly} {t : Tour}

/-- A step of a chain, with the heading as it was read. -/
theorem chain_step_iff {n : Node} {slots : List (Role × Outline)} {next : Outline}
    {parts : List Part} :
    chain inClass (.step n slots next) a = .ok (parts, b) ↔
      ∃ (heading : Heading) (blocks : List (List Part)) (b₁ : Assembly) (here : List Part)
        (b₂ : Assembly) (rest : List Part),
        a.heading n = .ok heading ∧
        chains (n.innerClass inClass) slots { a with symbols := heading.inner a.symbols } =
          .ok (blocks, b₁) ∧
        place inClass n.id (heading.part n.id blocks)
          { b₁ with
            symbols := heading.outer a.symbols b₁.symbols, calls := b₁.calls ++ heading.calls } =
          .ok (here, b₂) ∧
        chain inClass next b₂ = .ok (rest, b) ∧ parts = here ++ rest := by
  rw [chain]
  constructor
  · intro h
    obtain ⟨heading, hheading, h⟩ := bind_eq_ok.mp h
    obtain ⟨⟨blocks, b₁⟩, hblocks, h⟩ := bind_eq_ok.mp h
    obtain ⟨⟨here, b₂⟩, hplace, h⟩ := bind_eq_ok.mp h
    obtain ⟨⟨rest, b₃⟩, hnext, h⟩ := bind_eq_ok.mp h
    cases h
    obtain ⟨type, hb, hf⟩ := heading_eq_ok hheading
    rw [hf.innerClass_eq hb] at hblocks
    exact ⟨heading, blocks, b₁, here, b₂, rest, hheading, hblocks, hplace, hnext, rfl⟩
  · rintro ⟨heading, blocks, b₁, here, b₂, rest, hheading, hblocks, hplace, hnext, rfl⟩
    obtain ⟨type, hb, hf⟩ := heading_eq_ok hheading
    rw [← hf.innerClass_eq hb] at hblocks
    exact bind_eq_ok.mpr ⟨heading, hheading, bind_eq_ok.mpr ⟨(blocks, b₁), hblocks,
      bind_eq_ok.mpr ⟨(here, b₂), hplace, bind_eq_ok.mpr ⟨(rest, b), hnext, rfl⟩⟩⟩⟩

/-- Every part that is met after a part of the assembly was met before or was built at a visit. -/
def Stems (a b : Assembly) (parts : List Part) (visits : List Visit) : Prop :=
  ∀ q ∈ b.walk ++ parts.flatMap Part.walk, q ∈ a.walk ∨ ∃ v ∈ visits, v.Builds q

theorem Stems.mono {parts : List Part} {vs ws : List Visit} (h : a.Stems b parts vs)
    (hsub : vs ⊆ ws) : a.Stems b parts ws := by
  intro q hq
  rcases h q hq with hq | ⟨v, hv, hbuilds⟩
  · exact Or.inl hq
  · exact Or.inr ⟨v, hsub hv, hbuilds⟩

theorem Stems.append {c : Assembly} {p q : List Part} {vs : List Visit} (h₁ : a.Stems b p vs)
    (h₂ : b.Stems c q vs) : a.Stems c (p ++ q) vs := by
  intro r hr
  rw [List.flatMap_append, List.mem_append, List.mem_append] at hr
  have hb : r ∈ b.walk → r ∈ a.walk ∨ ∃ v ∈ vs, v.Builds r := fun hr =>
    h₁ r (List.mem_append_left _ hr)
  rcases hr with hr | hr | hr
  · exact (h₂ r (List.mem_append_left _ hr)).elim hb Or.inr
  · exact h₁ r (List.mem_append_right _ hr)
  · exact (h₂ r (List.mem_append_right _ hr)).elim hb Or.inr

mutual

/-- **Every part of a chain is built at a visit.** -/
theorem chain_stems : ∀ {o : Outline} {p : Place} {start : Option String}, t.Sees p start o →
    ∀ {a b : Assembly} {parts : List Part}, chain p.inClass o a = .ok (parts, b) →
      a.Stems b parts (o.visits p)
  | .done, _, _, _, _, _, _, h => by
    rw [chain] at h
    cases h
    intro q hq
    exact Or.inl (by simpa using hq)
  | .fault _ _, _, _, _, _, _, _, h => by rw [chain] at h; cases h
  | .missing _, _, _, _, _, _, _, h => by rw [chain] at h; cases h
  | .step n slots next, _, none, hs, _, _, _, _ => by simp [Tour.Sees] at hs
  | .step n slots next, p, some start, hs, a, b, parts, h => by
    rw [Tour.Sees] at hs
    obtain ⟨heading, blocks, b₁, here, b₂, rest, hheading, hslots, hplace, hnext, rfl⟩ :=
      chain_step_iff.mp h
    obtain ⟨type, hb, hf⟩ := heading_eq_ok hheading
    have hinner := chains_stems hs.2.2.1 hslots
    have hrest := chain_stems hs.2.2.2 hnext
    rw [Outline.visits]
    refine Stems.append (b := b₂) ?_
      (hrest.mono (List.subset_cons_of_subset _ (List.subset_append_right _ _)))
    -- what is met here is the part itself or was met inside of it
    obtain ⟨hfilled, -⟩ := chains_becomes hs.2.2.1 hslots
    obtain ⟨hmember, -, -⟩ := place_fills hf hb hplace
    have hlen : blocks.length = n.slotRoles.length := by
      rw [← hs.2.1, List.length_map, hfilled.length_eq]
    have hfits : ∀ block ∈ blocks, ∀ q ∈ block, Part.Fits (n.innerClass p.inClass) q :=
      fun block hblock => by
        obtain ⟨slot, -, hfill⟩ := forall₂_exists_left hfilled hblock
        exact hfill.1
    have hwalk := hf.walk_part hb hmember hlen hfits
    intro q hq
    have hq' := (gains_place hplace).mem_iff.mp hq
    rw [hwalk, List.mem_append, List.mem_cons] at hq'
    have hbefore : q ∈ b₁.walk ++ blocks.flatten.flatMap Part.walk →
        q ∈ a.walk ∨ ∃ v ∈ Visit.mk p n slots next :: (Outline.slotVisits (p.inside n) slots ++
          next.visits p), v.Builds q := by
      intro hq
      rcases hinner q hq with hq | ⟨v, hv, hbuilds⟩
      · exact Or.inl hq
      · exact Or.inr ⟨v, List.mem_cons_of_mem _ (List.mem_append_left _ hv), hbuilds⟩
    rcases hq' with hq | rfl | hq
    · exact hbefore (List.mem_append_left _ hq)
    · exact Or.inr ⟨_, List.mem_cons_self, .intro hheading hslots⟩
    · exact hbefore (List.mem_append_right _ hq)

theorem chains_stems : ∀ {slots : List (Role × Outline)} {p : Place} {n : Node},
    t.SeesSlots p n slots → ∀ {a b : Assembly} {blocks : List (List Part)},
      chains (n.innerClass p.inClass) slots a = .ok (blocks, b) →
        a.Stems b blocks.flatten (Outline.slotVisits (p.inside n) slots)
  | [], _, _, _, _, _, _, h => by
    rw [chains] at h
    cases h
    intro q hq
    exact Or.inl (by simpa using hq)
  | (role, o) :: slots, p, n, hs, a, b, blocks, h => by
    rw [Tour.SeesSlots] at hs
    obtain ⟨block, b₁, rest, hchain, hrest, rfl⟩ := chains_cons_eq_ok h
    have hhere := chain_stems hs.2.1 hchain
    have hslots := chains_stems hs.2.2 hrest
    rw [Outline.slotVisits]
    exact (hhere.mono (List.subset_append_left _ _)).append
      (hslots.mono (List.subset_append_right _ _))

end

theorem mainBlock_stems {starts : List String} {os : List Outline}
    (hs : List.Forall₂ (fun start o => t.Sees {} (some start) o) starts os) :
    ∀ {a b : Assembly} {main : Block}, mainBlock os a = .ok (main, b) →
      a.Stems b (main.map .statement) (os.flatMap (Outline.visits {})) := by
  induction hs with
  | nil =>
    intro a b main h
    rw [mainBlock] at h
    cases h
    intro q hq
    exact Or.inl (by simpa using hq)
  | cons hsees _ ih =>
    intro a b main h
    obtain ⟨parts, b₁, rest, hchain, hrest, rfl⟩ := mainBlock_cons_eq_ok h
    obtain ⟨⟨hfits, -⟩, -⟩ := chain_becomes hsees hchain
    rw [List.map_append, Heading.map_statement_block hfits, List.flatMap_cons]
    exact ((chain_stems hsees hchain).mono (List.subset_append_left _ _)).append
      ((ih hrest).mono (List.subset_append_right _ _))

end Assembly

namespace Graph

variable {g : Graph} {limit : Int} {main : Block} {a : Assembly}

/-- **Every part of what is assembled from a graph is built at a visit.** -/
theorem exists_builds (h : g.assemble limit = .ok (main, a)) {q : Part}
    (hq : q ∈ a.walk ++ (Block.walk main).map .statement) : ∃ v ∈ g.visits limit, v.Builds q := by
  obtain ⟨hmain, -⟩ := assemble_eq_ok.mp h
  rw [Block.walk_eq] at hq
  rcases Assembly.mainBlock_stems (toured_of_assemble h).sees hmain q hq with hq | hbuilds
  · cases hq
  · exact hbuilds

/-- Every part of what is assembled from a graph is read from one of its nodes. -/
theorem exists_read_of_mem (h : g.assemble limit = .ok (main, a)) {q : Part}
    (hq : q ∈ a.walk ++ (Block.walk main).map .statement) :
    ∃ n ∈ g.nodes, ∃ (type : BlockType) (symbols : Symbols) (heading : Heading)
      (blocks : List (List Part)), n.block? = some type ∧
        Heading.read symbols n type = .ok heading ∧ q = heading.part n.id blocks := by
  obtain ⟨v, hvis, hbuilds⟩ := exists_builds h hq
  cases hbuilds with
  | intro read inner =>
    obtain ⟨type, hb, hread⟩ := heading_eq_read read
    exact ⟨v.node, mem_nodes_of_visit hvis, type, _, _, _, hb, hread, rfl⟩

end Graph

end Blockflow
