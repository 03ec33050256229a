import Blockflow.Proofs.Outline.Passable
import Blockflow.Proofs.Program.Definitions

/-!
# Which graphs are accepted

A program is built from a valid graph exactly when the graph is structured: it can be toured
(`Graph.Passable`), the chains of class bodies hold members only, and no two functions and no two
classes that are taken out have the same name.

In a structured graph a node stands in the body of a class exactly when it is on the chain from
there (`Toured.inClass_of_onClassChain`, `Toured.onClassChain_of_inClass`), so all of this is said
about the edges of the graph.
-/

namespace Blockflow

/-! ## Names that are texts -/

theorem Visit.Becomes.kind_eq {v : Visit} {q : Part} (h : v.Becomes q) :
    v.node.block? = q.kind? := by
  cases h with
  | intro kind fits _ _ => rw [kind, fits.kind_part]

theorem Visit.Becomes.isMember {v : Visit} {q : Part} (h : v.Becomes q)
    (hclass : v.place.inClass = true) : v.node.isMember = true := by
  cases h with
  | intro kind _ member _ =>
    rw [Node.isMember, kind]
    exact member hclass

namespace Assembly

/-- The calls that have been met are those of nodes that call something. -/
def CallsOf (g : Graph) (a : Assembly) : Prop :=
  ∀ site ∈ a.calls, ∃ n ∈ g.nodes, n.id = site.node ∧ n.block? = some .call

variable {g : Graph}

theorem callsOf_heading {n : Node} (hn : n ∈ g.nodes) {type : BlockType} {heading : Heading}
    (hf : heading.Fits n type) (hb : n.block? = some type) :
    ∀ site ∈ heading.calls, ∃ n ∈ g.nodes, n.id = site.node ∧ n.block? = some .call := by
  intro site hsite
  cases hf with
  | call hnode =>
    rw [Heading.calls, List.mem_singleton] at hsite
    exact ⟨n, hn, by rw [hsite, hnode], hb⟩
  | _ => exact absurd hsite List.not_mem_nil

theorem calls_place {inClass : Bool} {node : String} {q : Part} {here : List Part} {a b : Assembly}
    (h : place inClass node q a = .ok (here, b)) : b.calls = a.calls := by
  rcases place_eq_ok h with ⟨-, -, rfl⟩ | ⟨-, -, ⟨f, -, -, rfl⟩ | ⟨c, -, -, rfl⟩⟩ <;> rfl

mutual

theorem CallsOf.chain : ∀ {o : Outline} {inClass : Bool} {a b : Assembly} {parts : List Part},
    Assembly.chain inClass o a = .ok (parts, b) → o.nodes ⊆ g.nodes → CallsOf g a → CallsOf g b
  | .done, _, _, _, _, h, _, ha => by
    rw [Assembly.chain] at h
    cases h
    exact ha
  | .fault _ _, _, _, _, _, h, _, _ => by rw [Assembly.chain] at h; cases h
  | .missing _, _, _, _, _, h, _, _ => by rw [Assembly.chain] at h; cases h
  | .step n slots next, inClass, a, b, parts, h, hnodes, ha => by
    obtain ⟨type, heading, blocks, b₁, here, b₂, rest, hb, hf, hslots, hplace, hnext, -⟩ :=
      chain_step_eq_ok h
    rw [Outline.nodes] at hnodes
    obtain ⟨hn, hnodes⟩ := List.cons_subset.mp hnodes
    obtain ⟨hslotNodes, hnextNodes⟩ := List.append_subset.mp hnodes
    have hb₁ := CallsOf.chains hslots hslotNodes ha
    refine CallsOf.chain hnext hnextNodes ?_
    intro site hsite
    rw [calls_place hplace] at hsite
    rcases List.mem_append.mp hsite with hsite | hsite
    · exact hb₁ site hsite
    · exact callsOf_heading hn hf hb site hsite

theorem CallsOf.chains : ∀ {slots : List (Role × Outline)} {inClass : Bool} {a b : Assembly}
    {blocks : List (List Part)}, Assembly.chains inClass slots a = .ok (blocks, b) →
      Outline.slotNodes slots ⊆ g.nodes → CallsOf g a → CallsOf g b
  | [], _, _, _, _, h, _, ha => by
    rw [Assembly.chains] at h
    cases h
    exact ha
  | (role, o) :: slots, _, _, _, _, h, hnodes, ha => by
    obtain ⟨block, b₁, rest, hchain, hrest, -⟩ := chains_cons_eq_ok h
    rw [Outline.slotNodes] at hnodes
    obtain ⟨hhere, hnodes⟩ := List.append_subset.mp hnodes
    exact CallsOf.chains hrest hnodes (CallsOf.chain hchain hhere ha)

end

theorem CallsOf.mainBlock : ∀ {os : List Outline} {a b : Assembly} {main : Block},
    Assembly.mainBlock os a = .ok (main, b) → os.flatMap Outline.nodes ⊆ g.nodes → CallsOf g a →
      CallsOf g b
  | [], _, _, _, h, _, ha => by
    rw [Assembly.mainBlock] at h
    cases h
    exact ha
  | o :: os, _, _, _, h, hnodes, ha => by
    obtain ⟨parts, b₁, rest, hchain, hrest, -⟩ := mainBlock_cons_eq_ok h
    rw [List.flatMap_cons] at hnodes
    obtain ⟨hhere, hnodes⟩ := List.append_subset.mp hnodes
    exact CallsOf.mainBlock hrest hnodes (CallsOf.chain hchain hhere ha)

theorem function_mem_walk {a : Assembly} {f : FunctionDef} (hf : f ∈ a.methods ++ a.functions) :
    Part.function f ∈ a.walk := by
  rcases List.mem_append.mp hf with hf | hf
  · obtain ⟨c, hc, hf⟩ := List.mem_flatMap.mp hf
    refine List.mem_append_left _ (List.mem_flatMap.mpr ⟨c, hc, List.mem_cons_of_mem _ ?_⟩)
    obtain ⟨m, hm, hmf⟩ := List.mem_filterMap.mp hf
    refine List.mem_flatMap.mpr ⟨m, hm, ?_⟩
    cases m with
    | method f' =>
      cases hmf
      exact List.mem_cons_self
    | field d => cases hmf
    | stray s => cases hmf
  · exact List.mem_append_right _ (List.mem_flatMap.mpr ⟨f, hf, List.mem_cons_self⟩)

end Assembly

namespace Graph

variable {g : Graph} {limit : Int}

theorem Valid.hasObjectName_eq_false (hv : g.Valid) {n : Node} (hn : n ∈ g.nodes) {type : BlockType}
    (hb : n.block? = some type) (hfield : "name" ∈ type.fields.map FieldSpec.name) :
    g.hasObjectName n.id = false := by
  obtain ⟨s, hs⟩ := hv.text_of_field hn hb "name" hfield
  simp [hasObjectName, nameObject?, node?_of_mem hn, hs]

/-- In a valid graph all names are texts. -/
theorem Valid.checkNames (hv : g.Valid) {main : Block} {a : Assembly}
    (h : g.assemble limit = .ok (main, a)) : g.checkNames a = .ok () := by
  obtain ⟨hmain, -⟩ := assemble_eq_ok.mp h
  obtain ⟨-, parts, hparts, hperm⟩ := assemble_becomes h
  have hcalls : a.calls.any (g.hasObjectName ·.node) = false := by
    rw [List.any_eq_false]
    intro site hsite
    obtain ⟨n, hn, hid, hb⟩ := Assembly.CallsOf.mainBlock hmain (g.outlineNodes_subset limit)
      (fun _ hs => absurd hs List.not_mem_nil) site hsite
    rw [← hid, hv.hasObjectName_eq_false hn hb (by decide)]
    simp
  have hfunctions : (a.methods ++ a.functions).any (g.hasObjectName ·.node) = false := by
    rw [List.any_eq_false]
    intro f hf
    have hmem := hperm.mem_iff.mp (List.mem_append_left _ (Assembly.function_mem_walk hf))
    obtain ⟨v, hvis, hbecomes⟩ := forall₂_exists_left hparts hmem
    have hid : f.node = v.node.id := hbecomes.node_eq
    rw [hid, hv.hasObjectName_eq_false (mem_nodes_of_visit hvis) hbecomes.kind_eq (by decide)]
    simp
  unfold Graph.checkNames
  rw [hcalls, hfunctions]
  rfl

theorem Valid.exists_buildAlone_iff (hv : g.Valid) :
    (∃ b, g.buildAlone limit = .ok b) ↔ ∃ main a, g.assemble limit = .ok (main, a) := by
  constructor
  · rintro ⟨b, hb⟩
    obtain ⟨main, a, hassemble, -⟩ := buildAlone_eq_ok hb
    exact ⟨main, a, hassemble⟩
  · rintro ⟨main, a, hassemble⟩
    have hnames := hv.checkNames hassemble
    exact ⟨_, bind_eq_ok.mpr ⟨(main, a), hassemble, bind_eq_ok.mpr ⟨(), hnames, rfl⟩⟩⟩

/-! ## Chains of class bodies -/

/-- The node is on the `next` chain that starts where the body exit of a class leads. -/
def OnClassChain (g : Graph) (id : String) : Prop :=
  ∃ c ∈ g.nodes, c.block? = some .classDef ∧ ∃ e ∈ g.edges, e.source = c.id ∧ e.role = some .body ∧
    ∃ r, g.Route e.target r id ∧ ∀ f ∈ r, f.role = some .next

namespace Toured

/-- The places along a `next` chain are the same. -/
theorem exists_visit_of_next (ht : g.Toured limit) (hv : g.Valid) {x : String} :
    ∀ {r : List Edge} {v : Visit}, v ∈ g.visits limit → g.Route v.node.id r x →
      (∀ f ∈ r, f.role = some .next) → ∃ w ∈ g.visits limit, w.node.id = x ∧ w.place = v.place
  | [], v, hvis, hr, _ => ⟨v, hvis, hr, rfl⟩
  | e :: r, v, hvis, hr, hnext => by
    obtain ⟨he, hs, hr⟩ := route_cons.mp hr
    have her := hnext e List.mem_cons_self
    obtain ⟨w, hw, hid, hplace, -⟩ := ht.exists_behind hvis
      (hv.role_mem (mem_nodes_of_visit hvis) he.1 hs her) (target_of_isOpen limit hv he hs her)
    rw [← hid] at hr
    obtain ⟨u, hu, hux, huplace⟩ :=
      ht.exists_visit_of_next hv hw hr fun f hf => hnext f (List.mem_cons_of_mem _ hf)
    exact ⟨u, hu, hux, by rw [huplace, hplace, Place.behind_next]⟩

theorem inClass_of_onClassChain (ht : g.Toured limit) (hv : g.Valid) {v : Visit}
    (hvis : v ∈ g.visits limit) (h : g.OnClassChain v.node.id) : v.place.inClass = true := by
  obtain ⟨n, hn, hb, e, he, hs, hbody, r, hr, hnext⟩ := h
  -- an edge into a definition is no back edge
  have hopen : g.IsOpen e := by
    refine ⟨he, fun hback => (ht.exists_body_route hv he hback).1 ⟨hbody, n, hn, hs.symm, ?_⟩⟩
    rw [hb]
    rfl
  obtain ⟨c, hc, rfl⟩ := ht.exists_visit hn
  obtain ⟨w, hw, hwid, hwplace, -⟩ := ht.exists_behind hc (hv.role_mem hn he hs hbody)
    (target_of_isOpen limit hv hopen hs hbody)
  rw [← hwid] at hr
  obtain ⟨u, hu, huid, huplace⟩ := ht.exists_visit_of_next hv hw hr hnext
  obtain rfl := visit_unique hu hvis huid
  rw [huplace, hwplace, Place.behind_of_ne _ _ (by simp)]
  show c.node.innerClass c.place.inClass = true
  rw [Node.innerClass, hb]

/-- If class bodies hold members only, what stands in the body of a class is on its chain: members
have nothing inside of them that would belong to the class. -/
theorem onClassChain_of_inClass (ht : g.Toured limit) (hv : g.Valid)
    (hmember : ∀ v ∈ g.visits limit, v.place.inClass = true → g.OnClassChain v.node.id →
      v.node.isMember = true) :
    ∀ v ∈ g.visits limit, v.place.inClass = true → g.OnClassChain v.node.id := by
  refine ht.visits_induction (I := fun id p => p.inClass = true → g.OnClassChain id) ?_ ?_
  · intro start _ hclass
    cases hclass
  · intro v hvis ih role hrole id hid hclass
    obtain ⟨e, he, hs, her, rfl⟩ := ht.exists_isOpen_of_target hv hvis hrole hid
    by_cases hnext : role = .next
    · rw [hnext, Place.behind_next] at hclass
      obtain ⟨c, hc, hb, first, hfirst, hfs, hbody, r, hr, hrest⟩ := ih hclass
      refine ⟨c, hc, hb, first, hfirst, hfs, hbody, r ++ [e],
        route_concat.mpr ⟨hs ▸ hr, he, rfl⟩, ?_⟩
      intro f hf
      rcases List.mem_append.mp hf with hf | hf
      · exact hrest f hf
      · rw [List.mem_singleton.mp hf, her, hnext]
    · rw [Place.behind_of_ne _ _ hnext] at hclass
      rcases Node.innerClass_eq_true hclass with hb | ⟨hclass, hfunction⟩
      · refine ⟨v.node, mem_nodes_of_visit hvis, hb, e, he.1, hs, ?_, [], rfl, by simp⟩
        rw [her, eq_body_of_exit hb (Or.inr rfl) hrole hnext]
      · -- the node itself is a member, and a declaration has no exit but `next`
        have hmem := Node.isMember_iff.mp (hmember v hvis hclass (ih hclass))
        have hb := hmem.resolve_right hfunction
        rw [Node.exitRoles, Node.slotRoles, hb] at hrole
        exact absurd (List.mem_singleton.mp hrole) hnext

end Toured

/-! ## Structured graphs -/

/-- No two of some nodes have the same name. -/
def DistinctNames (g : Graph) (P : Node → Prop) : Prop :=
  ∀ n ∈ g.nodes, ∀ m ∈ g.nodes, P n → P m → n.definedName = m.definedName → n = m

/-- The graph can be toured, class bodies hold members only, and what is taken out can be told apart
by its name. -/
structure Structured (g : Graph) (limit : Int) : Prop extends Passable g limit where
  members : ∀ n ∈ g.nodes, g.OnClassChain n.id →
    n.block? = some .declare ∨ n.block? = some .function
  functions : g.DistinctNames fun n => n.block? = some .function ∧ ¬ g.OnClassChain n.id
  classes : g.DistinctNames fun n => n.block? = some .classDef

namespace Toured

/-- The names that the visits define, in terms of the nodes. -/
theorem nodup_definedNames_iff (ht : g.Toured limit) (hv : g.Valid)
    (hclass : ∀ v ∈ g.visits limit, v.place.inClass = true → g.OnClassChain v.node.id)
    (kind : BlockType) :
    (definedNames kind (g.visits limit)).Nodup ↔
      g.DistinctNames fun n => n.block? = some kind ∧ ¬ g.OnClassChain n.id := by
  have hdefines : ∀ v ∈ g.visits limit,
      (v.defines kind = true ↔ v.node.block? = some kind ∧ ¬ g.OnClassChain v.node.id) := by
    intro v hvis
    have hiff : g.OnClassChain v.node.id ↔ v.place.inClass = true :=
      ⟨ht.inClass_of_onClassChain hv hvis, hclass v hvis⟩
    simp [Visit.defines, hiff]
  have hnd : (g.visits limit).Nodup := (visits_nodup g limit).of_map _
  unfold definedNames
  rw [List.nodup_map_iff_inj_on (hnd.filter _)]
  constructor
  · intro h n hn m hm hPn hPm hname
    obtain ⟨v, hvis, rfl⟩ := ht.exists_visit hn
    obtain ⟨w, hwis, rfl⟩ := ht.exists_visit hm
    have := h v (List.mem_filter.mpr ⟨hvis, (hdefines v hvis).mpr hPn⟩) w
      (List.mem_filter.mpr ⟨hwis, (hdefines w hwis).mpr hPm⟩) hname
    rw [this]
  · intro h v hvmem w hwmem hname
    obtain ⟨hvis, hvdef⟩ := List.mem_filter.mp hvmem
    obtain ⟨hwis, hwdef⟩ := List.mem_filter.mp hwmem
    have := h v.node (mem_nodes_of_visit hvis) w.node (mem_nodes_of_visit hwis)
      ((hdefines v hvis).mp hvdef) ((hdefines w hwis).mp hwdef) hname
    exact visit_unique hvis hwis (congrArg Node.id this)

end Toured

/-- A class is no member of a class, so no class is on the chain of a class body. -/
theorem distinctNames_class_iff
    (hmembers : ∀ n ∈ g.nodes, g.OnClassChain n.id →
      n.block? = some .declare ∨ n.block? = some .function) :
    g.DistinctNames (fun n => n.block? = some .classDef ∧ ¬ g.OnClassChain n.id) ↔
      g.DistinctNames fun n => n.block? = some .classDef := by
  have hoff : ∀ n ∈ g.nodes, n.block? = some .classDef → ¬ g.OnClassChain n.id := by
    intro n hn hb hchain
    have := hmembers n hn hchain
    simp [hb] at this
  constructor
  · intro h n hn m hm hnb hmb
    exact h n hn m hm ⟨hnb, hoff n hn hnb⟩ ⟨hmb, hoff m hm hmb⟩
  · intro h n hn m hm hnb hmb
    exact h n hn m hm hnb.1 hmb.1

/-- What is assembled comes from a structured graph. -/
theorem structured_of_assemble (hv : g.Valid) {main : Block} {a : Assembly}
    (h : g.assemble limit = .ok (main, a)) : g.Structured limit := by
  have ht := toured_of_assemble h
  obtain ⟨hmain, -⟩ := assemble_eq_ok.mp h
  obtain ⟨-, parts, hparts, -⟩ := assemble_becomes h
  have hmember : ∀ v ∈ g.visits limit, v.place.inClass = true → v.node.isMember = true := by
    intro v hvis
    obtain ⟨q, -, hbecomes⟩ := forall₂_exists_left hparts.flip hvis
    exact hbecomes.isMember
  have hmembers : ∀ n ∈ g.nodes, g.OnClassChain n.id →
      n.block? = some .declare ∨ n.block? = some .function := by
    intro n hn hchain
    obtain ⟨v, hvis, rfl⟩ := ht.exists_visit hn
    exact Node.isMember_iff.mp (hmember v hvis (ht.inClass_of_onClassChain hv hvis hchain))
  have hclass := ht.onClassChain_of_inClass hv fun v hvis hin _ => hmember v hvis hin
  have hnames : ∀ kind : BlockType, kind.isDefinition = true →
      g.DistinctNames fun n => n.block? = some kind ∧ ¬ g.OnClassChain n.id := by
    intro kind hkind
    obtain ⟨hperm, hnd⟩ := Assembly.mainBlock_names hkind hmain
    have hempty : ({} : Assembly).names kind = [] := by cases kind <;> rfl
    rw [hempty, List.nil_append] at hperm
    rw [hempty] at hnd
    exact (ht.nodup_definedNames_iff hv hclass kind).mp (hperm.nodup_iff.mp (hnd List.nodup_nil))
  exact {
    (toured_iff_passable hv).mp ht with
    members := hmembers
    functions := hnames .function rfl
    classes := (distinctNames_class_iff hmembers).mp (hnames .classDef rfl) }

/-- A structured graph is assembled. -/
theorem Structured.exists_assemble (hs : g.Structured limit) (hv : g.Valid) :
    ∃ main a, g.assemble limit = .ok (main, a) := by
  have ht := (toured_iff_passable hv).mpr hs.toPassable
  have hclass := ht.onClassChain_of_inClass hv fun v hvis _ hchain =>
    Node.isMember_iff.mpr (hs.members v.node (mem_nodes_of_visit hvis) hchain)
  have hmember : ∀ v ∈ g.visits limit, v.place.inClass = true → v.node.isMember = true := by
    intro v hvis hin
    exact Node.isMember_iff.mpr (hs.members v.node (mem_nodes_of_visit hvis) (hclass v hvis hin))
  have hfresh : ({} : Assembly).Fresh (g.visits limit) := by
    intro kind hkind
    have hnd := ht.nodup_definedNames_iff hv hclass kind
    cases kind with
    | function => exact hnd.mpr hs.functions
    | classDef => exact hnd.mpr ((distinctNames_class_iff hs.members).mpr hs.classes)
    | _ => cases hkind
  obtain ⟨⟨main, a⟩, hmain⟩ := Assembly.exists_mainBlock hv ht.faultless
    (g.outlineNodes_subset limit) hmember hfresh
  exact ⟨main, a, assemble_eq_ok.mpr ⟨hmain, unplaced?_eq_none_iff.mpr ht.complete⟩⟩

/-- **A program is built from a valid graph exactly when the graph is structured**, whatever limit
is asked for. -/
theorem buildAlone_isOk_iff_structured (hv : g.Valid) (maxDepth : Option Int) :
    (∃ b, g.buildAlone (nestingLimit maxDepth) = .ok b) ↔ g.Structured (nestingLimit maxDepth) := by
  constructor
  · rintro ⟨b, hb⟩
    obtain ⟨main, a, hassemble, -⟩ := buildAlone_eq_ok hb
    exact structured_of_assemble hv hassemble
  · intro hs
    obtain ⟨main, a, hassemble⟩ := hs.exists_assemble hv
    have hnames := hv.checkNames hassemble
    exact ⟨_, bind_eq_ok.mpr ⟨(main, a), hassemble, bind_eq_ok.mpr ⟨(), hnames, rfl⟩⟩⟩

theorem buildAlone_isOk_iff_structured_sample :
    sample.Valid ∧ sample.Structured (nestingLimit none) :=
  ⟨valid_sample, (buildAlone_isOk_iff_structured valid_sample none).mp exists_build_sample⟩

end Graph

end Blockflow
