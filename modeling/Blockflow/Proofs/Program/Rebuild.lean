import Blockflow.Proofs.Outline.Nested
import Blockflow.Proofs.Program.Linked
import Blockflow.Proofs.Program.Origin
import Blockflow.Proofs.Program.Redrawn

/-!
# A definition built on its own

A chain is assembled into the same parts whatever has been met before, as long as the same names are
visible and less has been taken out (`Assembly.Lighter`). A definition starts with the names of its
parameters only. So what is cut out at a definition is built into the same definition
(`Graph.extract_rebuilds`), with one exception: a method stays in its class, but on its own it is
taken out as a function, and then it must not have the name of a function that is defined inside of
it (`Graph.RedefinesItself`).
-/

namespace Blockflow

namespace Assembly

/-! ## Assembling after less has been met -/

/-- One assembly has met less than another: the same names are visible, and every name that has been
taken out has been taken out in the other one as well. -/
structure Lighter (a' a : Assembly) : Prop where
  symbols : a'.symbols = a.symbols
  functions : a'.functions.map FunctionDef.name ⊆ a.functions.map FunctionDef.name
  classes : a'.classes.map ClassDef.name ⊆ a.classes.map ClassDef.name

variable {a a' b : Assembly} {inClass : Bool} {node : String} {q : Part} {here : List Part}

theorem heading_congr (h : a'.symbols = a.symbols) (n : Node) : a'.heading n = a.heading n := by
  unfold heading
  rw [h]

theorem place_of_fits (h : q.Fits inClass) (node : String) (a : Assembly) :
    place inClass node q a = .ok ([q], a) := by
  cases inClass with
  | false =>
    cases q with
    | statement s => rfl
    | function f => cases h
    | classDef c => cases h
  | true =>
    have hmember : q.isMember = true := h
    unfold Part.isMember at hmember
    split at hmember
    next => rfl
    next => rfl
    next => cases hmember

namespace Lighter

theorem place (h : a'.Lighter a) (hplace : place inClass node q a = .ok (here, b)) :
    ∃ b', Assembly.place inClass node q a' = .ok (here, b') ∧ b'.Lighter b := by
  rcases place_eq_ok hplace with
    ⟨hfits, rfl, rfl⟩ | ⟨rfl, rfl, ⟨f, rfl, hname, rfl⟩ | ⟨c, rfl, hname, rfl⟩⟩
  · exact ⟨a', place_of_fits hfits node a', h⟩
  · have hname' := fun hmem => hname (h.functions hmem)
    refine ⟨_, if_neg (by simpa using hname'), h.symbols, ?_, h.classes⟩
    rw [List.map_append, List.map_append]
    exact List.append_subset.mpr ⟨List.subset_append_of_subset_left _ h.functions,
      List.subset_append_right _ _⟩
  · have hname' := fun hmem => hname (h.classes hmem)
    refine ⟨_, if_neg (by simpa using hname'), h.symbols, h.functions, ?_⟩
    rw [List.map_append, List.map_append]
    exact List.append_subset.mpr ⟨List.subset_append_of_subset_left _ h.classes,
      List.subset_append_right _ _⟩

mutual

/-- **A chain is assembled into the same parts after less has been met.** -/
theorem chain : ∀ {o : Outline} {inClass : Bool} {a a' b : Assembly} {parts : List Part},
    a'.Lighter a → Assembly.chain inClass o a = .ok (parts, b) →
      ∃ b', Assembly.chain inClass o a' = .ok (parts, b') ∧ b'.Lighter b
  | .done, _, _, a', _, _, hl, h => by
    rw [Assembly.chain] at h
    cases h
    exact ⟨a', by rw [Assembly.chain], hl⟩
  | .fault _ _, _, _, _, _, _, _, h => by rw [Assembly.chain] at h; cases h
  | .missing _, _, _, _, _, _, _, h => by rw [Assembly.chain] at h; cases h
  | .step n slots next, inClass, a, a', b, parts, hl, h => by
    obtain ⟨heading, blocks, b₁, here, b₂, rest, hheading, hslots, hplace, hnext, rfl⟩ :=
      chain_step_iff.mp h
    have hinner : Lighter { a' with symbols := heading.inner a'.symbols }
        { a with symbols := heading.inner a.symbols } :=
      ⟨congrArg (Heading.inner · heading) hl.symbols, hl.functions, hl.classes⟩
    obtain ⟨b₁', hslots', hl₁⟩ := chains hinner hslots
    have houter : Lighter
        { b₁' with
          symbols := heading.outer a'.symbols b₁'.symbols, calls := b₁'.calls ++ heading.calls }
        { b₁ with
          symbols := heading.outer a.symbols b₁.symbols, calls := b₁.calls ++ heading.calls } :=
      ⟨by rw [hl.symbols, hl₁.symbols], hl₁.functions, hl₁.classes⟩
    obtain ⟨b₂', hplace', hl₂⟩ := houter.place hplace
    obtain ⟨b', hnext', hl'⟩ := chain hl₂ hnext
    refine ⟨b', chain_step_iff.mpr ?_, hl'⟩
    exact ⟨heading, blocks, b₁', here, b₂', rest, (heading_congr hl.symbols n).trans hheading,
      hslots', hplace', hnext', rfl⟩

theorem chains : ∀ {slots : List (Role × Outline)} {inClass : Bool} {a a' b : Assembly}
    {blocks : List (List Part)}, a'.Lighter a → Assembly.chains inClass slots a = .ok (blocks, b) →
      ∃ b', Assembly.chains inClass slots a' = .ok (blocks, b') ∧ b'.Lighter b
  | [], _, _, a', _, _, hl, h => by
    rw [Assembly.chains] at h
    cases h
    exact ⟨a', by rw [Assembly.chains], hl⟩
  | (role, o) :: slots, inClass, a, a', b, blocks, hl, h => by
    obtain ⟨block, b₁, rest, hchain, hrest, rfl⟩ := chains_cons_eq_ok h
    obtain ⟨b₁', hchain', hl₁⟩ := chain hl hchain
    obtain ⟨b', hrest', hl'⟩ := chains hl₁ hrest
    refine ⟨b', ?_, hl'⟩
    rw [Assembly.chains]
    exact bind_eq_ok.mpr ⟨(block, b₁'), hchain', bind_eq_ok.mpr ⟨(rest, b'), hrest', rfl⟩⟩

end

end Lighter

/-- A chain of one node. -/
theorem chain_single_iff {n : Node} {slots : List (Role × Outline)} {heading : Heading}
    {blocks : List (List Part)} {c : Assembly} {parts : List Part}
    (hheading : a.heading n = .ok heading)
    (hslots : chains (n.innerClass inClass) slots { a with symbols := heading.inner a.symbols } =
      .ok (blocks, b)) :
    chain inClass (.step n slots .done) a = .ok (parts, c) ↔
      place inClass n.id (heading.part n.id blocks)
        { b with symbols := heading.outer a.symbols b.symbols, calls := b.calls ++ heading.calls } =
        .ok (parts, c) := by
  rw [chain_step_iff]
  constructor
  · rintro ⟨heading', blocks', b₁, here, b₂, rest, hheading', hslots', hplace, hnext, rfl⟩
    cases hheading.symm.trans hheading'
    cases hslots.symm.trans hslots'
    rw [chain] at hnext
    cases hnext
    rw [List.append_nil]
    exact hplace
  · intro hplace
    refine ⟨heading, blocks, b, parts, c, [], hheading, hslots, hplace, ?_, ?_⟩
    · rw [chain]
    · rw [List.append_nil]

end Assembly

/-! ## Definitions start afresh -/

theorem Node.innerClass_eq {n : Node} (hdef : n.isDefinition = true) (inClass inClass' : Bool) :
    n.innerClass inClass = n.innerClass inClass' := by
  obtain ⟨type, hb, htype⟩ := isDefinition_iff.mp hdef
  unfold innerClass
  rw [hb]
  cases type with
  | function => rfl
  | classDef => rfl
  | _ => cases htype

/-- What is read from a definition does not depend on the names that are visible there. -/
theorem Assembly.heading_eq {n : Node} (hdef : n.isDefinition = true) (a a' : Assembly) :
    a'.heading n = a.heading n := by
  obtain ⟨type, hb, htype⟩ := Node.isDefinition_iff.mp hdef
  unfold heading
  rw [hb]
  cases type with
  | function => rfl
  | classDef => rfl
  | _ => cases htype

/-- The names that are visible inside of a definition do not depend on those around it. -/
theorem Heading.Fits.inner_eq {n : Node} {type : BlockType} {h : Heading} (hf : h.Fits n type)
    (hdef : type.isDefinition = true) (symbols symbols' : Symbols) :
    h.inner symbols = h.inner symbols' := by
  cases hf with
  | plain _ hplain _ =>
    rcases BlockType.isPlain_iff.mp hplain with rfl | rfl | rfl | rfl <;> cases hdef
  | function => rfl
  | classDef => rfl
  | _ => cases hdef

/-- The part that is built at a visit if nothing has been met before, and what has been met before
the part takes its place. -/
inductive Visit.BuildsAlone (v : Visit) : Part → Assembly → Prop where
  | intro {b : Assembly} {heading : Heading} {blocks : List (List Part)}
      (read : ({} : Assembly).heading v.node = .ok heading)
      (inner : Assembly.chains (v.node.innerClass false) v.slots
        { symbols := heading.inner [] } = .ok (blocks, b)) :
      v.BuildsAlone (heading.part v.node.id blocks)
        { b with symbols := heading.outer [] b.symbols, calls := b.calls ++ heading.calls }

namespace Visit

variable {v : Visit} {q : Part} {a c : Assembly} {type : BlockType}

/-- **A definition is built as if nothing had been met before.** -/
theorem Builds.exists_alone (h : v.Builds q) (hdef : v.node.isDefinition = true) :
    ∃ c, v.BuildsAlone q c := by
  cases h with
  | @intro a b heading blocks read inner =>
    obtain ⟨type, hb, hf⟩ := Assembly.heading_eq_ok read
    have htype : type.isDefinition = true := by simpa [Node.isDefinition_iff, hb] using hdef
    have hlighter : Assembly.Lighter { symbols := heading.inner [] }
        { a with symbols := heading.inner a.symbols } :=
      ⟨hf.inner_eq htype _ _, List.nil_subset _, List.nil_subset _⟩
    rw [Node.innerClass_eq hdef _ false] at inner
    obtain ⟨b', hinner, -⟩ := hlighter.chains inner
    exact ⟨_, .intro ((Assembly.heading_eq hdef a {}).trans read) hinner⟩

namespace BuildsAlone

variable (h : v.BuildsAlone q c) (hb : v.node.block? = some type) (hdef : type.isDefinition = true)
include h hb hdef

/-- The names that have been taken out are those that are defined inside of the node. -/
theorem names_perm :
    (c.names type).Perm
      (definedNames type (Outline.slotVisits (v.place.inside v.node) v.slots)) := by
  have hnode : v.node.isDefinition = true := Node.isDefinition_iff.mpr ⟨type, hb, hdef⟩
  cases h with
  | @intro b heading blocks read inner =>
    rw [Node.innerClass_eq hnode _ v.place.inClass] at inner
    have hperm := (Assembly.chains_names (p := v.place.inside v.node) hdef inner).1
    cases type with
    | function => exact hperm
    | classDef => exact hperm
    | _ => cases hdef

/-- The definition takes its place if its name is new. -/
theorem exists_place_iff :
    (∃ r, Assembly.place false v.node.id q c = .ok r) ↔ v.node.definedName ∉ c.names type := by
  cases h with
  | intro read inner =>
    obtain ⟨type', hb', hf⟩ := Assembly.heading_eq_ok read
    cases hb.symm.trans hb'
    constructor
    · rintro ⟨⟨here, a⟩, hplace⟩
      exact (Assembly.names_place hdef hf hplace).2 ⟨rfl, rfl⟩
    · intro hnew
      exact Assembly.exists_place hf _ _ (by simp) fun _ _ => hnew

/-- The definition is taken out. -/
theorem mem_walk {here : List Part} (hplace : Assembly.place false v.node.id q c = .ok (here, a)) :
    here = [] ∧ q ∈ a.walk := by
  cases h with
  | @intro b heading blocks read inner =>
    obtain ⟨type', hb', hf⟩ := Assembly.heading_eq_ok read
    cases hb.symm.trans hb'
    rcases Assembly.place_eq_ok hplace with
      ⟨hfits, -, -⟩ | ⟨-, rfl, ⟨f, hq, -, rfl⟩ | ⟨cls, hq, -, rfl⟩⟩
    · -- what stays in a block is a statement
      have hstatement : (heading.part v.node.id blocks).isStatement = true := hfits
      rw [hf.isStatement_part, hdef] at hstatement
      cases hstatement
    · rw [hq]
      exact ⟨rfl, Assembly.function_mem_walk (by simp)⟩
    · rw [hq]
      refine ⟨rfl, List.mem_append_left _ (List.mem_flatMap.mpr ⟨cls, by simp, ?_⟩)⟩
      exact List.mem_cons_self

end BuildsAlone

end Visit

/-! ## Parts without types -/

namespace Part

/-- A definition without the types of parameters; a statement stays what it is. -/
def untyped : Part → Part
  | .statement s => .statement s
  | .function f => .function f.untyped
  | .classDef c => .classDef c.untyped

theorem untyped_typed (calls : List CallSite) (q : Part) : (q.typed calls).untyped = q.untyped := by
  cases q with
  | statement s => rfl
  | function f => exact congrArg Part.function (f.untyped_typed calls)
  | classDef c => exact congrArg Part.classDef (c.untyped_typed calls)

theorem kind_typed (calls : List CallSite) (q : Part) : (q.typed calls).kind? = q.kind? := by
  cases q <;> rfl

end Part

/-! ## What is cut out, assembled -/

namespace Graph

variable {g g' : Graph} {root : String} {limit : Int} {v : Visit} {q : Part} {c : Assembly}

/-- The node is a method, and a function of the same name is defined inside of it. -/
def RedefinesItself (g : Graph) (n : Node) : Prop :=
  n.block? = some .function ∧ g.OnClassChain n.id ∧
    ∃ m ∈ g.nodes, g.Inside n.id m.id ∧ m.block? = some .function ∧ ¬ g.OnClassChain m.id ∧
      m.definedName = n.definedName

/-- What stands in the body of a class is on its chain. -/
theorem Structured.onClassChain_iff (hs : g.Structured limit) (hv : g.Valid) (ht : g.Toured limit)
    (hvis : v ∈ g.visits limit) : g.OnClassChain v.node.id ↔ v.place.inClass = true := by
  refine ⟨ht.inClass_of_onClassChain hv hvis, ?_⟩
  refine ht.onClassChain_of_inClass hv (fun w hw _ hchain => ?_) v hvis
  exact Node.isMember_iff.mpr (hs.members w.node (mem_nodes_of_visit hw) hchain)

namespace CutOut

variable (h : g.CutOut g' root) (hv : g.Valid) (ht : g.Toured limit) (hvis : v ∈ g.visits limit)
  (hid : v.node.id = root)
include h hv ht hvis hid

/-- The names that are defined inside of the root, in terms of the nodes. -/
theorem mem_definedNames_iff (hs : g.Structured limit) {kind : BlockType} {name : String} :
    name ∈ definedNames kind (Outline.slotVisits (v.place.inside v.node) v.slots) ↔
      ∃ m ∈ g.nodes, g.Inside root m.id ∧ m.block? = some kind ∧ ¬ g.OnClassChain m.id ∧
        m.definedName = name := by
  have hsub : Outline.slotVisits (v.place.inside v.node) v.slots ⊆ g.visits limit := by
    refine List.Subset.trans ?_ (outline_visits_subset hvis)
    rw [Visit.outline, Outline.visits]
    exact List.subset_cons_of_subset _ (List.subset_append_left _ _)
  have hdefines : ∀ w ∈ Outline.slotVisits (v.place.inside v.node) v.slots,
      (w.defines kind = true ↔ w.node.block? = some kind ∧ ¬ g.OnClassChain w.node.id) := by
    intro w hw
    simp [Visit.defines, hs.onClassChain_iff hv ht (hsub hw)]
  rw [definedNames, List.mem_map]
  constructor
  · rintro ⟨w, hw, rfl⟩
    obtain ⟨hw, hwdef⟩ := List.mem_filter.mp hw
    have hinside := (h.mem_slotIds_iff hv ht hvis hid).mp
      ((Outline.mem_slotIds_iff _).mpr ⟨w, hw, rfl⟩)
    obtain ⟨hkind, hchain⟩ := (hdefines w hw).mp hwdef
    exact ⟨w.node, mem_nodes_of_visit (hsub hw), hinside.2, hkind, hchain, rfl⟩
  · rintro ⟨m, hm, hinside, hkind, hchain, rfl⟩
    obtain ⟨w, hw, hwid⟩ := (Outline.mem_slotIds_iff (v.place.inside v.node)).mp
      ((h.mem_slotIds_iff hv ht hvis hid).mpr ⟨⟨m, hm, rfl⟩, hinside⟩)
    obtain rfl := List.inj_on_of_nodup_map g.nodup (mem_nodes_of_visit (hsub hw)) hm hwid
    exact ⟨w, List.mem_filter.mpr ⟨hw, (hdefines w hw).mpr ⟨hkind, hchain⟩⟩, rfl⟩

/-- A definition has the name of one inside of it only if it is a method. -/
theorem redefinesItself_iff (hs : g.Structured limit) {type : BlockType}
    (hb : v.node.block? = some type) (hdef : type.isDefinition = true) :
    v.node.definedName ∈ definedNames type (Outline.slotVisits (v.place.inside v.node) v.slots) ↔
      g.RedefinesItself v.node := by
  have hn := mem_nodes_of_visit hvis
  rw [h.mem_definedNames_iff hv ht hvis hid hs, RedefinesItself, hid]
  constructor
  · rintro ⟨m, hm, hinside, hkind, hchain, hname⟩
    have hne : m ≠ v.node := fun heq => hinside.2 (heq ▸ hid)
    cases type with
    | function =>
      refine ⟨hb, by_contra fun hoff => hne ?_, m, hm, hinside, hkind, hchain, hname⟩
      exact hs.functions m hm v.node hn ⟨hkind, hchain⟩ ⟨hb, hid ▸ hoff⟩ hname
    | classDef => exact absurd (hs.classes m hm v.node hn hkind hb hname) hne
    | _ => cases hdef
  · rintro ⟨hfunction, -, m, hm, hinside, hkind, hchain, hname⟩
    cases hb.symm.trans hfunction
    exact ⟨m, hm, hinside, hkind, hchain, hname⟩

/-- What is assembled from what is cut out is the definition at the root. -/
theorem assemble_iff (hq : v.BuildsAlone q c) {main : Block} {a : Assembly} :
    g'.assemble limit = .ok (main, a) ↔
      ∃ here, Assembly.place false v.node.id q c = .ok (here, a) ∧ main = Heading.block here := by
  cases hq with
  | @intro b heading blocks read inner =>
    rw [assemble_eq_ok, h.outline_eq hv ht hvis hid,
      unplaced?_eq_none_iff.mpr (h.complete hv ht hvis hid)]
    constructor
    · rintro ⟨hmain, -⟩
      obtain ⟨parts, b₁, rest, hchain, hrest, rfl⟩ := Assembly.mainBlock_cons_eq_ok hmain
      rw [Assembly.mainBlock] at hrest
      cases hrest
      exact ⟨parts, (Assembly.chain_single_iff read inner).mp hchain, List.append_nil _⟩
    · rintro ⟨here, hplace, rfl⟩
      refine ⟨?_, rfl⟩
      have hchain := (Assembly.chain_single_iff read inner).mpr hplace
      rw [Assembly.mainBlock]
      refine bind_eq_ok.mpr ⟨(here, a), hchain, bind_eq_ok.mpr ⟨([], a), ?_, ?_⟩⟩
      · rw [Assembly.mainBlock]
      · exact congrArg (fun block => Except.ok (block, a)) (List.append_nil _)

/-- **What is cut out is assembled unless it redefines itself.** -/
theorem exists_assemble_iff (hs : g.Structured limit) (hq : v.BuildsAlone q c) {type : BlockType}
    (hb : v.node.block? = some type) (hdef : type.isDefinition = true) :
    (∃ main a, g'.assemble limit = .ok (main, a)) ↔ ¬ g.RedefinesItself v.node := by
  rw [← h.redefinesItself_iff hv ht hvis hid hs hb hdef, ← (hq.names_perm hb hdef).mem_iff,
    ← hq.exists_place_iff hb hdef]
  constructor
  · rintro ⟨main, a, hassemble⟩
    obtain ⟨here, hplace, -⟩ := (h.assemble_iff hv ht hvis hid hq).mp hassemble
    exact ⟨_, hplace⟩
  · rintro ⟨⟨here, a⟩, hplace⟩
    exact ⟨_, a, (h.assemble_iff hv ht hvis hid hq).mpr ⟨here, hplace, rfl⟩⟩

end CutOut

/-! ## The definition at a node -/

variable {d : Diagram} {b : Build} {main : Block} {a : Assembly} {n : Node}

/-- Every node of the graph is visited, and a part is built there. -/
theorem exists_builds_at (h : g.assemble limit = .ok (main, a)) (hn : n ∈ g.nodes) :
    ∃ v ∈ g.visits limit, v.node = n ∧
      ∃ q ∈ a.walk ++ (Block.walk main).map .statement, v.Builds q := by
  have hid : n.id ∈ (a.walk ++ (Block.walk main).map Part.statement).map Part.node := by
    rw [← a.nodes_finish main]
    exact (nodes_assemble h).mem_iff.mpr (List.mem_map_of_mem hn)
  obtain ⟨q, hq, hqid⟩ := List.mem_map.mp hid
  obtain ⟨v, hvis, hbuilds⟩ := exists_builds h hq
  have hvid : v.node.id = n.id := hbuilds.node_eq.symm.trans hqid
  refine ⟨v, hvis, ?_, q, hq, hbuilds⟩
  exact List.inj_on_of_nodup_map g.nodup (mem_nodes_of_visit hvis) hn hvid

/-- Nothing else in the program has the node of a part. -/
theorem filter_node_finish (h : g.assemble limit = .ok (main, a))
    (hq : q ∈ a.walk ++ (Block.walk main).map .statement) :
    (a.finish main).walk.filter (·.node = q.node) = [q.typed a.calls] := by
  have hnd : ((a.finish main).walk.map Part.node).Nodup := (nodes_assemble h).nodup_iff.mpr g.nodup
  have hmem : q.typed a.calls ∈ (a.finish main).walk := by
    rw [a.walk_finish main]
    exact List.mem_map_of_mem hq
  refine List.perm_singleton.mp ((List.perm_ext_iff_of_nodup ((hnd.of_map _).filter _)
    (List.nodup_singleton _)).mpr fun r => ?_)
  rw [List.mem_filter, List.mem_singleton, decide_eq_true_eq]
  constructor
  · rintro ⟨hr, hnode⟩
    exact List.inj_on_of_nodup_map hnd hr hmem (hnode.trans (q.node_typed a.calls).symm)
  · rintro rfl
    exact ⟨hmem, q.node_typed a.calls⟩

/-- **A definition that is cut out is built into the same definition.** It can always be cut out and
loaded, and is valid. A program is built from it unless it is a method that redefines itself. The
program has no statements of its own, and the definition at the node is the one that the program of
the whole graph has there, apart from the types of parameters. -/
theorem extract_rebuilds (hload : Graph.load d = .ok g) (hv : g.Valid)
    (htrimmed : ∀ m ∈ g.nodes, m.Trimmed) (hbuild : g.buildAlone limit = .ok b)
    (hn : n ∈ g.nodes) (hdef : n.isDefinition = true) :
    ∃ f g', g.extract n.id = .ok f ∧ Graph.load f.diagram = .ok g' ∧ g'.Valid ∧
      ((∃ b', g'.buildAlone limit = .ok b') ↔ ¬ g.RedefinesItself n) ∧
      ∀ b', g'.buildAlone limit = .ok b' → b'.program.main = [] ∧
        ∃ q q', b.program.walk.filter (·.node = n.id) = [q] ∧
          b'.program.walk.filter (·.node = n.id) = [q'] ∧
          q.kind? = n.block? ∧ q'.untyped = q.untyped := by
  obtain ⟨f, hextract⟩ := hv.exists_extract hn hdef
  obtain ⟨g', hload', hnodes, hedges⟩ := exists_load_fragment hload htrimmed hextract
  obtain ⟨main, a, hassemble, hprogram⟩ := buildAlone_eq_ok hbuild
  have ht := toured_of_assemble hassemble
  have hs := structured_of_assemble hv hassemble
  have hcut : g.CutOut g' n.id := by
    obtain ⟨-, -, -, -, -, -, hfnodes, hfedges⟩ := extract_eq_ok hextract
    exact ⟨⟨n, hn, rfl, hdef⟩, hnodes.trans hfnodes, hedges.trans hfedges⟩
  have hv' := hcut.valid hv
  obtain ⟨v, hvis, rfl, q, hq, hbuilds⟩ := exists_builds_at hassemble hn
  obtain ⟨c, halone⟩ := hbuilds.exists_alone hdef
  obtain ⟨type, hb, htype⟩ := Node.isDefinition_iff.mp hdef
  refine ⟨f, g', hextract, hload', hv', ?_, ?_⟩
  · rw [hv'.exists_buildAlone_iff]
    exact hcut.exists_assemble_iff hv ht hvis rfl hs halone hb htype
  · intro b' hbuild'
    obtain ⟨main', a', hassemble', hprogram'⟩ := buildAlone_eq_ok hbuild'
    obtain ⟨here, hplace, rfl⟩ := (hcut.assemble_iff hv ht hvis rfl halone).mp hassemble'
    obtain ⟨rfl, hq'⟩ := halone.mem_walk hb htype hplace
    rw [hprogram, hprogram', ← hbuilds.node_eq, ← hbuilds.kind_eq]
    refine ⟨rfl, _, _, filter_node_finish hassemble hq,
      filter_node_finish hassemble' (List.mem_append_left _ hq'), q.kind_typed a.calls, ?_⟩
    rw [Part.untyped_typed, Part.untyped_typed]

/-- A method with one parameter. -/
def ticking : DrawnNode :=
  { id := "m", type := "functionDefine", data := [("name", .str "tick"), ("params", .str "n")] }

/-- A class with this method, which counts down in a loop and has a function inside of it. The
method is called with a number. -/
def ticker (inner : String) : Diagram where
  nodes :=
    [{ id := "c", type := "classDefine", data := [("name", .str "Clock")] },
     ticking,
     { id := "w", type := "while", data := [("condition", .str "n > 0")] },
     { id := "u", type := "assign2", data := [("name", .str "n"), ("value", .str "n - 1")] },
     { id := "k", type := "functionDefine", data := [("name", .str inner)] },
     { id := "p", type := "print", data := [("value", .str "0")] },
     { id := "s", type := "functionCall", data := [("name", .str "c.tick"), ("args", .str "3")] }]
  edges :=
    [{ id := "e1", source := "c", target := "m", sourceHandle := some "body" },
     { id := "e2", source := "m", target := "w", sourceHandle := some "body" },
     { id := "e3", source := "w", target := "u", sourceHandle := some "body" },
     { id := "e4", source := "u", target := "w" },
     { id := "e5", source := "w", target := "k" },
     { id := "e6", source := "k", target := "p", sourceHandle := some "body" },
     { id := "e7", source := "c", target := "s" }]

/-- The graph of the diagram. -/
def tickerGraph (inner : String) : Graph where
  nodes := (ticker inner).nodes.map Node.ofDrawn
  edges := (ticker inner).edges.map Edge.ofDrawn
  nodup := show ["c", "m", "w", "u", "k", "p", "s"].Nodup by decide

theorem load_ticker (inner : String) : Graph.load (ticker inner) = .ok (tickerGraph inner) :=
  load_eq (by simp [ticker, ticking, hasDeepList, Json.listDepth]) _

theorem ticking_mem (inner : String) : Node.ofDrawn ticking ∈ (tickerGraph inner).nodes :=
  List.mem_map_of_mem (List.mem_cons_of_mem _ List.mem_cons_self)

theorem extract_rebuilds_ticker :
    Graph.load (ticker "step") = .ok (tickerGraph "step") ∧ (tickerGraph "step").Valid ∧
      (∀ m ∈ (tickerGraph "step").nodes, m.Trimmed) ∧
      ∃ b f g' b', (tickerGraph "step").buildAlone 100 = .ok b ∧
      (tickerGraph "step").extract "m" = .ok f ∧ Graph.load f.diagram = .ok g' ∧
      g'.buildAlone 100 = .ok b' ∧ b'.program.main = [] ∧
      ∃ q q', b.program.walk.filter (·.node = "m") = [q] ∧
        b'.program.walk.filter (·.node = "m") = [q'] ∧ q.kind? = some .function ∧
        q'.untyped = q.untyped := by
  have hv : (tickerGraph "step").Valid := by
    unfold Valid
    decide +kernel
  have htrimmed : ∀ m ∈ (tickerGraph "step").nodes, m.Trimmed := by decide +kernel
  have hbuild : ∃ b, (tickerGraph "step").buildAlone 100 = .ok b :=
    exists_of_isOk (by decide +kernel)
  obtain ⟨b, hb⟩ := hbuild
  obtain ⟨f, g', hextract, hload, -, hiff, hsame⟩ := extract_rebuilds (load_ticker "step") hv
    htrimmed hb (ticking_mem "step") (by decide +kernel)
  -- the function inside of the method has another name
  have hnames : ∀ m ∈ (tickerGraph "step").nodes, m.block? = some .function →
      m.definedName = (Node.ofDrawn ticking).definedName → m.id = "m" := by decide +kernel
  obtain ⟨b', hb'⟩ := hiff.mpr fun ⟨_, _, m, hm, hinside, hkind, _, hname⟩ =>
    hinside.2 (hnames m hm hkind hname)
  obtain ⟨hmain, q, q', hq, hq', hkind, heq⟩ := hsame b' hb'
  exact ⟨load_ticker "step", hv, htrimmed, b, f, g', b', hb, hextract, hload, hb', hmain, q, q', hq,
    hq', hkind, heq⟩

/-- Not every definition of a program can be built on its own: a method may have a function of its
own name inside of it. -/
theorem not_forall_extract_builds :
    ¬ ∀ (d : Diagram) (g : Graph) (limit : Int) (b : Build) (n : Node) (f : Fragment) (g' : Graph),
      Graph.load d = .ok g → g.Valid → (∀ m ∈ g.nodes, m.Trimmed) → g.buildAlone limit = .ok b →
      n ∈ g.nodes → n.isDefinition = true → g.extract n.id = .ok f →
      Graph.load f.diagram = .ok g' → ∃ b', g'.buildAlone limit = .ok b' := by
  intro hall
  have hv : (tickerGraph "tick").Valid := by
    unfold Valid
    decide +kernel
  have htrimmed : ∀ m ∈ (tickerGraph "tick").nodes, m.Trimmed := by decide +kernel
  have hbuild : ∃ b, (tickerGraph "tick").buildAlone 100 = .ok b :=
    exists_of_isOk (by decide +kernel)
  obtain ⟨b, hb⟩ := hbuild
  have hdef : (Node.ofDrawn ticking).isDefinition = true := by decide +kernel
  obtain ⟨f, hextract⟩ := hv.exists_extract (ticking_mem "tick") hdef
  obtain ⟨g', hload, -⟩ := exists_load_fragment (load_ticker "tick") htrimmed hextract
  obtain ⟨b', hb'⟩ := hall _ _ 100 b _ f g' (load_ticker "tick") hv htrimmed hb
    (ticking_mem "tick") hdef hextract hload
  have hfails : ((tickerGraph "tick").extract "m" >>= fun f =>
      Graph.load f.diagram >>= fun g' => g'.buildAlone 100).isOk = false := by decide +kernel
  have hok : ((tickerGraph "tick").extract "m" >>= fun f =>
      Graph.load f.diagram >>= fun g' => g'.buildAlone 100) = .ok b' :=
    bind_eq_ok.mpr ⟨f, hextract, bind_eq_ok.mpr ⟨g', hload, hb'⟩⟩
  rw [hok] at hfails
  cases hfails

end Graph

end Blockflow
