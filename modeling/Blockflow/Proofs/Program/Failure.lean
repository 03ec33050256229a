import Blockflow.Proofs.Program.Agreement
import Blockflow.Proofs.Program.Origin

/-!
# How building a valid graph fails

A valid graph has what the walk, the headings and the constructors ask for: every edge leads to a
node, every node is of a known kind, and its fields are texts. So nothing is met on the way that
cannot be worked with, and the only failures are those that are reported to the user of the graph
(`Failure.IsReported`): faults in the flow of control, issues of single nodes, and names that refer
to nothing.
-/

namespace Blockflow

/-- A failure that building a valid graph may end with. -/
def Failure.IsReported : Failure → Prop
  | .compile (.invalid _) | .compile (.controlFlow _ _) | .compile (.unresolved _ _ _) => True
  | _ => False

/-- A failure of a graph on its own, before its names are resolved. -/
def Failure.IsStructural : Failure → Prop
  | .compile (.invalid _) | .compile (.controlFlow _ _) => True
  | _ => False

theorem Failure.IsStructural.isReported {failure : Failure} (h : failure.IsStructural) :
    failure.IsReported := by
  unfold IsStructural at h
  split at h
  next => trivial
  next => trivial
  next => exact h.elim

/-! ## Computations that fail -/

/-- Two computations fail one after the other if one of them does. -/
theorem bind_eq_error {ε α β : Type} {x : Except ε α} {f : α → Except ε β} {e : ε} :
    x >>= f = .error e ↔ x = .error e ∨ ∃ a, x = .ok a ∧ f a = .error e := by
  cases x with
  | error e' =>
    constructor
    · intro h; cases h; exact Or.inl rfl
    · rintro (h | ⟨a, h, -⟩)
      · cases h; rfl
      · cases h
  | ok a =>
    constructor
    · intro h; exact Or.inr ⟨a, rfl, h⟩
    · rintro (h | ⟨a', h, hf⟩)
      · cases h
      · cases h; exact hf

/-- If all fail together, one of them fails. -/
theorem mapM_eq_error_mem {ε α β : Type} {f : α → Except ε β} {e : ε} :
    ∀ {l : List α}, l.mapM f = .error e → ∃ a ∈ l, f a = .error e
  | [], h => by cases h
  | a :: rest, h => by
    rw [List.mapM_cons] at h
    rcases bind_eq_error.mp h with h | ⟨b, -, h⟩
    · exact ⟨a, List.mem_cons_self, h⟩
    · rcases bind_eq_error.mp h with h | ⟨bs, -, h⟩
      · obtain ⟨a', ha', hf⟩ := mapM_eq_error_mem h
        exact ⟨a', List.mem_cons_of_mem _ ha', hf⟩
      · cases h

/-! ## Edges lead to nodes -/

namespace Outline

mutual

/-- No edge of the outline leads to a node that is not there. -/
def Found : Outline → Prop
  | .missing _ => False
  | .step _ slots next => SlotsFound slots ∧ next.Found
  | _ => True

def SlotsFound : List (Role × Outline) → Prop
  | [] => True
  | (_, o) :: rest => o.Found ∧ SlotsFound rest

end

end Outline

namespace Tour

variable {t : Tour}

/-- Where an exit leads, an edge ends. -/
theorem exists_edge_of_target {p : Place} {n : Node} {role : Role} {id : String}
    (h : t.target p n role = some id) : ∃ e ∈ t.graph.edges, e.target = id := by
  obtain ⟨e, he, hf⟩ := Option.bind_eq_some_iff.mp h
  refine ⟨e, (Graph.mem_of_edgeFor he).1, ?_⟩
  unfold follow at hf
  split at hf
  next => cases hf
  next => exact Option.some.inj hf

section

variable (hedges : ∀ e ∈ t.graph.edges, (t.graph.node? e.target).isSome = true)

include hedges

mutual

/-- A walk from a node meets only nodes. -/
theorem Walks.found {path placed placed' : List String} {p : Place} {start : Option String}
    {o : Outline} (h : t.Walks path p placed start o placed')
    (hstart : ∀ id, start = some id → (t.graph.node? id).isSome = true) : o.Found := by
  cases h with
  | stop => trivial
  | cycle _ => trivial
  | again _ _ => trivial
  | missing _ _ hn =>
    have := hstart _ rfl
    rw [hn] at this
    cases this
  | enter _ _ _ hslots hnext =>
    refine ⟨hslots.found, hnext.found fun id hid => ?_⟩
    obtain ⟨e, he, rfl⟩ := exists_edge_of_target hid
    exact hedges e he

theorem WalksSlots.found {path placed placed' : List String} {p : Place} {n : Node}
    {roles : List Role} {slots : List (Role × Outline)}
    (h : t.WalksSlots path p n placed roles slots placed') : Outline.SlotsFound slots := by
  cases h with
  | nil => trivial
  | refused _ hrest => exact ⟨trivial, hrest.found⟩
  | admitted _ hwalk hrest =>
    refine ⟨hwalk.found fun id hid => ?_, hrest.found⟩
    obtain ⟨e, he, rfl⟩ := exists_edge_of_target hid
    exact hedges e he

end

theorem WalksFrom.found {placed placed' starts : List String} {os : List Outline}
    (h : t.WalksFrom placed starts os placed')
    (hstarts : ∀ id ∈ starts, (t.graph.node? id).isSome = true) : ∀ o ∈ os, o.Found := by
  induction h with
  | nil => intro o ho; cases ho
  | cons hwalk _ ih =>
    intro o ho
    rcases List.mem_cons.mp ho with rfl | ho
    · refine hwalk.found hedges fun id hid => ?_
      cases hid
      exact hstarts _ List.mem_cons_self
    · exact ih (fun id hid => hstarts id (List.mem_cons_of_mem _ hid)) o ho

end

end Tour

/-- In a valid graph, no outline leads to a missing node. -/
theorem Graph.Valid.outline_found {g : Graph} (hv : g.Valid) (limit : Int) :
    ∀ o ∈ (g.outline limit).1, o.Found := by
  have hnode : ∀ {id : String}, (∃ n ∈ g.nodes, n.id = id) → (g.node? id).isSome = true := by
    rintro _ ⟨n, hn, rfl⟩
    rw [Graph.node?_of_mem hn]
    rfl
  refine (g.outline_walksFrom limit).found (fun e he => hnode (hv.exists_target he)) ?_
  intro id hid
  have hmem : id ∈ g.ids := (List.mem_filter.mp hid).1
  exact hnode (List.mem_map.mp hmem)

/-! ## Assembling -/

namespace Assembly

/-- A part that cannot stand in its place is a structural failure. -/
theorem place_eq_error {inClass : Bool} {node : String} {q : Part} {a : Assembly}
    {failure : Failure} (h : place inClass node q a = .error failure) : failure.IsStructural := by
  unfold place at h
  split at h
  next => cases h
  next => cases h
  next => cases h; trivial
  next =>
    split at h
    next => cases h; trivial
    next => cases h
  next =>
    split at h
    next => cases h; trivial
    next => cases h
  next => cases h

variable {g : Graph}

mutual

/-- Putting together a chain of a valid graph fails only structurally. -/
theorem chain_eq_error (hv : g.Valid) : ∀ {o : Outline} {inClass : Bool} {a : Assembly}
    {failure : Failure}, chain inClass o a = .error failure → o.nodes ⊆ g.nodes → o.Found →
      failure.IsStructural
  | .done, _, _, _, h, _, _ => by rw [chain] at h; cases h
  | .fault _ _, _, _, _, h, _, _ => by
    rw [chain] at h
    cases h
    trivial
  | .missing _, _, _, _, _, _, hfound => hfound.elim
  | .step n slots next, inClass, a, failure, h, hnodes, hfound => by
    rw [Outline.nodes] at hnodes
    obtain ⟨hn, hnodes⟩ := List.cons_subset.mp hnodes
    obtain ⟨hslotNodes, hnextNodes⟩ := List.append_subset.mp hnodes
    rw [chain] at h
    rcases bind_eq_error.mp h with h | ⟨heading, -, h⟩
    · -- every node of a valid graph has a heading
      obtain ⟨heading, hheading⟩ := hv.exists_heading hn a
      cases hheading.symm.trans h
    rcases bind_eq_error.mp h with h | ⟨⟨blocks, b⟩, -, h⟩
    · exact chains_eq_error hv h hslotNodes hfound.1
    rcases bind_eq_error.mp h with h | ⟨⟨here, b'⟩, -, h⟩
    · exact place_eq_error h
    rcases bind_eq_error.mp h with h | ⟨⟨rest, b''⟩, -, h⟩
    · exact chain_eq_error hv h hnextNodes hfound.2
    · cases h

theorem chains_eq_error (hv : g.Valid) : ∀ {slots : List (Role × Outline)} {inClass : Bool}
    {a : Assembly} {failure : Failure}, chains inClass slots a = .error failure →
      Outline.slotNodes slots ⊆ g.nodes → Outline.SlotsFound slots → failure.IsStructural
  | [], _, _, _, h, _, _ => by rw [chains] at h; cases h
  | (role, o) :: slots, inClass, a, failure, h, hnodes, hfound => by
    rw [Outline.slotNodes] at hnodes
    obtain ⟨hhere, hrest⟩ := List.append_subset.mp hnodes
    rw [chains] at h
    rcases bind_eq_error.mp h with h | ⟨⟨block, b⟩, -, h⟩
    · exact chain_eq_error hv h hhere hfound.1
    rcases bind_eq_error.mp h with h | ⟨⟨blocks, b'⟩, -, h⟩
    · exact chains_eq_error hv h hrest hfound.2
    · cases h

end

/-- Putting together the main block of a valid graph fails only structurally. -/
theorem mainBlock_eq_error (hv : g.Valid) :
    ∀ {os : List Outline} {a : Assembly} {failure : Failure},
    mainBlock os a = .error failure → os.flatMap Outline.nodes ⊆ g.nodes →
      (∀ o ∈ os, o.Found) → failure.IsStructural
  | [], _, _, h, _, _ => by rw [mainBlock] at h; cases h
  | o :: os, a, failure, h, hnodes, hfound => by
    rw [List.flatMap_cons] at hnodes
    obtain ⟨hhere, hrest⟩ := List.append_subset.mp hnodes
    rw [mainBlock] at h
    rcases bind_eq_error.mp h with h | ⟨⟨parts, b⟩, -, h⟩
    · exact chain_eq_error hv h hhere (hfound o List.mem_cons_self)
    rcases bind_eq_error.mp h with h | ⟨⟨block, b'⟩, -, h⟩
    · exact mainBlock_eq_error hv h hrest fun o' ho' => hfound o' (List.mem_cons_of_mem _ ho')
    · cases h

end Assembly

/-- Assembling a valid graph fails only structurally. -/
theorem Graph.Valid.assemble_eq_error {g : Graph} (hv : g.Valid) {limit : Int} {failure : Failure}
    (h : g.assemble limit = .error failure) : failure.IsStructural := by
  unfold Graph.assemble at h
  rcases bind_eq_error.mp h with h | ⟨⟨main, a⟩, -, h⟩
  · exact Assembly.mainBlock_eq_error hv h (g.outlineNodes_subset limit) (hv.outline_found limit)
  · simp only at h
    split at h
    next => cases h; trivial
    next => cases h

/-! ## Statements of a valid graph -/

/-- The fields of a statement, apart from those of the statements inside of it, are texts. -/
def Statement.Textual : Statement → Prop
  | .declare d => d.value.isObject = false
  | .assign name value _ => name.isObject = false ∧ value.isObject = false
  | .print value _ => value.isObject = false
  | .branch cond _ _ _ => cond.isObject = false
  | .forLoop _ cond step _ _ _ => cond.isObject = false ∧ step.isObject = false
  | .whileLoop cond _ _ => cond.isObject = false
  | .create className _ _ _ => className.isObject = false
  | .array _ _ _ _ | .switch _ _ _ _ _ | .call _ _ _ => True
  | .foreign _ => False

theorem FieldValue.exists_text {value : FieldValue} (h : value.isObject = false) :
    ∃ s, value = .text s := by
  cases value with
  | text s => exact ⟨s, rfl⟩
  | object members => cases h

/-- The fields of a class are its declarations, and its methods its functions: nothing else is a
member. -/
def ClassDef.Proper (c : ClassDef) : Prop := ∀ m ∈ c.members, ∀ s, m ≠ .stray s

/-- A part is as a node of a valid graph makes it. -/
def Part.Sound : Part → Prop
  | .statement s => s.Textual
  | .function _ => True
  | .classDef c => c.Proper

namespace Graph.Valid

variable {g : Graph} {limit : Int} {main : Block} {a : Assembly}

/-- The text of a field is no object. -/
theorem isObject_given (hv : g.Valid) {n : Node} (hn : n ∈ g.nodes) {type : BlockType}
    (hb : n.block? = some type) (field : String) (hfield : field ∈ type.fields.map FieldSpec.name) :
    (n.given field).isObject = false := by
  obtain ⟨s, hs⟩ := hv.text_of_field hn hb field hfield
  rw [hs]
  rfl

/-- The part of a node in a valid graph is sound. -/
theorem sound_part (hv : g.Valid) {n : Node} (hn : n ∈ g.nodes) {type : BlockType}
    (hb : n.block? = some type) {symbols : Symbols} {heading : Heading}
    (hread : Heading.read symbols n type = .ok heading) (blocks : List (List Part)) :
    (heading.part n.id blocks).Sound := by
  cases type with
  | declare =>
    obtain ⟨type, -, hread⟩ := bind_eq_ok.mp hread
    obtain ⟨name, -, hread⟩ := bind_eq_ok.mp hread
    cases hread
    exact hv.isObject_given hn hb "value" (by decide)
  | update =>
    cases hread
    exact ⟨hv.isObject_given hn hb "name" (by decide), hv.isObject_given hn hb "value" (by decide)⟩
  | array =>
    obtain ⟨elements, -, hread⟩ := bind_eq_ok.mp hread
    obtain ⟨type, -, hread⟩ := bind_eq_ok.mp hread
    cases hread
    trivial
  | print =>
    cases hread
    exact hv.isObject_given hn hb "value" (by decide)
  | create =>
    obtain ⟨args, -, hread⟩ := bind_eq_ok.mp hread
    cases hread
    exact hv.isObject_given hn hb "className" (by decide)
  | call =>
    obtain ⟨args, -, hread⟩ := bind_eq_ok.mp hread
    cases hread
    trivial
  | branch =>
    cases hread
    exact hv.isObject_given hn hb "condition" (by decide)
  | switch =>
    obtain ⟨subject, -, hread⟩ := bind_eq_ok.mp hread
    obtain ⟨values, -, hread⟩ := bind_eq_ok.mp hread
    cases hread
    trivial
  | forLoop =>
    obtain ⟨init, -, hread⟩ := bind_eq_ok.mp hread
    cases hread
    exact ⟨hv.isObject_given hn hb "condition" (by decide),
      hv.isObject_given hn hb "step" (by decide)⟩
  | whileLoop =>
    cases hread
    exact hv.isObject_given hn hb "condition" (by decide)
  | function =>
    cases Heading.read_fits hread with
    | function => trivial
    | plain _ hplain _ => cases hplain
  | classDef =>
    cases hread
    intro m hm s
    obtain ⟨q, -, hq⟩ := List.mem_filterMap.mp hm
    rintro rfl
    split at hq <;> cases hq

/-- All parts that are assembled from a valid graph are sound. -/
theorem sound_of_mem (hv : g.Valid) (h : g.assemble limit = .ok (main, a)) {q : Part}
    (hq : q ∈ a.walk ++ (Block.walk main).map .statement) : q.Sound := by
  obtain ⟨n, hn, type, symbols, heading, blocks, hb, hread, rfl⟩ := exists_read_of_mem h hq
  exact hv.sound_part hn hb hread blocks

end Graph.Valid

/-! ## Linking and constructors -/

/-- Without a library a call that no definition answers is the only failure. -/
theorem resolve_nil_eq_error {limit : Int} {methods : List String} {l : Linking}
    {failure : Failure} : ∀ {pending : List CallSite},
    resolve limit methods [] l pending = .error failure → failure.IsReported
  | [], h => by rw [resolve] at h; cases h
  | site :: rest, h => by
    rw [resolve] at h
    split at h
    next =>
      split at h
      next => exact resolve_nil_eq_error h
      next => cases h; trivial
    next =>
      split at h
      next => exact resolve_nil_eq_error h
      next =>
        split at h
        next => cases h; trivial
        next hget => simp at hget
        next hget => simp at hget

/-- If an object cannot be created from its class, the failure is reported. -/
theorem Program.constructed?_eq_error {p : Program} {s : Statement} (hs : s.Textual)
    {failure : Failure} (h : p.constructed? s = .error failure) : failure.IsReported := by
  unfold constructed? at h
  split at h
  next => cases h
  next className name args node hargs =>
    obtain ⟨text, rfl⟩ := FieldValue.exists_text hs
    rcases bind_eq_error.mp h with h | ⟨key, -, h⟩
    · cases h
    · split at h
      next => cases h; trivial
      next =>
        split at h
        next => cases h
        next => cases h; trivial
  next => cases h

/-- **Building a valid graph on its own fails only with failures that are reported.** -/
theorem Graph.Valid.build_eq_error {g : Graph} (hv : g.Valid) {limit : Int} {failure : Failure}
    (h : g.build limit [] = .error failure) : failure.IsReported := by
  unfold Graph.build at h
  rcases bind_eq_error.mp h with h | ⟨⟨main, a⟩, hassemble, h⟩
  · exact (hv.assemble_eq_error h).isReported
  simp only [hv.namesAreTexts hassemble, if_true] at h
  rcases bind_eq_error.mp h with h | ⟨l, hlink, h⟩
  · exact resolve_nil_eq_error h
  rcases bind_eq_error.mp h with h | ⟨program, -, h⟩
  · obtain rfl := resolve_nil hlink
    unfold Program.withConstructors at h
    rcases bind_eq_error.mp h with h | ⟨needed, -, h⟩
    · obtain ⟨s, hs, hfail⟩ := mapM_eq_error_mem h
      have hwalk := Assembly.statement_mem_finish_iff.mp (Program.mem_statements.mp hs)
      have hsound : (Part.statement s).Sound := hv.sound_of_mem hassemble (by simpa using hwalk)
      exact Program.constructed?_eq_error hsound hfail
    · cases h
  · cases h

end Blockflow
