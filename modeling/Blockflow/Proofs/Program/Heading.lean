import Blockflow.Proofs.Graph.Valid

/-!
# Headings and the parts that they become

The heading of a node says what kind of part the node becomes (`Heading.Fits`). A part is walked
through by starting with the part itself and going on with the parts behind its exits, one exit
after the other (`Heading.Fits.walk_part`): nothing that stands behind an exit is lost. This needs
that what stands in a block are statements, and what stands in a class body are fields and methods.

Every node of a valid graph has a heading (`Graph.Valid.exists_heading`).
-/

namespace Blockflow

/-- The name that a node gives: the name under which a definition is known, or which a call
calls. -/
def Node.definedName (n : Node) : String := (n.given "name").shown

/-- A switch has an exit for each of its cases and one for the others. -/
theorem Node.slotRoles_switch {n : Node} {values : List String} (hb : n.block? = some .switch)
    (hvalues : n.list "cases" = .ok values) :
    n.slotRoles = values.mapIdx (fun i _ => Role.case i) ++ [.default] := by
  rw [slotRoles, hb]
  simp only [if_true, hvalues]
  rfl

/-! ## Kinds of headings -/

/-- The kinds of nodes that become a statement on its own, apart from declarations and calls. -/
def BlockType.isPlain : BlockType → Bool
  | .update | .array | .print | .create => true
  | _ => false

theorem BlockType.isPlain_iff {type : BlockType} : type.isPlain = true ↔
    type = .update ∨ type = .array ∨ type = .print ∨ type = .create := by
  cases type <;> simp [isPlain]

/-- The kind of node that a statement is built from. -/
def Statement.kind? : Statement → Option BlockType
  | .declare _ => some .declare
  | .assign _ _ _ => some .update
  | .array _ _ _ _ => some .array
  | .print _ _ => some .print
  | .branch _ _ _ _ => some .branch
  | .switch _ _ _ _ _ => some .switch
  | .forLoop _ _ _ _ _ _ => some .forLoop
  | .whileLoop _ _ _ => some .whileLoop
  | .call _ _ _ => some .call
  | .create _ _ _ _ => some .create
  | .foreign _ => none

/-- The kind of node that a part is built from. -/
def Part.kind? : Part → Option BlockType
  | .statement s => s.kind?
  | .function _ => some .function
  | .classDef _ => some .classDef

/-- The heading is one of a node of this kind. -/
inductive Heading.Fits (n : Node) : BlockType → Heading → Prop where
  | declare {d : Declaration} : d.node = n.id → Fits n .declare (.declare d)
  | plain {type : BlockType} {s : Statement} : s.kind? = some type → type.isPlain = true →
      s.node = n.id → Fits n type (.plain s)
  | call {site : CallSite} : site.node = n.id → site.name = n.definedName →
      Fits n .call (.call site)
  | branch {cond : FieldValue} : Fits n .branch (.branch cond)
  | switch {subject : String} {type : ValueType} {values : List String} :
      n.list "cases" = .ok values → Fits n .switch (.switch subject type values)
  | forLoop {init : String} {cond step : FieldValue} {declares : Bool}
      {counter : Option (String × ValueType)} :
      Fits n .forLoop (.forLoop init cond step declares counter)
  | whileLoop {cond : FieldValue} : Fits n .whileLoop (.whileLoop cond)
  | function {params : List Param} : Fits n .function (.function n.definedName params)
  | classDef : Fits n .classDef (.classDef n.definedName)

namespace Heading

/-- The heading that is read fits the block of the node. -/
theorem read_fits {symbols : Symbols} {n : Node} {type : BlockType} {h : Heading}
    (hr : read symbols n type = .ok h) : h.Fits n type := by
  cases type with
  | declare =>
    obtain ⟨type, -, hr⟩ := bind_eq_ok.mp hr
    obtain ⟨name, -, hr⟩ := bind_eq_ok.mp hr
    cases hr
    exact .declare rfl
  | update => cases hr; exact .plain rfl rfl rfl
  | array =>
    obtain ⟨elements, -, hr⟩ := bind_eq_ok.mp hr
    obtain ⟨type, -, hr⟩ := bind_eq_ok.mp hr
    cases hr
    exact .plain rfl rfl rfl
  | print => cases hr; exact .plain rfl rfl rfl
  | create =>
    obtain ⟨args, -, hr⟩ := bind_eq_ok.mp hr
    cases hr
    exact .plain rfl rfl rfl
  | call =>
    obtain ⟨args, -, hr⟩ := bind_eq_ok.mp hr
    cases hr
    exact .call rfl rfl
  | branch => cases hr; exact .branch
  | switch =>
    obtain ⟨subject, -, hr⟩ := bind_eq_ok.mp hr
    obtain ⟨values, hvalues, hr⟩ := bind_eq_ok.mp hr
    cases hr
    exact .switch hvalues
  | forLoop =>
    obtain ⟨init, -, hr⟩ := bind_eq_ok.mp hr
    cases hr
    exact .forLoop
  | whileLoop => cases hr; exact .whileLoop
  | function =>
    obtain ⟨text, -, hr⟩ := bind_eq_ok.mp hr
    cases hp : Param.parseList text with
    | ok params =>
      rw [hp] at hr
      cases hr
      exact .function
    | error e =>
      rw [hp] at hr
      cases hr
  | classDef => cases hr; exact .classDef

variable {n : Node} {type : BlockType} {h : Heading}

/-- A plain statement has nothing inside of it. -/
theorem walk_plain {s : Statement} (hkind : s.kind? = some type) (hplain : type.isPlain = true) :
    s.walk = [s] := by
  rcases BlockType.isPlain_iff.mp hplain with rfl | rfl | rfl | rfl <;>
    cases s <;> cases hkind <;> rfl

/-- A heading says as its node does whether its blocks are in a class. -/
theorem Fits.innerClass_eq (hf : h.Fits n type) (hb : n.block? = some type) (inClass : Bool) :
    h.innerClass inClass = n.innerClass inClass := by
  rw [Node.innerClass, hb]
  cases hf with
  | plain _ hplain _ =>
    rcases BlockType.isPlain_iff.mp hplain with rfl | rfl | rfl | rfl <;> rfl
  | _ => rfl

/-- The part of a node belongs to the node. -/
theorem Fits.node_part (hf : h.Fits n type) (blocks : List (List Part)) :
    (h.part n.id blocks).node = n.id := by
  cases hf with
  | declare hnode => exact hnode
  | plain _ _ hnode => exact hnode
  | _ => rfl

/-- The part of a node is of the node's kind. -/
theorem Fits.kind_part (hf : h.Fits n type) (blocks : List (List Part)) :
    (h.part n.id blocks).kind? = some type := by
  cases hf with
  | plain hkind _ _ => exact hkind
  | _ => rfl

end Heading

/-! ## Parts in their places -/

/-- The kinds of nodes that may stand in the body of a class. -/
def BlockType.isMember : BlockType → Bool
  | .declare | .function => true
  | _ => false

namespace Part

def isStatement : Part → Bool
  | .statement _ => true
  | _ => false

/-- May the part stand in the body of a class? -/
def isMember : Part → Bool
  | .statement (.declare _) | .function _ => true
  | _ => false

/-- A part of a block or, if `inClass` is true, of the body of a class. -/
def Fits (inClass : Bool) (q : Part) : Prop :=
  if inClass then q.isMember = true else q.isStatement = true

/-- A part and all parts inside of it, depth first. -/
def walk : Part → List Part
  | .statement s => s.walk.map .statement
  | .function f => f.walk
  | .classDef c => c.walk

end Part

/-- A member of a class as a part of a program. -/
def Member.part : Member → Part
  | .field d => .statement (.declare d)
  | .method f => .function f
  | .stray s => .statement s

/-- The node that a member was built from. -/
def Member.node (m : Member) : String := m.part.node

theorem Member.walk_eq (m : Member) : m.walk = m.part.walk := by
  cases m <;> rfl

theorem Block.walk_eq : ∀ (b : Block),
    (Block.walk b).map .statement = (b.map Part.statement).flatMap Part.walk
  | [] => rfl
  | s :: rest => by
    rw [Block.walk, List.map_append, Block.walk_eq rest]
    rfl

theorem Block.walkCases_eq : ∀ (cases : List (String × Block)),
    (Block.walkCases cases).map .statement =
      ((cases.flatMap Prod.snd).map Part.statement).flatMap Part.walk
  | [] => rfl
  | (_, b) :: rest => by
    rw [Block.walkCases, List.map_append, Block.walk_eq, Block.walkCases_eq rest,
      List.flatMap_cons, List.map_append, List.flatMap_append]

namespace Heading

variable {n : Node} {type : BlockType} {h : Heading}

/-- A part may stand in a class body if its node may. -/
theorem Fits.isMember_part (hf : h.Fits n type) (blocks : List (List Part)) :
    (h.part n.id blocks).isMember = type.isMember := by
  cases hf with
  | @plain _ s hkind _ _ => cases s <;> cases hkind <;> rfl
  | _ => rfl

/-- A part is a statement unless its node defines something. -/
theorem Fits.isStatement_part (hf : h.Fits n type) (blocks : List (List Part)) :
    (h.part n.id blocks).isStatement = !type.isDefinition := by
  cases hf with
  | plain _ hplain _ =>
    rcases BlockType.isPlain_iff.mp hplain with rfl | rfl | rfl | rfl <;> rfl
  | _ => rfl

/-! ## Blocks and class bodies lose nothing -/

/-- A block takes all of the parts if they are statements. -/
theorem map_statement_block : ∀ {parts : List Part}, (∀ q ∈ parts, q.Fits false) →
    (block parts).map Part.statement = parts
  | [], _ => rfl
  | q :: rest, h => by
    have ih := map_statement_block fun r hr => h r (List.mem_cons_of_mem _ hr)
    cases q with
    | statement s => exact congrArg (Part.statement s :: ·) ih
    | function f => exact absurd (h _ List.mem_cons_self) (by simp [Part.Fits, Part.isStatement])
    | classDef c => exact absurd (h _ List.mem_cons_self) (by simp [Part.Fits, Part.isStatement])

/-- A class body takes all of the parts if they may stand there. -/
theorem map_part_members : ∀ {parts : List Part}, (∀ q ∈ parts, q.Fits true) →
    (members parts).map Member.part = parts
  | [], _ => rfl
  | q :: rest, h => by
    have ih := map_part_members fun r hr => h r (List.mem_cons_of_mem _ hr)
    have hq := h q List.mem_cons_self
    simp only [Part.Fits, if_true] at hq
    unfold Part.isMember at hq
    split at hq
    next d => exact congrArg (Part.statement (.declare d) :: ·) ih
    next f => exact congrArg (Part.function f :: ·) ih
    next => cases hq

theorem map_node_block {parts : List Part} (h : ∀ q ∈ parts, q.Fits false) :
    (block parts).map Statement.node = parts.map Part.node := by
  calc (block parts).map Statement.node
    _ = ((block parts).map Part.statement).map Part.node := by rw [List.map_map]; rfl
    _ = parts.map Part.node := by rw [map_statement_block h]

theorem map_node_members {parts : List Part} (h : ∀ q ∈ parts, q.Fits true) :
    (members parts).map Member.node = parts.map Part.node := by
  calc (members parts).map Member.node
    _ = ((members parts).map Member.part).map Part.node := by rw [List.map_map]; rfl
    _ = parts.map Part.node := by rw [map_part_members h]

/-- Walking a block goes through all of its parts. -/
theorem walk_block {parts : List Part} (h : ∀ q ∈ parts, q.Fits false) :
    (Block.walk (block parts)).map .statement = parts.flatMap Part.walk := by
  rw [Block.walk_eq, map_statement_block h]

theorem walk_members {parts : List Part} (h : ∀ q ∈ parts, q.Fits true) :
    (members parts).flatMap Member.walk = parts.flatMap Part.walk := by
  have hwalk : (members parts).flatMap Member.walk =
      ((members parts).map Member.part).flatMap Part.walk := by
    rw [List.flatMap_map]
    exact congrArg (List.flatMap · _) (funext Member.walk_eq)
  rw [hwalk, map_part_members h]

/-- The cases of a switch, where the last block is the default. -/
theorem zip_cases {values : List String} {blocks : List (List Part)} {last : List Part}
    (hlen : blocks.length = values.length) :
    values.zip ((blocks ++ [last]).map block) = values.zip (blocks.map block) := by
  have hzip : (values ++ []).zip (blocks.map block ++ [block last]) =
      values.zip (blocks.map block) ++ [].zip [block last] :=
    List.zip_append (by rw [List.length_map, hlen])
  rw [List.append_nil, List.zip_nil_left, List.append_nil] at hzip
  rw [List.map_append]
  exact hzip

/-- Walking the cases of a switch goes through all of their parts. -/
theorem walk_cases {values : List String} {blocks : List (List Part)}
    (hlen : blocks.length = values.length) (h : ∀ block ∈ blocks, ∀ q ∈ block, q.Fits false) :
    (Block.walkCases (values.zip (blocks.map block))).map .statement =
      blocks.flatten.flatMap Part.walk := by
  have hsnd : (values.zip (blocks.map block)).flatMap Prod.snd = (blocks.map block).flatten := by
    rw [List.flatMap_def, List.map_snd_zip (by simp [hlen])]
  rw [Block.walkCases_eq, hsnd, List.map_flatten, List.map_map]
  congr 2
  exact (List.map_congr_left fun parts hp => map_statement_block (h parts hp)).trans (List.map_id _)

/-- **A part is walked through by starting with it and going on behind its exits.** -/
theorem Fits.walk_part (hf : h.Fits n type) (hb : n.block? = some type) {inClass : Bool}
    (hclass : inClass = true → type.isMember = true) {blocks : List (List Part)}
    (hlen : blocks.length = n.slotRoles.length)
    (hblocks : ∀ block ∈ blocks, ∀ q ∈ block, q.Fits (n.innerClass inClass)) :
    (h.part n.id blocks).walk = h.part n.id blocks :: blocks.flatten.flatMap Part.walk := by
  rw [Node.innerClass, hb] at hblocks
  -- a block of a node that is no member is no class body, so its parts are statements
  cases hf with
  | declare _ | call _ =>
    rw [Node.slotRoles, hb] at hlen
    obtain rfl := List.length_eq_zero_iff.mp hlen
    rfl
  | plain hkind hplain _ =>
    have hnone : n.slotRoles = [] := by
      rw [Node.slotRoles, hb]
      rcases BlockType.isPlain_iff.mp hplain with rfl | rfl | rfl | rfl <;> rfl
    rw [hnone] at hlen
    obtain rfl := List.length_eq_zero_iff.mp hlen
    rw [part, Part.walk, walk_plain hkind hplain]
    rfl
  | branch =>
    obtain rfl : inClass = false := by simpa [BlockType.isMember] using hclass
    rw [Node.slotRoles, hb] at hlen
    obtain ⟨yes, no, rfl⟩ := List.length_eq_two.mp hlen
    have hyes := walk_block (hblocks yes (by simp))
    have hno := walk_block (hblocks no (by simp))
    rw [part, Part.walk, Statement.walk, List.map_cons, List.map_append]
    simp [hyes, hno]
  | switch hvalues =>
    obtain rfl : inClass = false := by simpa [BlockType.isMember] using hclass
    rw [Node.slotRoles_switch hb hvalues] at hlen
    obtain rfl | ⟨cases, last, rfl⟩ := List.eq_nil_or_concat blocks
    · simp at hlen
    rw [List.concat_eq_append] at hlen hblocks ⊢
    rename_i values
    -- there is one block for every value, and one more
    have hcases : cases.length = values.length := by simpa using hlen
    have hwalk := walk_cases hcases fun block hblock => hblocks block (by simp [hblock])
    have hlast := walk_block (hblocks last (by simp))
    rw [part, zip_cases hcases, Part.walk, Statement.walk, List.map_cons, List.map_append, hwalk]
    simp [← hcases, hlast]
  | forLoop | whileLoop =>
    obtain rfl : inClass = false := by simpa [BlockType.isMember] using hclass
    rw [Node.slotRoles, hb] at hlen
    obtain ⟨body, rfl⟩ := List.length_eq_one_iff.mp hlen
    have hbody := walk_block (hblocks body (by simp))
    rw [part, Part.walk, Statement.walk, List.map_cons]
    simp [hbody]
  | function =>
    rw [Node.slotRoles, hb] at hlen
    obtain ⟨body, rfl⟩ := List.length_eq_one_iff.mp hlen
    have hbody := walk_block (hblocks body (by simp))
    rw [part, Part.walk, FunctionDef.walk]
    simp [hbody]
  | classDef =>
    rw [Node.slotRoles, hb] at hlen
    obtain ⟨body, rfl⟩ := List.length_eq_one_iff.mp hlen
    have hbody := walk_members (hblocks body (by simp))
    rw [part, Part.walk, ClassDef.walk]
    simp [hbody]

end Heading

/-! ## The headings of a valid graph -/

namespace Graph.Valid

variable {g : Graph}

/-- Every field of a node in a valid graph is a text. -/
theorem text_of_field (hv : g.Valid) {n : Node} (hn : n ∈ g.nodes) {type : BlockType}
    (hb : n.block? = some type) (field : String) (hfield : field ∈ type.fields.map FieldSpec.name) :
    ∃ s, n.given field = .text s := by
  obtain ⟨spec, hspec, rfl⟩ := List.mem_map.mp hfield
  exact hv.exists_text hn hb hspec

/-- Every list of a node in a valid graph can be read. -/
theorem exists_list (hv : g.Valid) {n : Node} (hn : n ∈ g.nodes) {type : BlockType}
    (hb : n.block? = some type) (field : String) (hfield : field ∈ type.fields.map FieldSpec.name) :
    ∃ items, n.list field = .ok items := by
  obtain ⟨s, hs⟩ := hv.text_of_field hn hb field hfield
  exact ⟨Expression.splitList s, by rw [Node.list, hs]; rfl⟩

theorem exists_declaredType (hv : g.Valid) {n : Node} (hn : n ∈ g.nodes) {type : BlockType}
    (hb : n.block? = some type) (hfield : "dataType" ∈ type.fields.map FieldSpec.name) :
    ∃ declared, Heading.declaredType? n = .ok declared := by
  obtain ⟨s, hs⟩ := hv.text_of_field hn hb "dataType" hfield
  have hkey : (n.given "dataType").key = .ok s := by rw [hs]; rfl
  exact ⟨_, bind_eq_ok.mpr ⟨s, hkey, rfl⟩⟩

/-- Every node of a valid graph has a heading, whatever names are visible. -/
theorem exists_read (hv : g.Valid) {n : Node} (hn : n ∈ g.nodes) {type : BlockType}
    (hb : n.block? = some type) (symbols : Symbols) : ∃ h, Heading.read symbols n type = .ok h := by
  cases type with
  | branch => exact ⟨_, rfl⟩
  | whileLoop => exact ⟨_, rfl⟩
  | classDef => exact ⟨_, rfl⟩
  | update => exact ⟨_, rfl⟩
  | print => exact ⟨_, rfl⟩
  | create =>
    obtain ⟨args, hargs⟩ := hv.exists_list hn hb "args" (by decide)
    exact ⟨_, bind_eq_ok.mpr ⟨args, hargs, rfl⟩⟩
  | call =>
    obtain ⟨args, hargs⟩ := hv.exists_list hn hb "args" (by decide)
    exact ⟨_, bind_eq_ok.mpr ⟨args, hargs, rfl⟩⟩
  | switch =>
    obtain ⟨subject, hsubject⟩ := hv.text_of_field hn hb "subject" (by decide)
    obtain ⟨values, hvalues⟩ := hv.exists_list hn hb "cases" (by decide)
    have hsearched : (n.given "subject").searched = .ok subject := by rw [hsubject]; rfl
    exact ⟨_, bind_eq_ok.mpr ⟨subject, hsearched, bind_eq_ok.mpr ⟨values, hvalues, rfl⟩⟩⟩
  | forLoop =>
    obtain ⟨init, hinit⟩ := hv.text_of_field hn hb "init" (by decide)
    exact ⟨_, bind_eq_ok.mpr ⟨init, by rw [hinit]; rfl, rfl⟩⟩
  | function =>
    obtain ⟨s, params, hs, hparams⟩ := hv.exists_params hn hb
    refine ⟨.function n.definedName params, bind_eq_ok.mpr ⟨s, by rw [hs]; rfl, ?_⟩⟩
    rw [hparams]
    rfl
  | declare =>
    obtain ⟨name, hname⟩ := hv.text_of_field hn hb "name" (by decide)
    obtain ⟨declared, hdeclared⟩ := hv.exists_declaredType hn hb (by decide)
    obtain ⟨value, hvalue⟩ := hv.text_of_field hn hb "value" (by decide)
    have htype : ∃ type, Heading.valueType symbols n (n.given "value") = .ok type := by
      cases declared with
      | some type => exact ⟨type, bind_eq_ok.mpr ⟨_, hdeclared, rfl⟩⟩
      | none =>
        have hsearched : (n.given "value").searched = .ok value := by rw [hvalue]; rfl
        exact ⟨_, bind_eq_ok.mpr ⟨_, hdeclared, bind_eq_ok.mpr ⟨value, hsearched, rfl⟩⟩⟩
    obtain ⟨type, htype⟩ := htype
    have hkey : (n.given "name").key = .ok name := by rw [hname]; rfl
    exact ⟨_, bind_eq_ok.mpr ⟨type, htype, bind_eq_ok.mpr ⟨name, hkey, rfl⟩⟩⟩
  | array =>
    obtain ⟨values, hvalues⟩ := hv.exists_list hn hb "values" (by decide)
    obtain ⟨declared, hdeclared⟩ := hv.exists_declaredType hn hb (by decide)
    exact ⟨_, bind_eq_ok.mpr ⟨values, hvalues, bind_eq_ok.mpr ⟨declared, hdeclared, rfl⟩⟩⟩

/-- The same while a program is put together. -/
theorem exists_heading (hv : g.Valid) {n : Node} (hn : n ∈ g.nodes) (a : Assembly) :
    ∃ h, a.heading n = .ok h := by
  obtain ⟨type, hb⟩ := hv.exists_block hn
  obtain ⟨h, hread⟩ := hv.exists_read hn hb a.symbols
  refine ⟨h, ?_⟩
  unfold Assembly.heading
  simp only [hb, hread]

end Graph.Valid

end Blockflow
