import Blockflow.Proofs.Program.Blocks
import Blockflow.Proofs.Program.Supply

/-!
# The scope of loop variables

A loop header such as `i = 0` declares its variable unless the variable is known where the loop
stands. What is known is kept in one table while a program is put together, and the table is handed
on from block to block: names that are declared in a block stay in it when the block is closed. So a
loop does without a declaration not only if its variable is visible, but also if it was declared in
a block that has been closed in the meantime (`Graph.forLoop_declares_iff`). Only the variable of a
loop leaves the table with the loop.

A `Scope` keeps the two apart: the names that are visible by the rules of blocks, and the names that
are left over from closed blocks.
-/

namespace Blockflow

open Expression

/-! ## Names that statements declare -/

namespace Statement

/-- The name that a statement declares for the rest of its block. -/
def declared : Statement → List String
  | .declare d => [d.name]
  | _ => []

/-- The variable that a loop declares for its body. -/
def loopNames : Statement → List String
  | .forLoop init _ _ true _ _ => ((LoopInit.parse? init).map LoopInit.name).toList
  | _ => []

/-- The initialiser of a loop, and whether the loop declares its variable. -/
def loop? : Statement → Option (String × Bool)
  | .forLoop init _ _ declares _ _ => some (init, declares)
  | _ => none

end Statement

mutual

/-- The names that are left over from the blocks inside of a statement. A loop takes its own
variable with it. -/
def Statement.leftovers : Statement → List String
  | .branch _ yes no _ => Block.declarations yes ++ Block.declarations no
  | .switch _ _ cases default _ => Block.caseDeclarations cases ++ Block.declarations default
  | s@(.forLoop _ _ _ _ body _) => (Block.declarations body).filter (!s.loopNames.contains ·)
  | .whileLoop _ body _ => Block.declarations body
  | _ => []

/-- The names that are declared in a block, at any depth, apart from loop variables. -/
def Block.declarations : List Statement → List String
  | [] => []
  | s :: rest => s.declared ++ s.leftovers ++ Block.declarations rest

def Block.caseDeclarations : List (String × List Statement) → List String
  | [] => []
  | (_, block) :: rest => Block.declarations block ++ Block.caseDeclarations rest

end

theorem Block.caseDeclarations_eq : ∀ (cases : List (String × Block)),
    Block.caseDeclarations cases = (cases.map Prod.snd).flatMap Block.declarations
  | [] => rfl
  | (_, block) :: rest => by
    rw [caseDeclarations, caseDeclarations_eq rest]
    rfl

/-- The names left over from a statement are those declared inside, without its loop variable. -/
theorem Statement.mem_leftovers {s : Statement} {name : String} :
    name ∈ s.leftovers ↔ name ∈ s.blocks.flatMap Block.declarations ∧ name ∉ s.loopNames := by
  cases s with
  | forLoop init cond step declares body node => simp [leftovers, blocks]
  | branch cond yes no node => simp [leftovers, blocks, loopNames]
  | switch subject type cases default node =>
    simp [leftovers, blocks, loopNames, Block.caseDeclarations_eq]
  | whileLoop cond body node => simp [leftovers, blocks, loopNames]
  | _ => simp [leftovers, blocks]

/-! ## Scopes -/

/-- What is known at a place of a program: the names that are visible there, and the names that were
declared in blocks that are closed. -/
structure Scope where
  visible : List String
  leftover : List String := []

namespace Scope

variable {σ : Scope}

/-- The name is known, rightly or not. -/
def Knows (σ : Scope) (name : String) : Prop := name ∈ σ.visible ∨ name ∈ σ.leftover

/-- The scope behind a statement of a block. -/
def after (σ : Scope) (s : Statement) : Scope :=
  ⟨s.declared ++ σ.visible, s.leftovers ++ σ.leftover⟩

/-- The scope behind a block. -/
def afterBlock (σ : Scope) : Block → Scope
  | [] => σ
  | s :: rest => (σ.after s).afterBlock rest

/-- The scope in which the first block inside of a statement starts. -/
def opening (σ : Scope) (s : Statement) : Scope := ⟨s.loopNames ++ σ.visible, σ.leftover⟩

/-- The scope after blocks were closed one after the other. -/
def closing (σ : Scope) : List Block → Scope
  | [] => σ
  | block :: rest => closing ⟨σ.visible, Block.declarations block ++ σ.leftover⟩ rest

/-- Behind a statement, the names that it declares or leaves over are known as well. -/
theorem knows_after {s : Statement} {name : String} :
    (σ.after s).Knows name ↔ name ∈ s.declared ∨ name ∈ s.leftovers ∨ σ.Knows name := by
  simp only [Knows, after, List.mem_append]
  tauto

/-- Behind a block, the names that it declares are known as well. -/
theorem knows_afterBlock {name : String} : ∀ {block : Block} {σ : Scope},
    (σ.afterBlock block).Knows name ↔ name ∈ Block.declarations block ∨ σ.Knows name
  | [], σ => by simp [afterBlock, Block.declarations]
  | s :: rest, σ => by
    rw [afterBlock, knows_afterBlock, knows_after]
    simp only [Block.declarations, List.mem_append]
    tauto

theorem knows_opening {s : Statement} {name : String} :
    (σ.opening s).Knows name ↔ name ∈ s.loopNames ∨ σ.Knows name := by
  simp [Knows, opening, or_assoc]

/-- Blocks that are closed leave their names known. -/
theorem knows_closing {name : String} : ∀ {blocks : List Block} {σ : Scope},
    (σ.closing blocks).Knows name ↔ name ∈ blocks.flatMap Block.declarations ∨ σ.Knows name
  | [], σ => by simp [closing]
  | block :: rest, σ => by
    rw [closing, knows_closing]
    simp only [Knows, List.flatMap_cons, List.mem_append]
    tauto

/-- The table has the names that are known. -/
def Models (σ : Scope) (symbols : Symbols) : Prop :=
  ∀ name, symbols.has name = true ↔ σ.Knows name

end Scope

/-- A statement stands in a block. The first scope is the one at the start of the block, the second
the one at the statement. -/
inductive Block.Holds : Scope → Block → Scope → Statement → Prop where
  | here {σ : Scope} {s : Statement} {rest : Block} : Holds σ (s :: rest) σ s
  | later {σ τ : Scope} {s t : Statement} {rest : Block} :
      Holds (σ.after s) rest τ t → Holds σ (s :: rest) τ t
  | inside {σ τ : Scope} {s t : Statement} {rest block : Block} {before behind : List Block} :
      s.blocks = before ++ block :: behind → Holds ((σ.opening s).closing before) block τ t →
      Holds σ (s :: rest) τ t

/-- A loop with a variable declares it unless it is known. -/
def Statement.Heeds (τ : Scope) : Statement → Prop
  | .forLoop init _ _ declares _ _ =>
    ∀ i, LoopInit.parse? init = some i → (declares = false ↔ τ.Knows i.name)
  | _ => True

/-- All loops of a block that starts in this scope declare what is not known. -/
def Block.Heeds (σ : Scope) (block : Block) : Prop := ∀ τ t, Block.Holds σ block τ t → t.Heeds τ

namespace Block

theorem heeds_nil {σ : Scope} : Block.Heeds σ [] := by
  intro τ t h
  cases h

/-- A block heeds what is known if its first statement does, the blocks inside of it do and the rest
does. -/
theorem heeds_cons {σ : Scope} {s : Statement} {rest : Block} :
    Block.Heeds σ (s :: rest) ↔
      s.Heeds σ ∧
      (∀ before block behind, s.blocks = before ++ block :: behind →
        Block.Heeds ((σ.opening s).closing before) block) ∧
      Block.Heeds (σ.after s) rest := by
  constructor
  · intro h
    exact ⟨h σ s .here, fun _ _ _ hblocks τ t ht => h τ t (.inside hblocks ht),
      fun τ t ht => h τ t (.later ht)⟩
  · rintro ⟨hs, hinside, hrest⟩ τ t h
    cases h with
    | here => exact hs
    | later h => exact hrest τ t h
    | inside hblocks h => exact hinside _ _ _ hblocks τ t h

/-- A block can be followed by one that heeds what is known behind it. -/
theorem heeds_append : ∀ {block rest : Block} {σ : Scope}, Block.Heeds σ block →
    Block.Heeds (σ.afterBlock block) rest → Block.Heeds σ (block ++ rest)
  | [], _, _, _, hrest => hrest
  | s :: block, rest, σ, hblock, hrest => by
    obtain ⟨hs, hinside, hblock⟩ := heeds_cons.mp hblock
    exact heeds_cons.mpr ⟨hs, hinside, heeds_append hblock hrest⟩

end Block

/-- Every statement of a block stands somewhere in it. -/
theorem Block.exists_holds {b : Block} {t : Statement} (h : t ∈ Block.walk b) (σ : Scope) :
    ∃ τ, Block.Holds σ b τ t := by
  induction b using Block.nested_induction generalizing σ with
  | nil => cases h
  | cons s rest hblocks hrest =>
    rw [Block.walk, s.walk_eq, List.mem_append, List.mem_cons, List.mem_flatMap] at h
    rcases h with (rfl | ⟨block, hblock, h⟩) | h
    · exact ⟨σ, .here⟩
    · obtain ⟨before, behind, heq⟩ := List.append_of_mem hblock
      obtain ⟨τ, hτ⟩ := hblocks block hblock h ((σ.opening s).closing before)
      exact ⟨τ, .inside heq hτ⟩
    · obtain ⟨τ, hτ⟩ := hrest h (σ.after s)
      exact ⟨τ, .later hτ⟩

/-! ## Headings and the table of names -/

theorem Dict.has_put {α : Type} {d : Dict α} {key name : String} {value : α} :
    (d.put key value).has name = true ↔ name = key ∨ d.has name = true := by
  simp only [has, get?_put]
  by_cases hname : key = name
  · simp [hname]
  · simp [hname, Ne.symm hname]

theorem Dict.has_erase {α : Type} {d : Dict α} {key name : String} :
    (d.erase key).has name = true ↔ name ≠ key ∧ d.has name = true := by
  simp only [has, get?_erase]
  by_cases hname : key = name
  · simp [hname]
  · simp [hname, Ne.symm hname]

theorem Dict.has_params {name : String} : ∀ {params : List Param} {symbols : Symbols},
    (params.foldl (fun s p => s.put p.name p.type) symbols).has name = true ↔
      name ∈ params.map Param.name ∨ symbols.has name = true
  | [], _ => by simp
  | p :: rest, symbols => by
    rw [List.foldl_cons, has_params, has_put, List.map_cons, List.mem_cons]
    tauto

namespace Heading

variable {σ : Scope} {symbols last : Symbols} {n : Node} {type : BlockType} {h : Heading}
  {blocks : List (List Part)} {s : Statement}

/-- The blocks inside of a statement are those behind the exits of its node. -/
theorem Fits.blocks_part (hf : h.Fits n type) (hb : n.block? = some type)
    (hlen : blocks.length = n.slotRoles.length) (hs : h.part n.id blocks = .statement s) :
    s.blocks = blocks.map block := by
  cases hf with
  | declare _ | call _ =>
    rw [Node.slotRoles, hb] at hlen
    obtain rfl := List.length_eq_zero_iff.mp hlen
    cases hs
    rfl
  | plain hkind hplain _ =>
    have hnone : n.slotRoles = [] := by
      rw [Node.slotRoles, hb]
      rcases BlockType.isPlain_iff.mp hplain with rfl | rfl | rfl | rfl <;> rfl
    rw [hnone] at hlen
    obtain rfl := List.length_eq_zero_iff.mp hlen
    cases hs
    rcases BlockType.isPlain_iff.mp hplain with rfl | rfl | rfl | rfl <;>
      cases s <;> cases hkind <;> rfl
  | branch =>
    rw [Node.slotRoles, hb] at hlen
    obtain ⟨yes, no, rfl⟩ := List.length_eq_two.mp hlen
    cases hs
    rfl
  | switch hvalues =>
    rw [Node.slotRoles_switch hb hvalues] at hlen
    obtain rfl | ⟨cases, last, rfl⟩ := List.eq_nil_or_concat blocks
    · simp at hlen
    rw [List.concat_eq_append] at hlen hs ⊢
    rename_i values
    have hcases : cases.length = values.length := by simpa using hlen
    cases hs
    rw [Statement.blocks, zip_cases hcases, List.map_snd_zip (by simp [hcases])]
    simp [← hcases]
  | forLoop | whileLoop =>
    rw [Node.slotRoles, hb] at hlen
    obtain ⟨body, rfl⟩ := List.length_eq_one_iff.mp hlen
    cases hs
    rfl
  | function => cases hs
  | classDef => cases hs

/-- A loop that is read declares its variable if the table does not have it. -/
theorem read_forLoop {init : String} {cond step : FieldValue} {declares : Bool}
    {counter : Option (String × ValueType)}
    (hread : read symbols n type = .ok (.forLoop init cond step declares counter)) :
    counter = (LoopInit.parse? init).bind (counter? symbols) ∧
      declares = ((LoopInit.parse? init).isNone || counter.isSome) := by
  cases read_fits hread with
  | forLoop =>
    obtain ⟨init', -, hread⟩ := bind_eq_ok.mp hread
    cases hread
    exact ⟨rfl, rfl⟩

/-- A loop declares the variable that its heading carries. -/
theorem loopNames_part {init : String} {cond step : FieldValue} {declares : Bool}
    {counter : Option (String × ValueType)} {body : Block} {node : String}
    (hread : read symbols n type = .ok (.forLoop init cond step declares counter)) :
    (Statement.forLoop init cond step declares body node).loopNames =
      (counter.map Prod.fst).toList := by
  obtain ⟨hcounter, hdeclares⟩ := read_forLoop hread
  cases hparse : LoopInit.parse? init with
  | none =>
    rw [hparse] at hcounter hdeclares
    cases hcounter
    cases hdeclares
    simp [Statement.loopNames, hparse]
  | some i =>
    rw [hparse, Option.bind_some, counter?] at hcounter
    rw [hparse] at hdeclares
    split at hcounter
    next =>
      cases hcounter
      cases hdeclares
      rfl
    next =>
      cases hcounter
      cases hdeclares
      simp [Statement.loopNames, hparse]

/-- The variable that the heading of a loop carries was not known before. -/
theorem has_counter {init : String} {cond step : FieldValue} {declares : Bool} {name : String}
    {valueType : ValueType}
    (hread : read symbols n type =
      .ok (.forLoop init cond step declares (some (name, valueType)))) :
    symbols.has name = false := by
  obtain ⟨i, -, hi⟩ := Option.bind_eq_some_iff.mp (read_forLoop hread).1.symm
  unfold counter? at hi
  split at hi
  next => cases hi
  next hhas =>
    cases hi
    simpa using hhas

/-- A loop declares its variable if and only if the table does not have it. -/
theorem heeds_part (hread : read symbols n type = .ok h) (hs : h.part n.id blocks = .statement s)
    (hσ : σ.Models symbols) : s.Heeds σ := by
  cases s with
  | forLoop init cond step declares body node =>
    intro i hi
    cases read_fits hread with
    | plain hkind hplain _ =>
      cases hs
      cases hkind
      cases hplain
    | forLoop =>
      obtain ⟨hcounter, hdeclares⟩ := read_forLoop hread
      cases hs
      rw [hi, Option.bind_some, counter?] at hcounter
      rw [hi] at hdeclares
      rw [← hσ i.name]
      split at hcounter
      next hhas => simp [hdeclares, hcounter, hhas]
      next hhas => simp [hdeclares, hcounter, hhas]
    | _ => cases hs
  | _ => trivial

/-- The first block inside of a statement starts with the names that are known there. -/
theorem models_inner (hread : read symbols n type = .ok h)
    (hs : h.part n.id blocks = .statement s) (hσ : σ.Models symbols) :
    (σ.opening s).Models (h.inner symbols) := by
  intro name
  rw [Scope.knows_opening, ← hσ name]
  cases read_fits hread with
  | @forLoop init cond step declares counter =>
    cases hs
    rw [loopNames_part hread]
    cases counter with
    | none => simp [inner]
    | some counter => simp [inner, Dict.has_put]
  | plain hkind hplain _ =>
    cases hs
    rcases BlockType.isPlain_iff.mp hplain with rfl | rfl | rfl | rfl <;>
      cases s <;> cases hkind <;> simp [inner, Statement.loopNames]
  | function => cases hs
  | classDef => cases hs
  | _ =>
    cases hs
    simp [inner, Statement.loopNames]

/-- After a statement the table has what is known there: names that were declared inside of it stay
known, but for the variable of a loop. -/
theorem models_outer (hread : read symbols n type = .ok h)
    (hs : h.part n.id blocks = .statement s) (hσ : σ.Models symbols)
    (hlast : ((σ.opening s).closing s.blocks).Models last) :
    (σ.after s).Models (h.outer symbols last) := by
  intro name
  have hlast := hlast name
  rw [Scope.knows_closing, Scope.knows_opening, ← hσ name] at hlast
  rw [Scope.knows_after, Statement.mem_leftovers, ← hσ name]
  cases read_fits hread with
  | @forLoop init cond step declares counter =>
    cases hs
    rw [loopNames_part hread] at hlast ⊢
    cases counter with
    | none => simpa [outer, Statement.declared] using hlast
    | some counter =>
      obtain ⟨v, valueType⟩ := counter
      have hv : symbols.has name = true → name ≠ v := by
        rintro hname rfl
        rw [has_counter hread] at hname
        cases hname
      rw [outer, Dict.has_erase, hlast]
      simp only [Statement.declared, Option.map_some, Option.toList_some, List.mem_singleton,
        List.not_mem_nil, false_or]
      tauto
  | declare =>
    cases hs
    simp [outer, Statement.declared, Statement.blocks, Dict.has_put]
  | plain hkind hplain _ =>
    cases hs
    rcases BlockType.isPlain_iff.mp hplain with rfl | rfl | rfl | rfl <;> cases s <;>
      cases hkind <;>
      simpa [outer, Statement.declared, Statement.blocks, Statement.loopNames] using hlast
  | function => cases hs
  | classDef => cases hs
  | _ =>
    cases hs
    simpa [outer, Statement.declared, Statement.loopNames] using hlast

end Heading

/-! ## Assembling -/

/-- The loops of a function declare what is not known, where the parameters are visible. -/
def FunctionDef.Heeds (f : FunctionDef) : Prop := Block.Heeds ⟨f.params.map Param.name, []⟩ f.body

def ClassDef.Heeds (c : ClassDef) : Prop := ∀ f ∈ c.methods, f.Heeds

/-- The loops of a definition declare what is not known. -/
def Part.Heeds : Part → Prop
  | .statement _ => True
  | .function f => f.Heeds
  | .classDef c => c.Heeds

namespace Assembly

/-- The loops of all definitions that were taken out declare what is not known. -/
def Heeds (a : Assembly) : Prop := (∀ f ∈ a.functions, f.Heeds) ∧ ∀ c ∈ a.classes, c.Heeds

/-- While a chain is put together, the table has what is known, and loops are built accordingly. -/
structure Tracks (inClass : Bool) (a b : Assembly) (parts : List Part) : Prop where
  heeds : ∀ q ∈ parts, q.Heeds
  taken : a.Heeds → b.Heeds
  block : inClass = false → ∀ σ : Scope, σ.Models a.symbols →
    Block.Heeds σ (Heading.block parts) ∧ (σ.afterBlock (Heading.block parts)).Models b.symbols

/-- The same for the chains behind the exits of a node, one after the other. -/
structure TracksAll (inClass : Bool) (a b : Assembly) (blocks : List (List Part)) : Prop where
  heeds : ∀ block ∈ blocks, ∀ q ∈ block, q.Heeds
  taken : a.Heeds → b.Heeds
  blocks : inClass = false → ∀ σ : Scope, σ.Models a.symbols →
    (∀ before block behind, blocks.map Heading.block = before ++ block :: behind →
      Block.Heeds (σ.closing before) block) ∧
    (σ.closing (blocks.map Heading.block)).Models b.symbols

variable {inClass : Bool} {a b c : Assembly} {t : Tour}

theorem TracksAll.nil : TracksAll inClass a a [] where
  heeds _ h := absurd h List.not_mem_nil
  taken h := h
  blocks _ σ hσ := ⟨fun before block behind h => by simp at h, hσ⟩

/-- Chains that are put together one after the other keep track one after the other. -/
theorem TracksAll.cons {block : List Part} {blocks : List (List Part)}
    (h : Tracks inClass a b block) (hrest : TracksAll inClass b c blocks) :
    TracksAll inClass a c (block :: blocks) where
  heeds := List.forall_mem_cons.mpr ⟨h.heeds, hrest.heeds⟩
  taken ha := hrest.taken (h.taken ha)
  blocks hclass σ hσ := by
    obtain ⟨hblock, hafter⟩ := h.block hclass σ hσ
    -- behind the block and after it was closed, the same names are known
    have hclosed : (σ.closing [Heading.block block]).Models b.symbols := by
      intro name
      rw [hafter name, Scope.knows_afterBlock, Scope.knows_closing]
      simp
    obtain ⟨hblocks, hlast⟩ := hrest.blocks hclass _ hclosed
    refine ⟨fun before inner behind heq => ?_, hlast⟩
    cases before with
    | nil =>
      obtain ⟨rfl, -⟩ := List.cons.inj heq
      exact hblock
    | cons first before =>
      obtain ⟨rfl, hrest⟩ := List.cons.inj heq
      exact hblocks before inner behind hrest

theorem mem_methods_members {f : FunctionDef} {parts : List Part} {name node : String}
    (h : f ∈ ({ name, members := Heading.members parts, node } : ClassDef).methods) :
    Part.function f ∈ parts := by
  obtain ⟨m, hm, hf⟩ := List.mem_filterMap.mp h
  obtain ⟨q, hq, hmq⟩ := List.mem_filterMap.mp hm
  split at hf
  next =>
    cases hf
    split at hmq
    next => cases hmq
    next => cases hmq; exact hq
    next => cases hmq
  next => cases hf

/-- The definition that is built from chains in which loops are built accordingly. -/
theorem TracksAll.heeds_part {n : Node} {type : BlockType} {h : Heading}
    {blocks : List (List Part)} (hf : h.Fits n type) (hb : n.block? = some type)
    (hlen : blocks.length = n.slotRoles.length)
    (hblocks : TracksAll (n.innerClass inClass) { a with symbols := h.inner a.symbols } b blocks) :
    (h.part n.id blocks).Heeds := by
  cases hf with
  | @function params =>
    rw [Node.slotRoles, hb] at hlen
    obtain ⟨body, rfl⟩ := List.length_eq_one_iff.mp hlen
    have hparams : (Scope.mk (params.map Param.name) []).Models
        (params.foldl (fun s p => s.put p.name p.type) []) := by
      intro name
      rw [Dict.has_params]
      simp [Scope.Knows, Dict.has]
    have hclass : n.innerClass inClass = false := by rw [Node.innerClass, hb]
    exact (hblocks.blocks hclass _ hparams).1 [] _ [] rfl
  | classDef =>
    rw [Node.slotRoles, hb] at hlen
    obtain ⟨body, rfl⟩ := List.length_eq_one_iff.mp hlen
    intro f hmethod
    exact hblocks.heeds body List.mem_cons_self _ (mem_methods_members hmethod)
  | _ => trivial

theorem Tracks.nil : Tracks inClass a a [] where
  heeds _ h := absurd h List.not_mem_nil
  taken h := h
  block _ _ hσ := ⟨Block.heeds_nil, hσ⟩

/-- One step: a node, the chains behind its exits, and the rest of the chain. -/
theorem Tracks.step {n : Node} {h : Heading} {blocks : List (List Part)} {b₁ b₂ : Assembly}
    {here rest : List Part} (hheading : a.heading n = .ok h)
    (hlen : blocks.length = n.slotRoles.length)
    (hblocks : TracksAll (n.innerClass inClass) { a with symbols := h.inner a.symbols } b₁ blocks)
    (hplace : place inClass n.id (h.part n.id blocks)
      { b₁ with symbols := h.outer a.symbols b₁.symbols, calls := b₁.calls ++ h.calls } =
      .ok (here, b₂))
    (hrest : Tracks inClass b₂ b rest) : Tracks inClass a b (here ++ rest) := by
  obtain ⟨type, hb, hread⟩ := heading_eq_read hheading
  have hf := Heading.read_fits hread
  have hpart := hblocks.heeds_part hf hb hlen
  rcases place_eq_ok hplace with ⟨hfits, rfl, rfl⟩ | ⟨rfl, rfl, htaken⟩
  · refine ⟨List.forall_mem_cons.mpr ⟨hpart, hrest.heeds⟩,
      fun ha => hrest.taken (hblocks.taken ha), ?_⟩
    rintro rfl σ hσ
    cases hs : h.part n.id blocks with
    | statement s =>
      have hclass : n.innerClass false = false := by
        rw [← hf.innerClass_eq hb]
        cases h <;> first | rfl | cases hs
      have hopening := Heading.models_inner hread hs hσ
      obtain ⟨hinside, hlast⟩ := hblocks.blocks hclass _ hopening
      rw [← hf.blocks_part hb hlen hs] at hinside hlast
      have hafter := Heading.models_outer hread hs hσ hlast
      obtain ⟨hheeds, hmodels⟩ := hrest.block rfl _ hafter
      exact ⟨Block.heeds_cons.mpr ⟨Heading.heeds_part hread hs hσ, hinside, hheeds⟩, hmodels⟩
    | function f => rw [hs] at hfits; cases hfits
    | classDef c => rw [hs] at hfits; cases hfits
  · -- a definition is taken out, and the names are what they were before it
    have houter : h.outer a.symbols b₁.symbols = a.symbols := by
      rcases htaken with ⟨f, hs, -⟩ | ⟨c, hs, -⟩ <;> cases hf <;> first | rfl | cases hs
    have hheeds : a.Heeds → b₂.Heeds := by
      intro ha
      obtain ⟨hfunctions, hclasses⟩ := hblocks.taken ha
      rcases htaken with ⟨f, hs, -, rfl⟩ | ⟨c, hs, -, rfl⟩
      · rw [hs] at hpart
        exact ⟨List.forall_mem_append.mpr ⟨hfunctions, List.forall_mem_singleton.mpr hpart⟩,
          hclasses⟩
      · rw [hs] at hpart
        exact ⟨hfunctions,
          List.forall_mem_append.mpr ⟨hclasses, List.forall_mem_singleton.mpr hpart⟩⟩
    have hsymbols : b₂.symbols = a.symbols := by
      rcases htaken with ⟨f, -, -, rfl⟩ | ⟨c, -, -, rfl⟩ <;> exact houter
    refine ⟨hrest.heeds, fun ha => hrest.taken (hheeds ha), fun hclass σ hσ => ?_⟩
    exact hrest.block hclass σ (hsymbols ▸ hσ)

mutual

/-- **Loops of a chain are built according to what is known.** -/
theorem chain_tracks : ∀ {o : Outline} {p : Place} {start : Option String}, t.Sees p start o →
    ∀ {a b : Assembly} {parts : List Part}, chain p.inClass o a = .ok (parts, b) →
      Tracks p.inClass a b parts
  | .done, _, _, _, _, _, _, h => by
    rw [chain] at h
    cases h
    exact .nil
  | .fault _ _, _, _, _, _, _, _, h => by rw [chain] at h; cases h
  | .missing _, _, _, _, _, _, _, h => by rw [chain] at h; cases h
  | .step n slots next, _, none, hs, _, _, _, _ => by simp [Tour.Sees] at hs
  | .step n slots next, p, some start, hs, a, b, parts, h => by
    rw [Tour.Sees] at hs
    obtain ⟨heading, blocks, b₁, here, b₂, rest, hheading, hslots, hplace, hnext, rfl⟩ :=
      chain_step_iff.mp h
    obtain ⟨hfilled, -⟩ := chains_becomes hs.2.2.1 hslots
    have hlen : blocks.length = n.slotRoles.length := by
      rw [← hs.2.1, List.length_map, hfilled.length_eq]
    exact .step hheading hlen (chains_tracks hs.2.2.1 hslots) hplace (chain_tracks hs.2.2.2 hnext)

/-- Keeping track goes through the exits of a node. -/
theorem chains_tracks : ∀ {slots : List (Role × Outline)} {p : Place} {n : Node},
    t.SeesSlots p n slots → ∀ {a b : Assembly} {blocks : List (List Part)},
      chains (n.innerClass p.inClass) slots a = .ok (blocks, b) →
        TracksAll (n.innerClass p.inClass) a b blocks
  | [], _, _, _, _, _, _, h => by
    rw [chains] at h
    cases h
    exact .nil
  | (role, o) :: slots, p, n, hs, a, b, blocks, h => by
    rw [Tour.SeesSlots] at hs
    obtain ⟨block, b₁, rest, hchain, hrest, rfl⟩ := chains_cons_eq_ok h
    exact .cons (chain_tracks hs.2.1 hchain) (chains_tracks hs.2.2 hrest)

end

/-- Keeping track goes through the entry points. -/
theorem mainBlock_tracks {starts : List String} {os : List Outline}
    (hs : List.Forall₂ (fun start o => t.Sees {} (some start) o) starts os) :
    ∀ {a b : Assembly} {main : Block} {σ : Scope}, mainBlock os a = .ok (main, b) → a.Heeds →
      σ.Models a.symbols → b.Heeds ∧ Block.Heeds σ main := by
  induction hs with
  | nil =>
    intro a b main σ h ha hσ
    rw [mainBlock] at h
    cases h
    exact ⟨ha, Block.heeds_nil⟩
  | cons hsees _ ih =>
    intro a b main σ h ha hσ
    obtain ⟨parts, b₁, rest, hchain, hrest, rfl⟩ := mainBlock_cons_eq_ok h
    have htracks := chain_tracks hsees hchain
    obtain ⟨hheeds, hmodels⟩ := htracks.block rfl σ hσ
    obtain ⟨hb, hmain⟩ := ih hrest (htracks.taken ha) hmodels
    exact ⟨hb, Block.heeds_append hheeds hmain⟩

end Assembly

/-! ## Programs -/

/-- The types of parameters do not matter for what a function declares. -/
theorem FunctionDef.heeds_untyped (f : FunctionDef) : f.untyped.Heeds ↔ f.Heeds := by
  have hnames : f.untyped.params.map Param.name = f.params.map Param.name := by
    rw [untyped, List.map_map]
    rfl
  unfold Heeds
  rw [hnames]
  rfl

theorem ClassDef.methods_untyped (c : ClassDef) :
    c.untyped.methods = c.methods.map FunctionDef.untyped := by
  unfold methods untyped
  rw [List.filterMap_map, List.map_filterMap]
  congr 1
  funext m
  cases m <;> rfl

theorem ClassDef.heeds_untyped (c : ClassDef) : c.untyped.Heeds ↔ c.Heeds := by
  unfold Heeds
  rw [methods_untyped, List.forall_mem_map]
  exact forall₂_congr fun f _ => f.heeds_untyped

namespace Graph

variable {g : Graph} {p : Program} {main : Block} {a : Assembly}

/-- A program that was put together declares what is not known, in every definition and in the main
block. -/
theorem Supplies.heeds (h : g.Supplies main a) : a.Heeds ∧ Block.Heeds ⟨[], []⟩ main := by
  have hassemble : ∃ (g' : Graph) (limit : Int), g'.assemble limit = .ok (main, a) := by
    cases h with
    | own h => exact ⟨_, _, h⟩
    | entry _ _ h => exact ⟨_, _, h⟩
  obtain ⟨g', limit, h⟩ := hassemble
  obtain ⟨hmain, -⟩ := assemble_eq_ok.mp h
  refine Assembly.mainBlock_tracks (toured_of_assemble h).sees hmain ?_ ?_
  · exact ⟨fun _ hf => absurd hf List.not_mem_nil, fun _ hc => absurd hc List.not_mem_nil⟩
  · intro name
    simp [Scope.Knows, Dict.has]

/-- In every body of a program, loops declare what is not known. -/
theorem Builds.heeds (h : g.Builds p) {params : List String} {body : Block}
    (hbody : p.HasBody params body) : Block.Heeds ⟨params, []⟩ body := by
  cases hbody with
  | main =>
    obtain ⟨a, ha⟩ := h.exists_main
    exact ha.heeds.2
  | @function f hf =>
    exact h.forall_function FunctionDef.heeds_untyped (fun _ _ ha => ha.heeds.1.1) f hf
  | @method c f hc hf =>
    exact h.forall_class ClassDef.heeds_untyped (fun _ _ ha => ha.heeds.1.2) c hc f hf

/-- Every loop of a program stands in one of its bodies. -/
theorem Builds.exists_body (h : g.Builds p) (hv : g.Valid) {init : String} {cond step : FieldValue}
    {declares : Bool} {inner : Block} {node : String}
    (hs : .forLoop init cond step declares inner node ∈ p.statements) :
    ∃ params body, p.HasBody params body ∧
      .forLoop init cond step declares inner node ∈ Block.walk body :=
  Program.exists_hasBody (h.proper hv) hs fun _ heq => by cases heq

/-- **A loop does without a declaration if its variable is visible, or is left over from a closed
block.** Every loop of a program stands in the main block, in the body of a function or in the body
of a method. If its header names a variable, the loop declares it unless the variable is visible
there, as a parameter, by an earlier declaration in a block that is still open or as the variable of
an enclosing loop, or unless it was declared in a block that has been closed before. -/
theorem forLoop_declares_iff (hv : g.Valid) (hb : g.Builds p) {init : String}
    {cond step : FieldValue} {declares : Bool} {inner : Block} {node : String}
    (hs : .forLoop init cond step declares inner node ∈ p.statements) :
    (∃ params body τ, p.HasBody params body ∧
      Block.Holds ⟨params, []⟩ body τ (.forLoop init cond step declares inner node)) ∧
    ∀ params body τ, p.HasBody params body →
      Block.Holds ⟨params, []⟩ body τ (.forLoop init cond step declares inner node) →
      ∀ i, LoopInit.parse? init = some i →
        (declares = false ↔ i.name ∈ τ.visible ∨ i.name ∈ τ.leftover) := by
  constructor
  · obtain ⟨params, body, hbody, hwalk⟩ := hb.exists_body hv hs
    obtain ⟨τ, hτ⟩ := Block.exists_holds hwalk ⟨params, []⟩
    exact ⟨params, body, τ, hbody, hτ⟩
  · intro params body τ hbody hτ i hi
    exact hb.heeds hbody τ _ hτ i hi

/-- A variable that is declared in a branch, and a loop over it behind the branch. -/
def branched : Graph where
  nodes :=
    [{ id := "test", type := "if", data := [("condition", .text "x > 0")] },
     { id := "first", type := "assign", data := [("name", .text "i"), ("value", .text "0")] },
     { id := "loop", type := "for",
       data := [("init", .text "i = 0"), ("condition", .text "i < 3"), ("step", .text "i++")] }]
  edges :=
    [{ id := "e1", source := "test", target := "first", role := some .whenTrue },
     { id := "e2", source := "test", target := "loop", role := some .next }]
  nodup := by decide

theorem valid_branched : branched.Valid := by
  unfold Valid
  decide

/-- The program of `branched` is a branch with a declaration inside, and a loop that declares
nothing. -/
theorem exists_build_branched :
    ∃ b cond yes no node cond' step inner node', branched.build 100 [] = .ok b ∧
      b.program.main =
        [.branch cond yes no node, .forLoop "i = 0" cond' step false inner node'] := by
  obtain ⟨b, hb, hmain⟩ : ∃ b, branched.build 100 [] = .ok b ∧
      decide (b.program.main.map (fun s => (s.kind?, s.loop?)) =
        [(some .branch, none), (some .forLoop, some ("i = 0", false))]) = true :=
    exists_build_of_any (n := 1) (by decide +kernel)
  obtain ⟨s, rest, hmain, hs, hrest⟩ := List.map_eq_cons_iff.mp (of_decide_eq_true hmain)
  obtain ⟨t, rest, rfl, ht, hrest⟩ := List.map_eq_cons_iff.mp hrest
  obtain rfl := List.map_eq_nil_iff.mp hrest
  cases s with
  | branch cond yes no node =>
    cases t with
    | forLoop init cond' step declares inner node' =>
      cases ht
      exact ⟨b, cond, yes, no, node, cond', step, inner, node', hb, hmain⟩
    | _ => cases ht
  | _ => cases hs

theorem forLoop_declares_iff_branched :
    branched.Valid ∧ ∃ p cond step inner node, branched.Builds p ∧
      .forLoop "i = 0" cond step false inner node ∈ p.statements ∧
      ∃ params body τ, p.HasBody params body ∧
        Block.Holds ⟨params, []⟩ body τ (.forLoop "i = 0" cond step false inner node) ∧
        ("i" ∈ τ.visible ∨ "i" ∈ τ.leftover) := by
  obtain ⟨b, _, _, _, _, cond, step, inner, node, hb, hmain⟩ := exists_build_branched
  have hs : .forLoop "i = 0" cond step false inner node ∈ b.program.statements := by
    rw [Program.mem_statements, Program.walk, hmain]
    exact List.mem_append_right _ (by simp [Block.walk, Statement.walk])
  obtain ⟨⟨params, body, τ, hbody, hτ⟩, hiff⟩ := forLoop_declares_iff valid_branched (.linked hb) hs
  have hknown := (hiff params body τ hbody hτ ⟨none, "i", "0"⟩ (by decide)).mp rfl
  exact ⟨valid_branched, b.program, cond, step, inner, node, .linked hb, hs, params, body, τ,
    hbody, hτ, hknown⟩

/-- Loops need not declare variables that are not visible: here a declaration in a branch has the
effect that the loop behind the branch does not declare its variable. -/
theorem not_forall_declares_iff_visible :
    ¬ ∀ (g : Graph) (p : Program) (params : List String) (body : Block) (τ : Scope) (init : String)
        (cond step : FieldValue) (declares : Bool) (inner : Block) (node : String) (i : LoopInit),
      g.Valid → g.Builds p → p.HasBody params body →
      Block.Holds ⟨params, []⟩ body τ (.forLoop init cond step declares inner node) →
      LoopInit.parse? init = some i → (declares = false ↔ i.name ∈ τ.visible) := by
  intro h
  obtain ⟨b, _, _, _, _, cond, step, inner, node, hb, hmain⟩ := exists_build_branched
  have hbody : b.program.HasBody [] b.program.main := .main
  rw [hmain] at hbody
  have hvisible := h branched b.program [] _ _ "i = 0" cond step false inner node ⟨none, "i", "0"⟩
    valid_branched (.linked hb) hbody (.later .here) (by decide)
  exact absurd (hvisible.mp rfl) List.not_mem_nil

end Graph

end Blockflow
