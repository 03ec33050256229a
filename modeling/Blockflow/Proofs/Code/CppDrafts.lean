import Blockflow.Proofs.Code.Balance
import Blockflow.Proofs.Code.Interleaving

/-!
# Drafts of C++ code

A draft of a program says of each line which statement it is the text of, if it is the text of one,
and what it is put together from: texts, and names of types with the places where they are named
(`Braced.Scrap`). Written, a draft gives the lines of the program. The statements that its lines are
the texts of are those of one line, each once and in order, and the types that are named in it can
be read off the program (`Braced.Draft.program_drafts`).
-/

namespace Blockflow.Braced

open Expression

/-- Where a statement of a C++ program stands. Nothing depends on whether it is in a class. -/
abbrev cppSite (inClass : Bool) : Site := { dialect := .cpp, inClass }

/-- Where the definitions of a C++ program stand. -/
abbrev cpp : Site := cppSite false

/-- A piece of a line. -/
inductive Scrap where
  | text (text : String)
  /-- a type that is named -/
  | type (place : TypePlace) (type : ValueType)

namespace Scrap

def write : Scrap → String
  | .text s => s
  | .type place t => typeName .cpp place t

/-- The type that is named. -/
def type? : Scrap → Option (TypePlace × ValueType)
  | .text _ => none
  | .type place t => some (place, t)

end Scrap

structure DraftLine where
  level : Nat
  /-- the statement that it is the text of -/
  source : Option Statement
  scraps : List Scrap

namespace DraftLine

def text (l : DraftLine) : String := String.join (l.scraps.map Scrap.write)

def write (l : DraftLine) : Line := ⟨l.level, l.text⟩

/-- The types that are named in the line. -/
def types (l : DraftLine) : List (TypePlace × ValueType) := l.scraps.filterMap Scrap.type?

def deeper (l : DraftLine) : DraftLine := { l with level := l.level + 1 }

end DraftLine

namespace Draft

/-! ## Drafting a program -/

/-- A line that is not the text of a statement. -/
def line (scraps : List Scrap) : DraftLine := ⟨0, none, scraps⟩

/-- A line in which no type is named. -/
def plain (text : String) : DraftLine := line [.text text]

/-- A header and the lines of its block. -/
def part (header : String) (body : List DraftLine) : List DraftLine :=
  plain (header ++ " \x7b") :: body.map DraftLine.deeper

def braced (header : List Scrap) (body : List DraftLine) : List DraftLine :=
  line (header ++ [.text " \x7b"]) :: body.map DraftLine.deeper ++ [plain "\x7d"]

def leaf? : Statement → Option (List Scrap)
  | .declare d => some [.type .localVar d.type,
      .text (" " ++ d.name ++ " = " ++ cpp.expr d.value.shown ++ ";")]
  | .array name elements type _ => some [.text "std::vector<", .type .element type,
      .text ("> " ++ name.shown ++ " = \x7b" ++ cpp.args elements ++ "\x7d;")]
  | s => (cpp.leaf? s).map fun text => [.text text]

/-- The type in the initialiser of a loop. The declared type is kept when its name is not a known
one. -/
def initType (i : LoopInit) : Scrap :=
  let inferred := Scrap.type .localVar (infer [] i.value)
  match i.declared with
  | none => inferred
  | some name =>
    match ValueType.ofDeclared? name with
    | some type => .type .localVar type
    | none => if ["var", "auto", "let"].contains name then inferred else .text name

def init (first : String) (declares : Bool) : List Scrap :=
  match LoopInit.parse? first with
  | none => [.text (cpp.expr first)]
  | some i =>
    let assignment := i.name ++ " = " ++ cpp.expr i.value
    if !declares then [.text assignment] else [initType i, .text (" " ++ assignment)]

def loopHeader (first cond step : String) (declares : Bool) : List Scrap :=
  .text "for (" :: (init first declares ++
    [.text ("; " ++ cpp.expr cond ++ "; " ++ cpp.expr step ++ ")")])

def caseLines (label : String) (body : List DraftLine) : List DraftLine :=
  plain label :: (body ++ [plain "break;"]).map DraftLine.deeper

def writer : Writer DraftLine where
  leaf s := (leaf? s).toList.map fun scraps => ⟨0, some s, scraps⟩
  first test := part ("if (" ++ cpp.testText test ++ ")")
  next test := part ("\x7d " ++ ("else if (" ++ cpp.testText test ++ ")"))
  final := part ("\x7d " ++ "else")
  closing := [plain "\x7d"]
  labels type values := !cpp.switchAsChain type values
  labelled subject := braced [.text ("switch (" ++ cpp.expr subject ++ ")")]
  label value? := caseLines (cpp.labelText value?)
  forLoop init cond step declares _ := braced (loopHeader init cond step declares)
  whileLoop cond := braced [.text ("while (" ++ cpp.expr cond ++ ")")]

def block : List Statement → List DraftLine := writer.block

/-- Variables with their types, and commas between them. -/
def typedNames (place : TypePlace) (vars : List (ValueType × String)) : List Scrap :=
  [.text ", "].intercalate (vars.map fun v => [.type place v.1, .text (" " ++ v.2)])

def signature (f : FunctionDef) : List Scrap :=
  .text ("void " ++ f.name ++ "(") ::
    (typedNames .param (f.params.map fun p => (p.type, p.name)) ++ [.text ")"])

def function (f : FunctionDef) : List DraftLine := braced (signature f) (block f.body)

def field (d : Declaration) : DraftLine :=
  line [.type .field d.type, .text (" " ++ d.name ++ " = " ++ cpp.expr d.value.shown ++ ";")]

def constructors (c : ClassDef) : List DraftLine :=
  let inits := commaList (c.fields.map fun d => d.name ++ "(" ++ d.name ++ ")")
  [plain (c.name ++ "() \x7b\x7d"),
   line (.text (c.name ++ "(") :: (typedNames .field (c.fields.map fun d => (d.type, d.name)) ++
     [.text (") : " ++ inits ++ " \x7b\x7d")]))]

def classBody (c : ClassDef) : List DraftLine :=
  c.fields.map field ++ (if c.hasConstructor then plain "" :: constructors c else []) ++
    (if c.fields.isEmpty || c.methods.isEmpty then [] else [plain ""]) ++
    [plain ""].intercalate (c.methods.map function)

def classDef (c : ClassDef) : List DraftLine :=
  [plain ("class " ++ c.name ++ " \x7b"), plain "public:"] ++
    (classBody c).map DraftLine.deeper ++ [plain "\x7d;"]

/-- The lines before the definitions. -/
def head (p : Program) : List DraftLine :=
  (includes p).map (fun h => plain ("#include <" ++ h ++ ">")) ++ [plain ""]

def prototypes (p : Program) : List DraftLine :=
  if 1 < p.functions.length || (!p.functions.isEmpty && !p.classes.isEmpty) then
    p.functions.map (fun f => line (signature f ++ [.text ";"])) ++ [plain ""]
  else []

def definitions (groups : List (List DraftLine)) : List DraftLine :=
  groups.flatMap (· ++ [plain ""])

def program (p : Program) : List DraftLine :=
  head p ++ prototypes p ++ definitions (p.classes.map classDef) ++
    definitions (p.functions.map function) ++
    braced [.text "int main()"] (block p.main ++ [plain "return 0;"])

end Draft

/-! ## What a draft says -/

/-- A draft of these lines, which are the texts of these statements apart from lines that are the
text of none. These types are named in it. -/
structure Drafts (draft : List DraftLine) (lines : List Line) (sources : List Statement)
    (types : List (TypePlace × ValueType)) : Prop where
  written : draft.map DraftLine.write = lines
  sourced : draft.filterMap DraftLine.source = sources
  texts : ∀ l ∈ draft, ∀ s ∈ l.source, cpp.leaf? s = some l.text
  named : draft.flatMap DraftLine.types = types

theorem join_text (text : String) : String.join ([Scrap.text text].map Scrap.write) = text := by
  simp [Scrap.write]

theorem types_concat_text (scraps : List Scrap) (text : String) :
    (scraps ++ [Scrap.text text]).filterMap Scrap.type? = scraps.filterMap Scrap.type? := by
  simp [Scrap.type?]

namespace Drafts

variable {draft draft' : List DraftLine} {lines lines' : List Line}
  {sources sources' : List Statement}
  {types types' : List (TypePlace × ValueType)} {text : String} {scraps : List Scrap}

theorem nil : Drafts [] [] [] [] := ⟨rfl, rfl, List.forall_mem_nil _, rfl⟩

/-- Drafts below each other draft the lines below each other. -/
theorem append (h : Drafts draft lines sources types) (h' : Drafts draft' lines' sources' types') :
    Drafts (draft ++ draft') (lines ++ lines') (sources ++ sources') (types ++ types') where
  written := by rw [List.map_append, h.written, h'.written]
  sourced := by rw [List.filterMap_append, h.sourced, h'.sourced]
  texts := List.forall_mem_append.mpr ⟨h.texts, h'.texts⟩
  named := by rw [List.flatMap_append, h.named, h'.named]

/-- A draft one level deeper drafts the lines one level deeper. -/
theorem deeper (h : Drafts draft lines sources types) :
    Drafts (draft.map DraftLine.deeper) (deepen lines) sources types where
  written := by
    rw [← h.written, deepen, List.map_map, List.map_map]
    rfl
  sourced := by
    rw [List.filterMap_map]
    exact h.sourced
  texts := List.forall_mem_map.mpr h.texts
  named := by
    rw [List.flatMap_map]
    exact h.named

theorem line (h : String.join (scraps.map Scrap.write) = text) :
    Drafts [Draft.line scraps] [Line.flush text] [] (scraps.filterMap Scrap.type?) where
  written := by
    rw [← h]
    rfl
  sourced := rfl
  texts := List.forall_mem_singleton.mpr fun _ hs => by cases hs
  named := List.flatMap_singleton _ _

theorem plain (text : String) : Drafts [Draft.plain text] [Line.flush text] [] [] :=
  line (join_text text)

/-- One more line behind. -/
theorem concat (h : Drafts draft lines sources types) (text : String) :
    Drafts (draft ++ [Draft.plain text]) (lines ++ [Line.flush text]) sources types := by
  simpa using h.append (plain text)

/-- Drafts of a list of things draft the lines of all of them. -/
theorem flatMap {α : Type} {xs : List α} {f : α → List DraftLine} {lines : α → List Line}
    {sources : α → List Statement} {types : α → List (TypePlace × ValueType)}
    (h : ∀ x ∈ xs, Drafts (f x) (lines x) (sources x) (types x)) :
    Drafts (xs.flatMap f) (xs.flatMap lines) (xs.flatMap sources) (xs.flatMap types) := by
  induction xs with
  | nil => exact nil
  | cons x rest ih =>
    obtain ⟨hx, hrest⟩ := List.forall_mem_cons.mp h
    exact hx.append (ih hrest)

/-- Lines that are the texts of no statements. -/
theorem map {α : Type} {xs : List α} {f : α → DraftLine} {line : α → Line}
    {types : α → List (TypePlace × ValueType)} (h : ∀ x ∈ xs, Drafts [f x] [line x] [] (types x)) :
    Drafts (xs.map f) (xs.map line) [] (xs.flatMap types) := by
  induction xs with
  | nil => exact nil
  | cons x rest ih =>
    obtain ⟨hx, hrest⟩ := List.forall_mem_cons.mp h
    exact hx.append (ih hrest)

/-- A draft in braces drafts the lines in braces, and the header may name types. -/
theorem braced {header : List Scrap} (hheader : String.join (header.map Scrap.write) = text)
    (h : Drafts draft lines sources types) :
    Drafts (Draft.braced header draft) (Braced.braced .cpp text lines) sources
      (header.filterMap Scrap.type? ++ types) := by
  have hopening : Drafts [Draft.line (header ++ [.text " \x7b"])] [Line.flush (text ++ " \x7b")] []
      (header.filterMap Scrap.type?) := by
    rw [← types_concat_text header " \x7b"]
    exact line (by simp [hheader, Scrap.write])
  exact (hopening.append h.deeper).concat "\x7d"

end Drafts

/-! ## Blocks -/

/-- The types that are named in the lines of statements themselves. -/
def typePieces : Writer.Pieces (TypePlace × ValueType) where
  leaf
    | .declare d => [(.localVar, d.type)]
    | .array _ _ type _ => [(.element, type)]
    | _ => []
  test _ := []
  forLoop init _ _ declares := (Draft.init init declares).filterMap Scrap.type?
  whileLoop _ := []

/-- The types that are named in a block. -/
def blockTypes (b : Block) : List (TypePlace × ValueType) :=
  (Draft.block b).flatMap DraftLine.types

namespace Draft

variable {inClass : Bool}

theorem leaf?_cppSite (s : Statement) : (cppSite inClass).leaf? s = cpp.leaf? s := by
  cases s <;> rfl

/-- The scraps of a statement of one line give its text. -/
theorem leaf?_write (s : Statement) :
    (leaf? s).map (fun scraps => String.join (scraps.map Scrap.write)) = cpp.leaf? s := by
  cases s with
  | declare d => simp [leaf?, Site.leaf?, Site.typeName, Scrap.write, String.append_assoc]
  | array name elements type node =>
    simp [leaf?, Site.leaf?, Site.arrayText, Site.typeName, Scrap.write, String.append_assoc]
  | _ => simp [leaf?, Site.leaf?, Scrap.write]

/-- The types named in a statement of one line are the ones counted for it. -/
theorem leaf?_types {s : Statement} {scraps : List Scrap} (h : leaf? s = some scraps) :
    scraps.filterMap Scrap.type? = typePieces.leaf s := by
  cases s <;> cases h <;> rfl

/-- The line of a statement. -/
theorem leaf_drafts {s : Statement} (h : s.blocks = []) :
    Drafts ((leaf? s).toList.map fun scraps => ⟨0, some s, scraps⟩)
      (((cppSite inClass).leaf? s).toList.map Line.flush) s.leaves (typePieces.leaf s) := by
  rw [leaf?_cppSite]
  cases hscraps : leaf? s with
  | none =>
    cases s with
    | foreign construct => exact .nil
    | branch | forLoop | whileLoop => cases h
    | switch => simp [Statement.blocks] at h
    | _ => cases hscraps
  | some scraps =>
    have hwrite := leaf?_write s
    rw [hscraps, Option.map_some] at hwrite
    have hleaf : s.isLeaf = true := by cases s <;> first | rfl | cases hscraps
    rw [← hwrite, Statement.leaves_of_isLeaf hleaf, ← leaf?_types hscraps]
    exact ⟨rfl, rfl, List.forall_mem_singleton.mpr fun t ht => by cases ht; exact hwrite.symm,
      List.flatMap_singleton _ _⟩

/-- The scraps of an initialiser give its text. -/
theorem init_write (first : String) (declares : Bool) :
    String.join ((init first declares).map Scrap.write) = cpp.initText first declares := by
  unfold init Site.initText
  cases LoopInit.parse? first with
  | none => simp [Scrap.write]
  | some i =>
    cases declares with
    | false => simp [Scrap.write]
    | true =>
      obtain ⟨declared, name, value⟩ := i
      cases declared with
      | none => simp [initType, Scrap.write, Site.typeName, String.append_assoc]
      | some word =>
        cases htype : ValueType.ofDeclared? word with
        | some type => simp [initType, htype, Scrap.write, Site.typeName, String.append_assoc]
        | none =>
          cases hinferred : ["var", "auto", "let"].contains word <;>
            simp [initType, htype, hinferred, Scrap.write, Site.typeName, String.append_assoc,
              -List.contains_eq_mem, -List.contains_cons]

/-- The scraps of a loop header give its text. -/
theorem loopHeader_write (first cond step : String) (declares : Bool) :
    String.join ((loopHeader first cond step declares).map Scrap.write) =
      cpp.loopHeader first cond step declares := by
  rw [loopHeader, Site.loopHeader, ← init_write]
  simp [Scrap.write, String.append_assoc]

theorem loopHeader_types (first cond step : String) (declares : Bool) :
    (loopHeader first cond step declares).filterMap Scrap.type? =
      (init first declares).filterMap Scrap.type? := by
  rw [loopHeader, List.filterMap_cons_none rfl, types_concat_text]

section

variable {draft : List DraftLine} {lines : List Line} {sources : List Statement}
  {types : List (TypePlace × ValueType)}

/-- A header with a block drafts its lines, without the closing brace. -/
theorem part_drafts {header : String} (h : Drafts draft lines sources types) :
    Drafts (part header draft) (Line.flush (header ++ " \x7b") :: deepen lines) sources types :=
  (Drafts.plain _).append h.deeper

theorem caseLines_drafts {label : String} (h : Drafts draft lines sources types) :
    Drafts (caseLines label draft) (Site.caseLines label lines) sources types :=
  (Drafts.plain label).append (h.concat "break;").deeper

end

/-- The drafts of the writer are drafts of the lines. -/
theorem writer_drafts (inClass : Bool) :
    writer.Related (Braced.writer (cppSite inClass)) (fun _ => True)
      fun _ _ leaves draft lines => ∃ types, Drafts draft lines leaves types where
  nil _ := ⟨_, .nil⟩
  append := fun ⟨_, h⟩ ⟨_, h'⟩ => ⟨_, h.append h'⟩
  leaf _ hblocks := ⟨_, leaf_drafts hblocks⟩
  first _ _ := fun ⟨_, h⟩ => ⟨_, part_drafts h⟩
  next _ _ := fun ⟨_, h⟩ => ⟨_, part_drafts h⟩
  final _ _ := fun ⟨_, h⟩ => ⟨_, part_drafts h⟩
  closing _ _ := ⟨_, .plain "\x7d"⟩
  labels := rfl
  labelled _ _ := fun ⟨_, h⟩ => ⟨_, h.braced (join_text _)⟩
  label _ _ _ := fun ⟨_, h⟩ => ⟨_, caseLines_drafts h⟩
  forLoop _ := fun ⟨_, h⟩ => ⟨_, h.braced (loopHeader_write ..)⟩
  whileLoop _ := fun ⟨_, h⟩ => ⟨_, h.braced (join_text _)⟩

/-- **The draft of a block** gives its lines. -/
theorem block_drafts (inClass : Bool) (b : Block) :
    Drafts (block b) (Braced.block (cppSite inClass) b) b.leaves (blockTypes b) := by
  obtain ⟨types, h⟩ := (writer_drafts inClass).block fun s (_ : s ∈ Block.walk b) => trivial
  exact ⟨h.written, h.sourced, h.texts, rfl⟩

/-- The types that are named in the drafts are the collected ones. -/
theorem writer_named :
    writer.Related (Writer.collect typePieces fun type values => !cpp.switchAsChain type values)
      (fun _ => True)
      fun _ _ _ draft types => ∃ lines sources, Drafts draft lines sources types where
  nil _ := ⟨_, _, .nil⟩
  append := fun ⟨_, _, h⟩ ⟨_, _, h'⟩ => ⟨_, _, h.append h'⟩
  leaf _ hblocks := ⟨_, _, @leaf_drafts false _ hblocks⟩
  first _ _ := fun ⟨_, _, h⟩ => ⟨_, _, part_drafts h⟩
  next _ _ := fun ⟨_, _, h⟩ => ⟨_, _, part_drafts h⟩
  final _ _ := fun ⟨_, _, h⟩ => ⟨_, _, part_drafts h⟩
  closing _ _ := ⟨_, _, .plain "\x7d"⟩
  labels := rfl
  labelled _ _ := fun ⟨_, _, h⟩ => ⟨_, _, h.braced (join_text _)⟩
  label _ _ _ := fun ⟨_, _, h⟩ => ⟨_, _, caseLines_drafts h⟩
  forLoop _ := fun ⟨_, _, h⟩ =>
    ⟨_, _, loopHeader_types .. ▸ h.braced (loopHeader_write ..)⟩
  whileLoop _ := fun ⟨_, _, h⟩ => ⟨_, _, h.braced (join_text _)⟩

/-- The types counted for a block are those of its statements. -/
theorem mem_blockTypes {b : Block} {named : TypePlace × ValueType} :
    named ∈ blockTypes b ↔ ∃ s ∈ Block.walk b, named ∈ typePieces.ofStatement s := by
  obtain ⟨lines, sources, h⟩ := writer_named.block fun s (_ : s ∈ Block.walk b) => trivial
  rw [← Writer.mem_collect_iff (fun _ _ _ _ => rfl) b, ← h.named]
  rfl

/-! ## Definitions -/

/-- The scraps of typed names give their list with commas. -/
theorem typedNames_write (place : TypePlace) : ∀ vars : List (ValueType × String),
    String.join ((typedNames place vars).map Scrap.write) =
      commaList (vars.map fun v => typeName .cpp place v.1 ++ " " ++ v.2)
  | [] => rfl
  | [v] => by simp [typedNames, commaList, Scrap.write, String.append_assoc]
  | v :: w :: rest => by
    have hrest := typedNames_write place (w :: rest)
    rw [typedNames, List.map_cons] at hrest
    rw [typedNames, List.map_cons, List.map_cons, List.intercalate_cons_cons, List.map_append,
      String.join_append, hrest]
    simp [commaList, Scrap.write, String.append_assoc]

/-- The types named in such a list are those of the names. -/
theorem typedNames_types (place : TypePlace) : ∀ vars : List (ValueType × String),
    (typedNames place vars).filterMap Scrap.type? = vars.map fun v => (place, v.1)
  | [] => rfl
  | [v] => rfl
  | v :: w :: rest => by
    have hrest := typedNames_types place (w :: rest)
    rw [typedNames, List.map_cons] at hrest
    rw [typedNames, List.map_cons, List.map_cons, List.intercalate_cons_cons, List.filterMap_append,
      hrest]
    rfl

/-- The scraps of a signature give its text. -/
theorem signature_write (f : FunctionDef) :
    String.join ((signature f).map Scrap.write) = Braced.signature cpp f := by
  have hparams : String.join ((typedNames .param (f.params.map fun p => (p.type, p.name))).map
      Scrap.write) = paramList cpp f.params := by
    rw [typedNames_write, List.map_map]
    rfl
  rw [signature, List.map_cons, List.map_append, String.join_cons, String.join_append, hparams]
  simp [Braced.signature, Scrap.write, String.append_assoc]

/-- Drafts with empty lines between them draft the spaced lines. -/
theorem spaced_drafts {α : Type} {f : α → List DraftLine} {lines : α → List Line}
    {sources : α → List Statement} {types : α → List (TypePlace × ValueType)} : ∀ {xs : List α},
    (∀ x ∈ xs, Drafts (f x) (lines x) (sources x) (types x)) →
      Drafts ([plain ""].intercalate (xs.map f)) (spaced (xs.map lines)) (xs.flatMap sources)
        (xs.flatMap types)
  | [], _ => .nil
  | [x], h => by
    have hx := h x List.mem_cons_self
    simpa [spaced] using hx
  | x :: y :: rest, h => by
    obtain ⟨hx, hrest⟩ := List.forall_mem_cons.mp h
    rw [List.map_cons, List.map_cons, List.intercalate_cons_cons, List.append_assoc]
    exact hx.append ((Drafts.plain "").append (spaced_drafts hrest))

theorem definitions_drafts {α : Type} {f : α → List DraftLine} {lines : α → List Line}
    {sources : α → List Statement} {types : α → List (TypePlace × ValueType)} {xs : List α}
    (h : ∀ x ∈ xs, Drafts (f x) (lines x) (sources x) (types x)) :
    Drafts (definitions (xs.map f)) (Braced.definitions (xs.map lines)) (xs.flatMap sources)
      (xs.flatMap types) := by
  rw [definitions, Braced.definitions, List.flatMap_map, List.flatMap_map]
  exact .flatMap fun x hx => (h x hx).concat ""

end Draft

/-- The types of the parameters of a function. -/
def paramTypes (f : FunctionDef) : List (TypePlace × ValueType) :=
  f.params.map fun p => (.param, p.type)

/-- The types that are named in a function. -/
def functionTypes (f : FunctionDef) : List (TypePlace × ValueType) :=
  paramTypes f ++ blockTypes f.body

/-- The types of the fields of a class. -/
def fieldTypes (c : ClassDef) : List (TypePlace × ValueType) :=
  c.fields.map fun d => (.field, d.type)

/-- The types that are named in a class. The constructor names those of the fields again. -/
def classTypes (c : ClassDef) : List (TypePlace × ValueType) :=
  fieldTypes c ++ (if c.hasConstructor then fieldTypes c else []) ++ c.methods.flatMap functionTypes

/-- The types that are named before the definitions. -/
def prototypeTypes (p : Program) : List (TypePlace × ValueType) :=
  if 1 < p.functions.length || (!p.functions.isEmpty && !p.classes.isEmpty) then
    p.functions.flatMap paramTypes
  else []

/-- The types that are named in a program. -/
def programTypes (p : Program) : List (TypePlace × ValueType) :=
  prototypeTypes p ++ p.classes.flatMap classTypes ++ p.functions.flatMap functionTypes ++
    blockTypes p.main

/-- The statements of one line in a program, in the order in which they are written. -/
def programLeaves (p : Program) : List Statement :=
  (p.classes.flatMap fun c => c.methods.flatMap fun f => Block.leaves f.body) ++
    (p.functions.flatMap fun f => Block.leaves f.body) ++ Block.leaves p.main

/-- The statements of one line in a program are those of its bodies. -/
theorem mem_programLeaves {p : Program} {s : Statement} : s ∈ programLeaves p ↔
    s.isLeaf = true ∧ ∃ params body, p.HasBody params body ∧ s ∈ Block.walk body := by
  simp only [programLeaves, Block.leaves, List.mem_append, List.mem_flatMap, List.mem_filter]
  constructor
  · rintro ((⟨c, hc, f, hf, hs, hleaf⟩ | ⟨f, hf, hs, hleaf⟩) | ⟨hs, hleaf⟩)
    · exact ⟨hleaf, _, _, .method hc hf, hs⟩
    · exact ⟨hleaf, _, _, .function hf, hs⟩
    · exact ⟨hleaf, _, _, .main, hs⟩
  · rintro ⟨hleaf, params, body, hbody, hs⟩
    cases hbody with
    | main => exact Or.inr ⟨hs, hleaf⟩
    | function hf => exact Or.inl (Or.inr ⟨_, hf, hs, hleaf⟩)
    | method hc hf => exact Or.inl (Or.inl ⟨_, hc, _, hf, hs, hleaf⟩)

namespace Draft

theorem signature_types (f : FunctionDef) : (signature f).filterMap Scrap.type? = paramTypes f := by
  rw [signature, List.filterMap_cons_none rfl, types_concat_text, typedNames_types, List.map_map]
  rfl

/-- The draft of a function drafts its lines, from the statements of its body. -/
theorem function_drafts (inClass : Bool) (f : FunctionDef) : Drafts (function f)
    (Braced.function (cppSite inClass) "" f) (Block.leaves f.body) (functionTypes f) := by
  rw [functionTypes, ← signature_types]
  exact (block_drafts inClass f.body).braced (signature_write f)

theorem field_drafts (d : Declaration) :
    Drafts [field d] [fieldLine cpp "" d] [] [(.field, d.type)] :=
  .line (by simp [Scrap.write, Site.typeName, String.append_assoc, modified])

/-- The draft of the constructors drafts their lines, which hold no statement. -/
theorem constructors_drafts (c : ClassDef) :
    Drafts (constructors c) (Braced.constructors cpp "" c) [] (fieldTypes c) := by
  have hparams :
      (typedNames .field (c.fields.map fun d => (d.type, d.name))).filterMap Scrap.type? =
        fieldTypes c := by
    rw [typedNames_types, List.map_map]
    rfl
  have hfields : String.join ((typedNames .field (c.fields.map fun d => (d.type, d.name))).map
      Scrap.write) = fieldParams cpp c := by
    rw [typedNames_write, List.map_map]
    rfl
  rw [← hparams, ← types_concat_text]
  refine (Drafts.plain _).append (Drafts.line ?_)
  rw [List.map_cons, List.map_append, String.join_cons, String.join_append, hfields]
  simp [Scrap.write, String.append_assoc]

/-- The draft of the inside of a class drafts its lines. -/
theorem classBody_drafts (c : ClassDef) : Drafts (classBody c) (Braced.classBody cpp "" "" c)
    (c.methods.flatMap fun f => Block.leaves f.body) (classTypes c) := by
  have hfields :
      Drafts (c.fields.map field) (c.fields.map (fieldLine cpp "")) [] (fieldTypes c) := by
    have htypes : fieldTypes c = c.fields.flatMap fun d => [(.field, d.type)] := List.map_eq_flatMap
    rw [htypes]
    exact .map fun d _ => field_drafts d
  have hctors : Drafts (if c.hasConstructor then plain "" :: constructors c else [])
      (if c.hasConstructor then Line.blank :: Braced.constructors cpp "" c else []) []
      (if c.hasConstructor then fieldTypes c else []) := by
    split
    next => exact (Drafts.plain "").append (constructors_drafts c)
    next => exact .nil
  have hseparator : Drafts (if c.fields.isEmpty || c.methods.isEmpty then [] else [plain ""])
      (if c.fields.isEmpty || c.methods.isEmpty then [] else [Line.blank]) [] [] := by
    split
    next => exact .nil
    next => exact .plain ""
  have hmethods := hseparator.append
    (spaced_drafts fun f (_ : f ∈ c.methods) => function_drafts true f)
  simp only [classBody, Braced.classBody, classTypes, List.isEmpty_map, List.append_assoc]
  exact hfields.append (hctors.append hmethods)

/-- The draft of a class drafts its lines. -/
theorem classDef_drafts (c : ClassDef) : Drafts (classDef c) (Braced.classDef cpp c)
    (c.methods.flatMap fun f => Block.leaves f.body) (classTypes c) :=
  (((Drafts.plain _).append (.plain _)).append (classBody_drafts c).deeper).concat "\x7d;"

theorem head_drafts (p : Program) : Drafts (head p)
    ((includes p).map (fun h => Line.flush ("#include <" ++ h ++ ">")) ++ [Line.blank]) [] [] := by
  have hincludes : Drafts ((includes p).map fun h => plain ("#include <" ++ h ++ ">"))
      ((includes p).map fun h => Line.flush ("#include <" ++ h ++ ">")) []
      ((includes p).flatMap fun _ => []) := .map fun _ _ => .plain _
  rw [List.flatMap_eq_nil_iff.mpr fun _ _ => rfl] at hincludes
  exact hincludes.concat ""

/-- The draft of the prototypes drafts their lines. -/
theorem prototypes_drafts (p : Program) :
    Drafts (prototypes p) (Braced.prototypes cpp p) [] (prototypeTypes p) := by
  unfold prototypes Braced.prototypes prototypeTypes
  split
  next =>
    refine (Drafts.map fun f _ => ?_).concat ""
    rw [← signature_types, ← types_concat_text _ ";"]
    exact .line (by simp [signature_write, Scrap.write])
  next => exact .nil

/-- **The draft of a program** gives its lines in C++. Every statement of one line has a line that
is its text, and no other lines are the text of a statement. -/
theorem program_drafts (p : Program) :
    Drafts (program p) (p.lines .cpp) (programLeaves p) (programTypes p) := by
  have hhead := (head_drafts p).append (prototypes_drafts p)
  have hclasses := hhead.append (definitions_drafts fun c (_ : c ∈ p.classes) => classDef_drafts c)
  have hfunctions := hclasses.append
    (definitions_drafts fun f (_ : f ∈ p.functions) => function_drafts false f)
  exact hfunctions.append (((block_drafts false p.main).concat "return 0;").braced (join_text _))

/-- A statement of one line in a body has a line that is its text. -/
theorem exists_line {p : Program} {params : List String} {body : Block} {s : Statement}
    (hbody : p.HasBody params body) (hs : s ∈ Block.walk body) (hleaf : s.isLeaf = true) :
    ∃ l ∈ program p, l.source = some s ∧ cpp.leaf? s = some l.text := by
  have hmem : s ∈ (program p).filterMap DraftLine.source := by
    rw [(program_drafts p).sourced, mem_programLeaves]
    exact ⟨hleaf, params, body, hbody, hs⟩
  obtain ⟨l, hl, hsource⟩ := List.mem_filterMap.mp hmem
  exact ⟨l, hl, hsource, (program_drafts p).texts l hl s hsource⟩

end Draft

end Blockflow.Braced
