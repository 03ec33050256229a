import Blockflow.Proofs.Code.Suites
import Blockflow.Proofs.Expression.Qualifying

/-!
# Drafts of indented code

A draft of a block says of each line what it is put together from: words of the language, names that
are bound there, expressions, targets of assignments, names of called functions and steps of loops
(`Indented.Scrap`). A draft does not depend on the fields of a class. Written with some fields, it
gives the lines that `Indented` gives with these fields (`Indented.Draft.block_write`). What holds
of all scraps of a draft holds of the scraps of each statement (`Indented.Draft.all_block`).
-/

namespace Blockflow.Indented

open Expression Token

/-- A piece of a line. -/
inductive Scrap where
  /-- words and signs of the language, and names of functions and classes -/
  | word (text : String)
  /-- a variable that gets its first value, or a parameter -/
  | binder (name : String)
  | expr (text : String)
  /-- the variable that an assignment changes -/
  | target (name : String)
  /-- the function that is called, with the object it belongs to -/
  | callee (name : String)
  /-- the step of a loop as a statement -/
  | step (text : String)

/-- The text of a scrap, where `fields` are the names that are qualified. -/
def Scrap.write (fields : List String) : Scrap → String
  | .word text | .binder text | .callee text => text
  | .expr text => Indented.expr fields text
  | .target name => if fields.contains name then "self." ++ name else name
  | .step text => LoopStep.statement text

structure DraftLine where
  level : Nat
  scraps : List Scrap

namespace Draft

def writeScraps (fields : List String) : List Scrap → String
  | [] => ""
  | s :: rest => s.write fields ++ writeScraps fields rest

def write (fields : List String) (l : DraftLine) : Line := ⟨l.level, writeScraps fields l.scraps⟩

def flush (scraps : List Scrap) : DraftLine := ⟨0, scraps⟩

def deeper (l : DraftLine) : DraftLine := ⟨l.level + 1, l.scraps⟩

/-! ## Drafting a block -/

/-- Scraps with a comma between two of them. -/
def commas : List Scrap → List Scrap
  | [] => []
  | [s] => [s]
  | s :: rest => s :: .word ", " :: commas rest

/-- The arguments of a call, or the elements of an array. -/
def args (texts : List String) : List Scrap := commas (texts.map .expr)

def leaf? : Statement → Option (List Scrap)
  | .declare d => some [.binder d.name, .word " = ", .expr d.value.shown]
  | .assign name value _ => some [.target name.shown, .word " = ", .expr value.shown]
  | .array name elements _ _ =>
    some (.binder name.shown :: .word " = [" :: (args elements ++ [.word "]"]))
  | .print value _ =>
    match splitConcat? value.shown with
    | none => some [.word "print(", .expr value.shown, .word ")"]
    | some parts => some (.word "print(" :: (args parts ++ [.word ", sep=\"\")"]))
  | .call name arguments _ => some (.callee name :: .word "(" :: (args arguments ++ [.word ")"]))
  | .create className name arguments _ =>
    some (.binder name.shown :: .word " = " :: .word className.shown :: .word "(" ::
      (args arguments ++ [.word ")"]))
  | _ => none

def suite (header : List Scrap) (block : List DraftLine) : List DraftLine :=
  flush (header ++ [.word ":"]) ::
    (if block.isEmpty then [flush [.word "pass"]] else block).map deeper

def rangeHeader (c : Counter) : List Scrap :=
  let bounds :=
    if c.amount ≠ 1 then [.expr c.start, .expr c.stop, .word (Json.intString c.amount)]
    else if spell .words c.start = "0" then [.expr c.stop]
    else [.expr c.start, .expr c.stop]
  .word "for " :: .binder c.name :: .word " in range(" :: (commas bounds ++ [.word ")"])

def initLines (init : String) : List DraftLine :=
  match LoopInit.parse? init with
  | some i => [flush [.binder i.name, .word " = ", .expr i.value]]
  | none => if isBlankText init then [] else [flush [.expr init]]

/-- The condition of a loop which does not count through a range. -/
def test (cond : String) : Scrap := if isBlankText cond then .word "True" else .expr cond

def plainLoop (init cond step : String) (emptyBody : Bool) (body : List DraftLine) :
    List DraftLine :=
  let last :=
    if !isBlankText step then [flush [.step step]]
    else if emptyBody then [flush [.word "pass"]]
    else []
  initLines init ++ flush [.word "while ", test cond, .word ":"] :: (body ++ last).map deeper

def loopDraft (init cond step : String) (emptyBody : Bool) (body : List DraftLine) :
    List DraftLine :=
  match Counter.parse init cond step with
  | .ok (some c) => suite (rangeHeader c) body
  | _ => plainLoop init cond step emptyBody body

/-- What is tested in a part of a chain. -/
def testScraps : Test → List Scrap
  | .holds cond => [.expr cond]
  | .equals subject value => [.expr subject, .word " == ", .expr value]

def writer : Writer DraftLine where
  leaf s := (leaf? s).toList.map flush
  first test := suite (.word "if " :: testScraps test)
  next test := suite (.word "elif " :: testScraps test)
  final := suite [.word "else"]
  closing := []
  labels _ _ := false
  labelled _ inner := inner
  label _ inner := inner
  forLoop init cond step _ emptyBody := loopDraft init cond step emptyBody
  whileLoop cond := suite [.word "while ", .expr cond]

def block : List Statement → List DraftLine := writer.block

/-- The draft of a method. The object that it belongs to is its first parameter. -/
def method (f : FunctionDef) : List DraftLine :=
  suite (.word "def " :: .word f.name :: .word "(" ::
    (commas (("self" :: f.params.map Param.name).map .binder) ++ [.word ")"])) (block f.body)

/-! ## Writing a draft -/

variable {fields : List String}

theorem writeScraps_append : ∀ (scraps more : List Scrap),
    writeScraps fields (scraps ++ more) = writeScraps fields scraps ++ writeScraps fields more
  | [], more => by simp [writeScraps]
  | s :: rest, more => by
    rw [List.cons_append, writeScraps, writeScraps_append rest more, writeScraps,
      String.append_assoc]

theorem writeScraps_singleton (s : Scrap) : writeScraps fields [s] = s.write fields := by
  simp [writeScraps]

/-- Scraps with commas are written as the list of their texts. -/
theorem writeScraps_commas : ∀ (scraps : List Scrap),
    writeScraps fields (commas scraps) = commaList (scraps.map (Scrap.write fields))
  | [] => rfl
  | [s] => by rw [commas, writeScraps_singleton]; exact (String.intercalate_singleton).symm
  | s :: t :: rest => by
    rw [commas, writeScraps, writeScraps, writeScraps_commas (t :: rest)]
    · simp only [commaList, List.map_cons]
      rw [String.intercalate_cons_cons, String.append_assoc]
      rfl
    · simp

theorem writeScraps_args (texts : List String) :
    writeScraps fields (args texts) = Indented.args fields texts := by
  rw [args, writeScraps_commas, List.map_map]
  rfl

/-- The scraps of a statement of one line give its line. -/
theorem leaf?_write (s : Statement) :
    (leaf? s).map (writeScraps fields) = Indented.leaf? fields s := by
  cases s with
  | print value node =>
    rw [leaf?, Indented.leaf?]
    cases splitConcat? value.shown with
    | none => simp [writeScraps, Scrap.write, String.append_assoc]
    | some parts =>
      simp [writeScraps, writeScraps_append, writeScraps_args, Scrap.write, String.append_assoc]
  | _ =>
    simp [leaf?, Indented.leaf?, writeScraps, writeScraps_append, writeScraps_args, Scrap.write,
      String.append_assoc]

theorem leafLines_write (s : Statement) :
    ((leaf? s).toList.map flush).map (write fields) =
      (Indented.leaf? fields s).toList.map Line.flush := by
  rw [← leaf?_write]
  cases leaf? s with
  | none => rfl
  | some scraps => rfl

theorem write_deeper (lines : List DraftLine) :
    (lines.map deeper).map (write fields) = deepen (lines.map (write fields)) := by
  rw [deepen, List.map_map, List.map_map]
  rfl

/-- A drafted suite is written as the suite of what is drafted inside. -/
theorem suite_write (header : List Scrap) (lines : List DraftLine) :
    (suite header lines).map (write fields) =
      Indented.suite (writeScraps fields header) (lines.map (write fields)) := by
  rw [suite, Indented.suite, List.map_cons, write_deeper, List.isEmpty_map]
  have hheader : write fields (flush (header ++ [.word ":"])) =
      Line.flush (writeScraps fields header ++ ":") := by
    rw [write, flush, writeScraps_append, writeScraps_singleton]
    rfl
  rw [hheader]
  split
  next => rfl
  next => rfl

/-- The scraps of a counted loop give its header. -/
theorem rangeHeader_write (c : Counter) :
    writeScraps fields (rangeHeader c) = Indented.rangeHeader fields c := by
  have hzero : Indented.expr fields c.start = "0" ↔ spell .words c.start = "0" :=
    qualify_eq_zero_iff
  rw [rangeHeader, Indented.rangeHeader]
  simp only [writeScraps, writeScraps_append, writeScraps_commas, hzero, String.append_assoc]
  split
  next => simp [Scrap.write]
  next => split <;> simp [Scrap.write]

theorem initLines_write (init : String) :
    (initLines init).map (write fields) = Indented.initLines fields init := by
  rw [initLines, Indented.initLines]
  cases LoopInit.parse? init with
  | some i => simp [write, flush, writeScraps, Scrap.write, Line.flush, String.append_assoc]
  | none =>
    cases isBlankText init with
    | true => rfl
    | false => simp [write, flush, writeScraps_singleton, Scrap.write, Line.flush]

theorem test_write (cond : String) :
    (test cond).write fields = if isBlankText cond then "True" else Indented.expr fields cond := by
  rw [test]
  split <;> rfl

/-- A drafted plain loop is written as the plain loop. -/
theorem plainLoop_write (init cond step : String) (emptyBody : Bool) (lines : List DraftLine) :
    (plainLoop init cond step emptyBody lines).map (write fields) =
      Indented.plainLoop fields init cond step emptyBody (lines.map (write fields)) := by
  have hheader : write fields (flush [.word "while ", test cond, .word ":"]) =
      Line.flush ("while " ++ (test cond).write fields ++ ":") := by
    simp [write, flush, writeScraps, Scrap.write, Line.flush, String.append_assoc]
  rw [plainLoop, Indented.plainLoop, List.map_append, initLines_write, List.map_cons, hheader,
    test_write, write_deeper, List.map_append]
  congr 4
  split
  next => simp [write, flush, writeScraps_singleton, Scrap.write, Line.flush]
  next => split <;> rfl

/-- A drafted loop is written as the loop, counted or plain. -/
theorem loopDraft_write (init cond step : String) (emptyBody : Bool) (lines : List DraftLine) :
    (loopDraft init cond step emptyBody lines).map (write fields) =
      loopLines fields init cond step emptyBody (lines.map (write fields)) := by
  unfold loopDraft loopLines
  rcases Counter.parse init cond step with e | _ | c
  · exact plainLoop_write ..
  · exact plainLoop_write ..
  · simp only [suite_write, rangeHeader_write]

theorem testScraps_write (word : String) (test : Test) :
    writeScraps fields (.word word :: testScraps test) = word ++ testText fields test := by
  cases test <;> simp [testScraps, testText, writeScraps, Scrap.write, String.append_assoc]

/-- The drafts, written with some fields, are the lines. -/
theorem writer_write (fields : List String) :
    writer.Related (Indented.writer fields) (fun _ => True)
      fun _ _ _ draft lines => draft.map (write fields) = lines where
  nil _ := rfl
  append h h' := by rw [List.map_append, h, h']
  leaf _ _ := leafLines_write _
  first _ _ h := by
    show (suite _ _).map _ = _
    rw [suite_write, testScraps_write, h]
    rfl
  next _ _ h := by
    show (suite _ _).map _ = _
    rw [suite_write, testScraps_write, h]
    rfl
  final _ _ h := by
    show (suite _ _).map _ = _
    rw [suite_write, writeScraps_singleton, h]
    rfl
  closing _ _ := rfl
  labels := rfl
  labelled _ _ h := h
  label _ _ _ h := h
  forLoop _ h := by
    show (loopDraft ..).map _ = _
    rw [loopDraft_write, h]
    rfl
  whileLoop _ h := by
    show (suite _ _).map _ = _
    rw [suite_write, h]
    simp [Indented.writer, writeScraps, Scrap.write]

/-- **A draft, written with some fields, gives the lines of the block.** -/
theorem block_write (fields : List String) (b : Block) :
    (block b).map (write fields) = Indented.block fields b :=
  (writer_write fields).block fun _ _ => trivial

/-- The fields that a method sees: a parameter hides a field of the same name. -/
def visible (names : List String) (f : FunctionDef) : List String :=
  names.filter (!("self" :: f.params.map Param.name).contains ·)

theorem mem_visible {x : String} {names : List String} {f : FunctionDef} (hx : x ∈ names)
    (hparams : x ∉ "self" :: f.params.map Param.name) : x ∈ visible names f :=
  List.mem_filter.mpr ⟨hx, by simpa using hparams⟩

/-- The draft of a method gives its lines, where the fields it sees are qualified. -/
theorem method_write (names : List String) (f : FunctionDef) :
    (method f).map (write (visible names f)) = Indented.method names f := by
  have hparams : (("self" :: f.params.map Param.name).map Scrap.binder).map
      (Scrap.write (visible names f)) = "self" :: f.params.map Param.name := by
    rw [List.map_map]
    exact List.map_id _
  rw [method, suite_write, block_write, Indented.method]
  simp only [writeScraps, writeScraps_append, writeScraps_commas, hparams, String.append_assoc]
  simp [Scrap.write, visible]

/-! ## The scraps of a statement -/

/-- The scraps that a loop which does not count through a range has of its own. -/
def loopScraps (init cond step : String) : List Scrap :=
  (initLines init).flatMap DraftLine.scraps ++
    test cond :: if isBlankText step then [] else [.step step]

def headerScraps (init cond step : String) : List Scrap :=
  match Counter.parse init cond step with
  | .ok (some c) => rangeHeader c
  | _ => loopScraps init cond step

/-- The scraps that are collected from statements. -/
def pieces : Writer.Pieces Scrap where
  leaf s := (leaf? s).getD []
  test := testScraps
  forLoop init cond step _ := headerScraps init cond step
  whileLoop cond := [.expr cond]

/-- The scraps that a statement has of its own, without its blocks. -/
def scraps : Statement → List Scrap := pieces.ofStatement

/-- All scraps of the lines have the property. -/
def All (P : Scrap → Prop) (lines : List DraftLine) : Prop := ∀ l ∈ lines, ∀ s ∈ l.scraps, P s

variable {P : Scrap → Prop}

theorem all_append {lines more : List DraftLine} :
    All P (lines ++ more) ↔ All P lines ∧ All P more :=
  List.forall_mem_append

theorem all_flush {scraps : List Scrap} : All P [flush scraps] ↔ ∀ s ∈ scraps, P s :=
  List.forall_mem_singleton

theorem all_deeper {lines : List DraftLine} : All P (lines.map deeper) ↔ All P lines := by
  rw [All, List.forall_mem_map]
  rfl

/-- Of a statement of one line, a property of all scraps is asked of its scraps. -/
theorem all_leaf (s : Statement) :
    All P ((leaf? s).toList.map flush) ↔ ∀ scrap ∈ (leaf? s).getD [], P scrap := by
  cases leaf? s with
  | none => simp [All]
  | some text => simp [all_flush]

section

variable (hword : ∀ text, P (.word text))
include hword

theorem forall_commas : ∀ {scraps : List Scrap},
    (∀ s ∈ commas scraps, P s) ↔ ∀ s ∈ scraps, P s
  | [] => Iff.rfl
  | [s] => Iff.rfl
  | s :: t :: rest => by
    rw [commas, List.forall_mem_cons, List.forall_mem_cons, forall_commas,
      List.forall_mem_cons (a := s), and_iff_right (hword _)]
    simp

/-- Of a suite, a property of all scraps is asked of the header and of the lines inside. -/
theorem all_suite {header : List Scrap} {lines : List DraftLine} :
    All P (suite header lines) ↔ (∀ s ∈ header, P s) ∧ All P lines := by
  have hheader : All P [flush (header ++ [.word ":"])] ↔ ∀ s ∈ header, P s := by
    rw [all_flush, List.forall_mem_append, List.forall_mem_singleton]
    exact and_iff_left (hword _)
  have hlines : All P (if lines.isEmpty then [flush [.word "pass"]] else lines) ↔ All P lines := by
    cases lines with
    | nil => simp [All, flush, hword]
    | cons l rest => exact Iff.rfl
  rw [suite, ← List.singleton_append, all_append, hheader, all_deeper, hlines]

/-- Of a plain loop, a property of all scraps is asked of its own scraps and of the lines inside. -/
theorem all_plainLoop {init cond step : String} {emptyBody : Bool} {lines : List DraftLine} :
    All P (plainLoop init cond step emptyBody lines) ↔
      (∀ s ∈ loopScraps init cond step, P s) ∧ All P lines := by
  have hinit : All P (initLines init) ↔ ∀ s ∈ (initLines init).flatMap DraftLine.scraps, P s := by
    simp only [All, List.mem_flatMap, forall_exists_index, and_imp]
    exact ⟨fun h s l hl hs => h l hl s hs, fun h l hl s hs => h s l hl hs⟩
  have hheader : All P [flush [.word "while ", test cond, .word ":"]] ↔ P (test cond) := by
    simp [all_flush, hword]
  rw [plainLoop, ← List.singleton_append, all_append, all_append, hinit, hheader, all_deeper,
    all_append, loopScraps, List.forall_mem_append, List.forall_mem_cons]
  cases isBlankText step with
  | false => simp [all_flush, and_assoc, and_comm, and_left_comm]
  | true =>
    have hlast : All P (if emptyBody then [flush [.word "pass"]] else []) := by
      split
      next => simp [all_flush, hword]
      next => simp [All]
    simp [hlast, and_assoc]

/-- Of any loop, a property of all scraps is asked of its header's scraps and of the lines
inside. -/
theorem all_loopDraft {init cond step : String} {emptyBody : Bool} {lines : List DraftLine} :
    All P (loopDraft init cond step emptyBody lines) ↔
      (∀ s ∈ headerScraps init cond step, P s) ∧ All P lines := by
  unfold loopDraft headerScraps
  rcases Counter.parse init cond step with e | _ | c
  · exact all_plainLoop hword
  · exact all_plainLoop hword
  · exact all_suite hword

/-- All scraps of a draft have the property if the collected ones have it. -/
theorem writer_all :
    writer.Related (Writer.collect pieces fun _ _ => false) (fun _ => True)
      fun _ _ _ lines scraps => All P lines ↔ ∀ s ∈ scraps, P s where
  nil _ := by simp [All]
  append h h' := by rw [all_append, List.forall_mem_append, h, h']
  leaf _ _ := all_leaf _
  first _ _ h := by
    rw [Writer.collect, List.forall_mem_append, ← h, writer, all_suite hword,
      List.forall_mem_cons, and_iff_right (hword _)]
    rfl
  next _ _ h := by
    rw [Writer.collect, List.forall_mem_append, ← h, writer, all_suite hword,
      List.forall_mem_cons, and_iff_right (hword _)]
    rfl
  final _ _ h := by
    rw [Writer.collect, ← h, writer, all_suite hword, List.forall_mem_singleton,
      and_iff_right (hword _)]
  closing _ _ := by simp [writer, Writer.collect, All]
  labels := rfl
  labelled _ _ h := h
  label _ _ _ h := h
  forLoop _ h := by
    rw [Writer.collect, List.forall_mem_append, ← h]
    exact all_loopDraft hword
  whileLoop _ h := by
    rw [Writer.collect, List.forall_mem_append, ← h, writer, all_suite hword,
      List.forall_mem_cons, and_iff_right (hword _)]
    rfl

/-- **The scraps of a block are those of the statements in it**, apart from words of the
language. -/
theorem all_block (b : Block) :
    All P (block b) ↔ ∀ s ∈ Block.walk b, ∀ scrap ∈ scraps s, P scrap := by
  have hcollect : All P (block b) ↔ _ := (writer_all hword).block fun _ _ => trivial
  rw [hcollect]
  exact Writer.forall_collect_iff (fun _ _ h => Bool.noConfusion h) b

end

end Draft

end Blockflow.Indented
