import Blockflow.Code.Indented
import Blockflow.Proofs.Code.Strokes
import Blockflow.Proofs.Code.Writers
import Blockflow.Proofs.Expression.Characters
import Blockflow.Proofs.Program.Redrawn
import Blockflow.Proofs.Program.Supply
import Mathlib.Data.List.Chain

/-!
# Suites

Code with indented suites is written by a writer that keeps a level (`Script`): a header, one level
deeper the lines of its suite, and back. Some suites are found to be empty only after everything in
them was written. The writer leaves the lines that `Indented` gives, and after each statement and
each definition it is back at the level that it started at.

In the code of a program that was built from a valid graph, a header has a line below it that is one
level deeper and not blank, and nothing else makes a line deeper than the line above it
(`Graph.indented_laid`). The lines of the body alone do not guarantee that: a loop which does not
count through a range needs a step for it, since its body may be written as nothing. A graph that is
valid and was loaded from a diagram has no loop without one.
-/

namespace Blockflow.Indented

open Expression Stroke

/-! ## Writing a program -/

namespace Script

/-- A header and its suite. Whether anything was written is known only after the suite. -/
def suite (header : String) (inner : List Stroke) : List Stroke :=
  .header (header ++ ":") ::
    nested (inner ++ if (marks 0 inner).isEmpty then [.line "pass"] else [])

/-- A loop which does not count through a range. -/
def plainLoop (fields : List String) (init cond step : String) (emptyBody : Bool)
    (inner : List Stroke) : List Stroke :=
  let test := if isBlankText cond then "True" else expr fields cond
  let last : List Stroke :=
    if !isBlankText step then [.line (LoopStep.statement step)]
    else if emptyBody then [.line "pass"]
    else []
  (initLines fields init).map (fun l => .line l.text) ++
    .header ("while " ++ test ++ ":") :: nested (inner ++ last)

/-- A loop with a header. It goes through a range if the header counts. -/
def loopStrokes (fields : List String) (init cond step : String) (emptyBody : Bool)
    (inner : List Stroke) : List Stroke :=
  match Counter.parse init cond step with
  | .ok (some c) => suite (rangeHeader fields c) inner
  | _ => plainLoop fields init cond step emptyBody inner

def writer (fields : List String) : Writer Stroke where
  leaf s := (leaf? fields s).toList.map .line
  first test := suite ("if " ++ testText fields test)
  next test := suite ("elif " ++ testText fields test)
  final := suite "else"
  closing := []
  labels _ _ := false
  labelled _ inner := inner
  label _ inner := inner
  forLoop init cond step _ emptyBody := loopStrokes fields init cond step emptyBody
  whileLoop cond := suite ("while " ++ expr fields cond)

def statement (fields : List String) : Statement → List Stroke := (writer fields).statement

def block (fields : List String) : List Statement → List Stroke := (writer fields).block

def function (f : FunctionDef) : List Stroke :=
  suite ("def " ++ f.name ++ "(" ++ commaList (f.params.map Param.name) ++ ")") (block [] f.body)

def method (fields : List String) (f : FunctionDef) : List Stroke :=
  let names := "self" :: f.params.map Param.name
  suite ("def " ++ f.name ++ "(" ++ commaList names ++ ")")
    (block (fields.filter (!names.contains ·)) f.body)

/-- The suite of the method that gives the fields their first values. There is no `pass` here: it is
written only for a class with fields. -/
def fieldSuite (header : String) (fields : List Declaration) (text : Declaration → String) :
    List Stroke :=
  .header (header ++ ":") :: nested (fields.map fun d => .line (text d))

def initializer (c : ClassDef) : List Stroke :=
  if c.hasConstructor then
    let params := c.fields.map fun d => d.name ++ "=" ++ expr [] d.value.shown
    fieldSuite ("def __init__(self, " ++ commaList params ++ ")") c.fields fun d =>
      "self." ++ d.name ++ " = " ++ d.name
  else
    fieldSuite "def __init__(self)" c.fields fun d =>
      "self." ++ d.name ++ " = " ++ expr [] d.value.shown

/-- The methods of a class, and before them the one that gives the fields their first values. -/
def groups (c : ClassDef) : List (List Stroke) :=
  let methods := c.methods.map (method (c.fields.map Declaration.name))
  if c.fields.isEmpty then methods else initializer c :: methods

def classDef (c : ClassDef) : List Stroke :=
  .header ("class " ++ c.name ++ ":") ::
    nested ((if c.members.isEmpty then [.line "pass"] else []) ++ Stroke.spaced (groups c))

def program (p : Program) : List Stroke :=
  (p.classes.map classDef ++ p.functions.map function).flatMap (· ++ [.line "", .line ""]) ++
    block [] p.main

/-! ## What is written -/

variable {fields : List String} {inner : List Stroke} {lines : List Line}

/-- The strokes of a suite write its lines, with `pass` in an empty body. -/
theorem suite_writes {header : String} (h : Writes inner lines) :
    Writes (suite header inner) (Indented.suite header lines) := by
  refine (Writes.header _).append (Writes.nested ?_)
  rw [h.isEmpty_marks]
  cases lines with
  | nil => simpa using h.append (Writes.line "pass")
  | cons l rest => simpa using h

/-- The lines in front of a plain loop stand at the outer level. -/
theorem initLines_level {init : String} : ∀ l ∈ initLines fields init, l.level = 0 := by
  unfold initLines
  split
  next => simp [Line.flush]
  next => split <;> simp [Line.flush]

/-- The strokes of a plain loop write its `while`, with the step at the end of the body. -/
theorem plainLoop_writes {init cond step : String} {emptyBody : Bool} (h : Writes inner lines) :
    Writes (plainLoop fields init cond step emptyBody inner)
      (Indented.plainLoop fields init cond step emptyBody lines) := by
  refine (Writes.ofLines _ initLines_level).append ((Writes.header _).append (Writes.nested ?_))
  refine h.append ?_
  split
  next => exact .line _
  next =>
    split
    next => exact .line _
    next => exact .nil

theorem leaf_writes (s : Statement) :
    Writes ((leaf? fields s).toList.map .line) ((leaf? fields s).toList.map Line.flush) := by
  cases leaf? fields s with
  | none => exact .nil
  | some text => exact .line text

/-- The strokes of a loop write its lines, counted or plain. -/
theorem loopStrokes_writes {init cond step : String} {emptyBody : Bool} (h : Writes inner lines) :
    Writes (loopStrokes fields init cond step emptyBody inner)
      (loopLines fields init cond step emptyBody lines) := by
  unfold loopStrokes loopLines
  rcases Counter.parse init cond step with e | _ | c
  · exact plainLoop_writes h
  · exact plainLoop_writes h
  · exact suite_writes h

/-- The strokes of the writer write its lines. -/
theorem writer_writes (fields : List String) :
    (writer fields).Related (Indented.writer fields) (fun _ => True)
      fun _ _ _ strokes lines => Writes strokes lines where
  nil _ := .nil
  append h h' := h.append h'
  leaf _ _ := leaf_writes _
  first _ _ h := suite_writes h
  next _ _ h := suite_writes h
  final _ _ h := suite_writes h
  closing _ _ := .nil
  labels := rfl
  labelled _ _ h := h
  label _ _ _ h := h
  forLoop _ h := loopStrokes_writes h
  whileLoop _ h := suite_writes h

/-- The script of a block writes the lines of the block. -/
theorem block_writes (fields : List String) (b : Block) :
    Writes (block fields b) (Indented.block fields b) :=
  (writer_writes fields).block fun _ _ => trivial

theorem statement_writes (fields : List String) (s : Statement) :
    Writes (statement fields s) (Indented.statement fields s) :=
  (writer_writes fields).statement trivial fun _ _ =>
    (writer_writes fields).blockRelated fun _ _ => trivial

/-- The script of a function writes the lines of the function. -/
theorem function_writes (f : FunctionDef) : Writes (function f) (Indented.function f) :=
  suite_writes (block_writes _ _)

theorem method_writes (fields : List String) (f : FunctionDef) :
    Writes (method fields f) (Indented.method fields f) :=
  suite_writes (block_writes _ _)

theorem fieldSuite_writes {header : String} {ds : List Declaration} {text : Declaration → String}
    (h : ds.isEmpty = false) :
    Writes (fieldSuite header ds text)
      (Indented.suite header (ds.map fun d => Line.flush (text d))) := by
  refine (Writes.header _).append (Writes.nested ?_)
  rw [List.isEmpty_map, h]
  have := Writes.ofLines (ds.map fun d => Line.flush (text d)) (by simp [Line.flush])
  rwa [List.map_map] at this

theorem initializer_writes {c : ClassDef} (h : c.fields.isEmpty = false) :
    Writes (initializer c) (Indented.initializer c) := by
  unfold initializer Indented.initializer
  split
  next => exact fieldSuite_writes h
  next => exact fieldSuite_writes h

/-- The script of a class writes the lines of the class, with the gaps between its groups. -/
theorem classDef_writes (c : ClassDef) : Writes (classDef c) (Indented.classDef c) := by
  have hmethods := fun (f : FunctionDef) (_ : f ∈ c.methods) =>
    method_writes (c.fields.map Declaration.name) f
  refine (Writes.header _).append (Writes.nested ?_)
  split
  next hempty =>
    have hmembers := List.isEmpty_iff.mp hempty
    have hfields : c.fields = [] := by rw [ClassDef.fields, hmembers]; rfl
    have hmethods : c.methods = [] := by rw [ClassDef.methods, hmembers]; rfl
    rw [groups, hfields, hmethods]
    exact .line "pass"
  next =>
    rw [groups]
    cases hfields : c.fields.isEmpty with
    | true => exact .spaced hmethods
    | false =>
      cases hm : c.methods with
      | nil => exact initializer_writes hfields
      | cons f fs =>
        rw [hm] at hmethods
        exact (initializer_writes hfields).append ((Writes.line "").append (.spaced hmethods))

/-- The script of a program writes the lines of the program. -/
theorem program_writes (p : Program) : Writes (program p) (Indented.program p) := by
  refine Writes.append ?_ (block_writes _ _)
  have hgap : Writes [.line "", .line ""] [Line.blank, Line.blank] :=
    (Writes.line "").append (Writes.line "")
  rw [List.flatMap_append, List.flatMap_append, List.flatMap_map, List.flatMap_map,
    List.flatMap_map, List.flatMap_map]
  exact (Writes.flatMap fun c _ => (classDef_writes c).append hgap).append
    (Writes.flatMap fun f _ => (function_writes f).append hgap)

end Script

/-! ## Texts that are not blank -/

/-- A text is blank if both of its halves are. -/
theorem isBlankText_append (s t : String) :
    isBlankText (s ++ t) = (isBlankText s && isBlankText t) := by
  rw [isBlankText, String.toList_append]
  exact List.all_append

/-- Qualifying the fields does not empty an expression. -/
theorem isBlankText_expr {fields : List String} {text : String} (h : isBlankText text = false) :
    isBlankText (expr fields text) = false :=
  Text.solid_iff.mp (solid_qualify (solid_spell (Text.solid_iff.mpr h)))

/-- The statement of a step is not blank if the step is not. -/
theorem isBlankText_step {step : String} (h : isBlankText step = false) :
    isBlankText (LoopStep.statement step) = false :=
  Text.solid_iff.mp (solid_step (Text.solid_iff.mpr h))

theorem isBlankText_header (header : String) : isBlankText (header ++ ":") = false := by
  rw [isBlankText_append, show isBlankText ":" = false by decide, Bool.and_false]

/-- No statement of one line is written as a blank line. -/
theorem isBlankText_leaf {fields : List String} {s : Statement} {text : String}
    (h : leaf? fields s = some text) : isBlankText text = false := by
  have hequals : isBlankText " = " = false := by decide
  have harray : isBlankText " = [" = false := by decide
  have hopen : isBlankText "(" = false := by decide
  have hprint : isBlankText "print(" = false := by decide
  unfold leaf? at h
  split at h
  next => cases h; simp [isBlankText_append, hequals]
  next => cases h; simp [isBlankText_append, hequals]
  next => cases h; simp [isBlankText_append, harray]
  next => split at h <;> cases h <;> simp [isBlankText_append, hprint]
  next => cases h; simp [isBlankText_append, hopen]
  next => cases h; simp [isBlankText_append, hequals]
  next => cases h

theorem isBlankText_initLines {fields : List String} {init : String} :
    ∀ l ∈ initLines fields init, isBlankText l.text = false := by
  have hequals : isBlankText " = " = false := by decide
  unfold initLines
  split
  next =>
    rw [List.forall_mem_singleton]
    simp [Line.flush, isBlankText_append, hequals]
  next =>
    split
    next => simp
    next h =>
      rw [List.forall_mem_singleton]
      exact isBlankText_expr (by simpa using h)

/-! ## Lines below each other -/

/-- May the second line stand right below the first one? Below a header it is one level deeper and
not blank, below any other line it is not deeper. -/
def Below (m next : Mark) : Prop :=
  if m.isHeader then next.level = m.level + 1 ∧ isBlankText next.text = false
  else next.level ≤ m.level

/-- Lines that start at a level and keep to it, each right below the line before it. There is a line
below every header. -/
structure Laid (n : Int) (ms : List Mark) : Prop where
  chain : ms.IsChain Below
  last : ∀ m ∈ ms.getLast?, m.isHeader = false
  first : ∀ m ∈ ms.head?, m.level = n ∧ isBlankText m.text = false
  le : ∀ m ∈ ms, n ≤ m.level

namespace Laid

variable {n : Int} {ms ms' : List Mark}

theorem nil : Laid n [] where
  chain := .nil
  last := by simp
  first := by simp
  le := by simp

theorem line {text : String} (h : isBlankText text = false) : Laid n [⟨false, n, text⟩] where
  chain := .singleton _
  last := by simp
  first := by simpa using h
  le := by simp

/-- A line that is no header is followed by a line of the level that the lines keep to. -/
theorem below_last (h : Laid n ms) {m next : Mark} (hm : m ∈ ms.getLast?) (hnext : next.level = n) :
    Below m next := by
  rw [Below, h.last m hm, if_neg Bool.false_ne_true, hnext]
  exact h.le m (List.mem_of_getLast? hm)

/-- Two layouts of one level can stand below each other. -/
theorem append (h : Laid n ms) (h' : Laid n ms') : Laid n (ms ++ ms') where
  chain := h.chain.append h'.chain fun _ hm _ hnext => h.below_last hm (h'.first _ hnext).1
  last m hm := by
    rw [List.getLast?_append, Option.mem_def, Option.or_eq_some_iff] at hm
    rcases hm with hm | ⟨-, hm⟩
    · exact h'.last m hm
    · exact h.last m hm
  first m hm := by
    rw [List.head?_append, Option.mem_def, Option.or_eq_some_iff] at hm
    rcases hm with hm | ⟨-, hm⟩
    · exact h.first m hm
    · exact h'.first m hm
  le := List.forall_mem_append.mpr ⟨h.le, h'.le⟩

/-- A blank line may stand below lines. -/
theorem gap (h : Laid n ms) (hne : ms ≠ []) : Laid n (ms ++ [⟨false, n, ""⟩]) where
  chain := h.chain.append (.singleton _) fun _ hm _ hnext => by
    cases hnext
    exact h.below_last hm rfl
  last := by simp
  first m hm := h.first m (by rwa [List.head?_append_of_ne_nil _ hne] at hm)
  le := List.forall_mem_append.mpr ⟨h.le, by simp⟩

/-- A header and a body that is not empty are laid out one level further out. -/
theorem suite {header : String} (h : Laid (n + 1) ms) (hne : ms ≠ []) :
    Laid n (⟨true, n, header ++ ":"⟩ :: ms) where
  chain := h.chain.cons fun m hm => by
    rw [Below, if_pos rfl]
    exact h.first m hm
  last m hm := h.last m (by rwa [List.getLast?_cons_of_ne_nil hne] at hm)
  first m hm := by
    cases hm
    exact ⟨rfl, isBlankText_header header⟩
  le := List.forall_mem_cons.mpr ⟨Int.le_refl n, fun m hm => by have := h.le m hm; omega⟩

end Laid

/-- The strokes come back to their level, and their lines are right below each other. -/
structure LaysOut (strokes : List Stroke) : Prop where
  level : ∀ n, levelAfter n strokes = n
  laid : ∀ n, Laid n (marks n strokes)

namespace LaysOut

variable {strokes strokes' : List Stroke}

theorem nil : LaysOut [] := ⟨fun _ => rfl, fun _ => .nil⟩

theorem line {text : String} (h : isBlankText text = false) : LaysOut [.line text] :=
  ⟨fun _ => rfl, fun _ => .line h⟩

/-- Strokes laid out at every level stay so below each other. -/
theorem append (h : LaysOut strokes) (h' : LaysOut strokes') : LaysOut (strokes ++ strokes') where
  level n := by rw [levelAfter_append, h.level, h'.level]
  laid n := by
    rw [marks_append, h.level]
    exact (h.laid n).append (h'.laid n)

/-- An empty line can follow strokes that write something. -/
theorem gap (h : LaysOut strokes) (hne : (marks 0 strokes).isEmpty = false) :
    LaysOut (strokes ++ [.line ""]) where
  level n := by rw [levelAfter_append, h.level]; rfl
  laid n := by
    rw [marks_append, h.level]
    refine (h.laid n).gap fun hempty => ?_
    rw [isEmpty_marks_eq _ 0 n, hempty] at hne
    cases hne

/-- A header with a body that writes something is laid out. -/
theorem suite {header : String} (h : LaysOut strokes) (hne : (marks 0 strokes).isEmpty = false) :
    LaysOut (.header (header ++ ":") :: nested strokes) where
  level n := levelAfter_nested (h.level _)
  laid n := by
    show Laid n (⟨true, n, header ++ ":"⟩ :: marks n (nested strokes))
    rw [marks_nested (h.level _)]
    refine (h.laid _).suite fun hempty => ?_
    rw [isEmpty_marks_eq _ 0 (n + 1), hempty] at hne
    cases hne

theorem flatMap {α : Type} {xs : List α} {f : α → List Stroke} (h : ∀ x ∈ xs, LaysOut (f x)) :
    LaysOut (xs.flatMap f) := by
  induction xs with
  | nil => exact nil
  | cons x rest ih =>
    obtain ⟨hx, hrest⟩ := List.forall_mem_cons.mp h
    exact hx.append (ih hrest)

theorem lines (lines : List Line) (h : ∀ l ∈ lines, isBlankText l.text = false) :
    LaysOut (lines.map fun l => .line l.text) := by
  induction lines with
  | nil => exact nil
  | cons l rest ih =>
    obtain ⟨hl, hrest⟩ := List.forall_mem_cons.mp h
    exact (line hl).append (ih hrest)

/-- Groups that write something are laid out with empty lines between them. -/
theorem spaced : ∀ {groups : List (List Stroke)},
    (∀ group ∈ groups, LaysOut group ∧ (marks 0 group).isEmpty = false) →
      LaysOut (Stroke.spaced groups) ∧
        (groups ≠ [] → (marks 0 (Stroke.spaced groups)).isEmpty = false)
  | [], _ => ⟨nil, fun h => absurd rfl h⟩
  | [group], h => by
    obtain ⟨hgroup, hne⟩ := h group List.mem_cons_self
    exact ⟨hgroup, fun _ => hne⟩
  | group :: next :: rest, h => by
    obtain ⟨⟨hgroup, hne⟩, hrest⟩ := List.forall_mem_cons.mp h
    obtain ⟨hspaced, -⟩ := spaced hrest
    have heq : Stroke.spaced (group :: next :: rest) =
        group ++ [.line ""] ++ Stroke.spaced (next :: rest) := by
      rw [List.append_assoc]
      rfl
    rw [heq]
    exact ⟨(hgroup.gap hne).append hspaced, fun _ => by simp [isEmpty_marks_append, hne]⟩

end LaysOut

/-! ## Statements -/

/-- If the statement is a loop with a header, then its step is not blank. -/
def HasStep : Statement → Prop
  | .forLoop _ _ step _ _ _ => isBlankText step.shown = false
  | _ => True

namespace Script

variable {fields : List String} {inner : List Stroke}

/-- A suite is laid out also when its body is empty, since it then holds `pass`. -/
theorem suite_laysOut {header : String} (h : LaysOut inner) : LaysOut (suite header inner) := by
  refine LaysOut.suite (h.append ?_) ?_
  · split
    next => exact .line (by decide)
    next => exact .nil
  · rw [isEmpty_marks_append]
    cases hempty : (marks 0 inner).isEmpty with
    | true => rfl
    | false => rfl

/-- A plain loop is laid out if its step is a line that is not blank. -/
theorem plainLoop_laysOut {init cond step : String} {emptyBody : Bool}
    (hstep : isBlankText step = false) (h : LaysOut inner) :
    LaysOut (plainLoop fields init cond step emptyBody inner) := by
  refine (LaysOut.lines _ isBlankText_initLines).append (LaysOut.suite (h.append ?_) ?_)
  · rw [hstep]
    exact .line (isBlankText_step hstep)
  · rw [isEmpty_marks_append, hstep]
    exact Bool.and_false _

/-- A statement of one line is laid out. -/
theorem leaf_laysOut (s : Statement) : LaysOut ((leaf? fields s).toList.map .line) := by
  cases h : leaf? fields s with
  | none => exact .nil
  | some text => exact .line (isBlankText_leaf h)

theorem loopStrokes_laysOut {init cond step : String} {emptyBody : Bool}
    (hstep : isBlankText step = false) (h : LaysOut inner) :
    LaysOut (loopStrokes fields init cond step emptyBody inner) := by
  unfold loopStrokes
  split
  next => exact suite_laysOut h
  next => exact plainLoop_laysOut hstep h

/-- The strokes of the writer are laid out, if every loop has a step. -/
theorem writer_laysOut (fields : List String) :
    (writer fields).Related (writer fields) HasStep fun _ _ _ strokes _ => LaysOut strokes where
  nil _ := .nil
  append h h' := h.append h'
  leaf _ _ := leaf_laysOut _
  first _ _ h := suite_laysOut h
  next _ _ h := suite_laysOut h
  final _ _ h := suite_laysOut h
  closing _ _ := .nil
  labels := rfl
  labelled _ _ h := h
  label _ _ _ h := h
  forLoop hs h := loopStrokes_laysOut hs h
  whileLoop _ h := suite_laysOut h

/-- A block is laid out if every `for` in it has a step. -/
theorem block_laysOut {b : Block} (h : ∀ s ∈ Block.walk b, HasStep s) : LaysOut (block fields b) :=
  (writer_laysOut fields).block h

/-! ## Definitions -/

/-- A function is laid out if every `for` in its body has a step. -/
theorem function_laysOut {f : FunctionDef} (h : ∀ s ∈ Block.walk f.body, HasStep s) :
    LaysOut (function f) :=
  suite_laysOut (block_laysOut h)

theorem method_laysOut {f : FunctionDef} (h : ∀ s ∈ Block.walk f.body, HasStep s) :
    LaysOut (method fields f) :=
  suite_laysOut (block_laysOut h)

/-- A suite of fields is laid out if there are fields and none is written as a blank line. -/
theorem fieldSuite_laysOut {header : String} {ds : List Declaration} {text : Declaration → String}
    (h : ds.isEmpty = false) (htext : ∀ d, isBlankText (text d) = false) :
    LaysOut (fieldSuite header ds text) := by
  refine LaysOut.suite ?_ ?_
  · have := LaysOut.lines (ds.map fun d => Line.flush (text d)) (by simp [Line.flush, htext])
    rwa [List.map_map] at this
  · cases ds with
    | nil => cases h
    | cons d rest => rfl

theorem initializer_laysOut {c : ClassDef} (h : c.fields.isEmpty = false) :
    LaysOut (initializer c) ∧ (marks 0 (initializer c)).isEmpty = false := by
  have hself : isBlankText "self." = false := by decide
  unfold initializer
  split
  next => exact ⟨fieldSuite_laysOut h fun d => by simp [isBlankText_append, hself], rfl⟩
  next => exact ⟨fieldSuite_laysOut h fun d => by simp [isBlankText_append, hself], rfl⟩

/-- Each group of a class is laid out and writes something. -/
theorem groups_laysOut {c : ClassDef} (h : ∀ f ∈ c.methods, ∀ s ∈ Block.walk f.body, HasStep s) :
    ∀ group ∈ groups c, LaysOut group ∧ (marks 0 group).isEmpty = false := by
  have hmethods : ∀ group ∈ c.methods.map (method (c.fields.map Declaration.name)),
      LaysOut group ∧ (marks 0 group).isEmpty = false := by
    rw [List.forall_mem_map]
    exact fun f hf => ⟨method_laysOut (h f hf), rfl⟩
  unfold groups
  simp only
  split
  next => exact hmethods
  next hfields =>
    exact List.forall_mem_cons.mpr ⟨initializer_laysOut (by simpa using hfields), hmethods⟩

/-- A class with members has a field or a method. -/
theorem groups_ne_nil {c : ClassDef} (hproper : c.Proper) (h : c.members.isEmpty = false) :
    groups c ≠ [] := by
  obtain ⟨m, hm⟩ := List.isEmpty_eq_false_iff_exists_mem.mp h
  unfold groups
  cases m with
  | field d =>
    have hd : d ∈ c.fields := List.mem_filterMap.mpr ⟨_, hm, rfl⟩
    have hfields : c.fields.isEmpty = false := by
      rw [List.isEmpty_eq_false_iff_exists_mem]
      exact ⟨d, hd⟩
    simp [hfields]
  | method f =>
    have hf : f ∈ c.methods := List.mem_filterMap.mpr ⟨_, hm, rfl⟩
    have hmethods := List.ne_nil_of_mem hf
    simp only
    split
    next => simpa using hmethods
    next => simp
  | stray s => exact absurd rfl (hproper _ hm s)

/-- A class is laid out if its members are fields and methods. -/
theorem classDef_laysOut {c : ClassDef} (hproper : c.Proper)
    (h : ∀ f ∈ c.methods, ∀ s ∈ Block.walk f.body, HasStep s) : LaysOut (classDef c) := by
  obtain ⟨hspaced, hne⟩ := LaysOut.spaced (groups_laysOut h)
  refine LaysOut.suite (LaysOut.append ?_ hspaced) ?_
  · split
    next => exact .line (by decide)
    next => exact .nil
  · rw [isEmpty_marks_append]
    split
    next => rfl
    next hmembers =>
      rw [hne (groups_ne_nil hproper (by simpa using hmembers)), Bool.and_false]

/-- A program is laid out if its classes hold only fields and methods and every `for` has a
step. -/
theorem program_laysOut {p : Program} (hproper : ∀ c ∈ p.classes, c.Proper)
    (h : ∀ s ∈ p.statements, HasStep s) : LaysOut (program p) := by
  have hgap : ∀ {strokes}, LaysOut strokes → (marks 0 strokes).isEmpty = false →
      LaysOut (strokes ++ [.line "", .line ""]) := by
    intro strokes hstrokes hne
    have := (hstrokes.gap hne).gap (by simp [isEmpty_marks_append, hne])
    rwa [List.append_assoc] at this
  refine LaysOut.append ?_
    (block_laysOut fun s hs => h s (Program.HasBody.main.mem_statements hs))
  rw [List.flatMap_append, List.flatMap_map, List.flatMap_map]
  refine LaysOut.append (.flatMap fun c hc => hgap (classDef_laysOut (hproper c hc) ?_) rfl)
    (.flatMap fun f hf => hgap (function_laysOut ?_) rfl)
  · exact fun f hf s hs => h s ((Program.HasBody.method hc hf).mem_statements hs)
  · exact fun s hs => h s ((Program.HasBody.function hf).mem_statements hs)

end Script

end Blockflow.Indented

/-! ## Programs of valid graphs -/

namespace Blockflow.Graph

open Indented Stroke

variable {g : Graph} {p : Program} {main : Block} {a : Assembly}

/-- A field that has to be given is not blank: texts are stripped when they are loaded. -/
theorem Valid.isBlankText_given {d : Diagram} (hload : Graph.load d = .ok g) (hv : g.Valid)
    {n : Node} (hn : n ∈ g.nodes) {type : BlockType} (hb : n.block? = some type) {field : String}
    (hfield : field ∈ (type.fields.filter FieldSpec.required).map FieldSpec.name) :
    isBlankText (n.given field).shown = false := by
  obtain ⟨spec, hspec, rfl⟩ := List.mem_map.mp hfield
  obtain ⟨hspec, hrequired⟩ := List.mem_filter.mp hspec
  obtain ⟨s, hs, hne, -⟩ := hv.exists_required hn hb hspec hrequired
  have hgiven : n.given spec.name = .text s := by rw [Node.given, hs]; rfl
  rw [hgiven]
  cases hchars : s.toList with
  | nil => exact absurd (String.toList_eq_nil_iff.mp hchars) hne
  | cons c rest =>
    have hc : Text.isBlank c = false :=
      (tidy_of_load hload n hn _ s hs).head c (by rw [hchars]; rfl)
    exact Text.solid_iff.mp ⟨c, by rw [FieldValue.shown, hchars]; exact List.mem_cons_self, hc⟩

/-- A `for` of a valid graph has a step. -/
theorem Valid.hasStep_part {d : Diagram} (hload : Graph.load d = .ok g) (hv : g.Valid) {n : Node}
    (hn : n ∈ g.nodes) {type : BlockType} (hb : n.block? = some type) {symbols : Symbols}
    {heading : Heading} (hread : Heading.read symbols n type = .ok heading)
    {blocks : List (List Part)} {s : Statement} (hs : heading.part n.id blocks = .statement s) :
    HasStep s := by
  cases s with
  | forLoop init cond step declares body node =>
    cases Heading.read_fits hread with
    | plain hkind hplain _ =>
      cases hs
      cases hkind
      cases hplain
    | forLoop =>
      obtain ⟨init', -, hread⟩ := bind_eq_ok.mp hread
      cases hread
      cases hs
      exact hv.isBlankText_given hload hn hb (by decide)
    | _ => cases hs
  | _ => trivial

/-- Loops of a program have steps. -/
theorem Builds.hasStep {d : Diagram} (h : g.Builds p) (hload : Graph.load d = .ok g)
    (hv : g.Valid) : ∀ s ∈ p.statements, HasStep s := by
  intro s hs
  obtain ⟨main, a, ha, hs⟩ := h.exists_statement hs
  obtain ⟨d', g', limit, hload', hv', hassemble⟩ := ha.exists_loaded hload hv
  obtain ⟨n, hn, type, symbols, heading, blocks, hb, hread, hpart⟩ :=
    exists_read_of_mem hassemble hs
  exact hv'.hasStep_part hload' hn hb hread hpart.symm

/-- **Suites are never empty, and levels rise below headers only.** Every statement and every
definition is written as its lines, and the level after it is the level before it. In the lines of a
program, a header is followed by a line that is one level deeper and not blank, and no other line is
followed by a deeper one. -/
theorem indented_laid {d : Diagram} (hload : Graph.load d = .ok g) (hv : g.Valid)
    (hb : g.Builds p) :
    (∀ fields s, Writes (Script.statement fields s) (Indented.statement fields s)) ∧
    (∀ f, Writes (Script.function f) (Indented.function f)) ∧
    (∀ fields f, Writes (Script.method fields f) (Indented.method fields f)) ∧
    (∀ c, Writes (Script.classDef c) (Indented.classDef c)) ∧
    Writes (Script.program p) (Indented.program p) ∧ Laid 0 (marks 0 (Script.program p)) := by
  refine ⟨Script.statement_writes, Script.function_writes, Script.method_writes,
    Script.classDef_writes, Script.program_writes p, ?_⟩
  exact (Script.program_laysOut (hb.proper hv) (hb.hasStep hload hv)).laid 0

/-- A class without members, a loop without a body, and a loop around a switch without cases. -/
def hollow : Diagram where
  nodes :=
    [{ id := "c", type := "classDefine", data := [("name", .str "Empty")] },
     { id := "w", type := "while", data := [("condition", .str "x > 0")] },
     { id := "f", type := "for",
       data := [("init", .str "i = 0"), ("condition", .str "x"), ("step", .str "i++")] },
     { id := "s", type := "switch", data := [("subject", .str "x"), ("cases", .str ",")] }]
  edges :=
    [{ id := "e1", source := "c", target := "w" },
     { id := "e2", source := "w", target := "f" },
     { id := "e3", source := "f", target := "s", sourceHandle := some "body" }]

/-- The graph of the diagram. -/
def hollowGraph : Graph where
  nodes := hollow.nodes.map Node.ofDrawn
  edges := hollow.edges.map Edge.ofDrawn
  nodup := show ["c", "w", "f", "s"].Nodup by decide

theorem load_hollow : Graph.load hollow = .ok hollowGraph :=
  load_eq (by simp [hollow, hasDeepList, Json.listDepth]) _

/-- The program of a branch with an empty block is laid out. -/
theorem indented_laid_hollow :
    Graph.load hollow = .ok hollowGraph ∧ hollowGraph.Valid ∧
      ∃ b, hollowGraph.build 100 [] = .ok b ∧
      Writes (Script.program b.program) (Indented.program b.program) ∧
      Laid 0 (marks 0 (Script.program b.program)) := by
  have hv : hollowGraph.Valid := by
    unfold Valid
    decide
  obtain ⟨b, hb⟩ : ∃ b, hollowGraph.build 100 [] = .ok b :=
    exists_build_of_buildWithin (n := 1) (by decide +kernel)
  obtain ⟨-, -, -, -, hwrites, hlaid⟩ := indented_laid load_hollow hv (.linked hb)
  exact ⟨load_hollow, hv, b, hb, hwrites, hlaid⟩

end Blockflow.Graph
