import Blockflow.Code.Render
import Blockflow.Proofs.Code.Braces
import Blockflow.Proofs.Code.Strokes
import Blockflow.Proofs.Code.Writers

/-!
# Balance

Code with braces is written by a writer that keeps a level (`Script`): a block is opened by a brace
and is one level deeper, and a brace closes it. The cases of a switch are deeper without braces
around them, a class in C++ is opened by hand, and the values of an array have braces in the middle
of a line. What is written of a block leads from a number of open braces back to the same number,
and from a level back to the same level (`Spans`); what follows the first part of a branch does so
between the braces of the branch.

So every statement and every definition of a program closes what it opens, and the text of a program
is balanced (`Graph.braced_balanced`), provided that there are no braces in its expressions. There
are none in its names if the graph is valid.
-/

namespace Blockflow.Braced

open Expression Stroke

/-! ## Strokes between braces -/

/-- The strokes write these lines. They start `a` levels deeper than the lines are, with as many
braces open, and end `b` levels deeper, with as many braces open. -/
structure Spans (a b : Nat) (strokes : List Stroke) (lines : List Line) : Prop where
  level : ∀ n : Int, levelAfter (n + a) strokes = n + b
  marks : ∀ n : Int, (Stroke.marks (n + a) strokes).map (fun m => (m.level, m.text)) =
    lines.map fun l => (n + l.level, l.text)
  leads : ∀ d, Leads (d + a) (d + b) (chars lines)

/-- The strokes write these lines and come back to the level that they started at, and the lines are
balanced. -/
structure Balances (strokes : List Stroke) (lines : List Line) : Prop where
  writes : Writes strokes lines
  balanced : Balanced (chars lines)

namespace Spans

variable {a b c : Nat} {strokes strokes' : List Stroke} {lines lines' : List Line}

theorem nil : Spans a a [] [] := ⟨fun _ => rfl, fun _ => rfl, fun _ => .nil⟩

/-- What ends at one depth can be followed by what starts there. -/
theorem append (h : Spans a b strokes lines) (h' : Spans b c strokes' lines') :
    Spans a c (strokes ++ strokes') (lines ++ lines') where
  level n := by rw [levelAfter_append, h.level, h'.level]
  marks n := by rw [marks_append, h.level, List.map_append, h.marks, h'.marks, List.map_append]
  leads d := by
    rw [chars_append]
    exact (h.leads d).append (h'.leads d)

/-- Strokes that write balanced lines span no depth. -/
theorem of_writes (h : Writes strokes lines) (hbalanced : Balanced (chars lines)) :
    Spans 0 0 strokes lines where
  level n := by
    show levelAfter (n + 0) strokes = n + 0
    rw [Int.add_zero, h.level]
  marks n := by
    show (Stroke.marks (n + 0) strokes).map _ = _
    rw [Int.add_zero, h.marks]
  leads _ := hbalanced.leads

/-- Strokes that span no depth write their lines. -/
theorem writes (h : Spans 0 0 strokes lines) : Writes strokes lines where
  level n := by
    have := h.level n
    rwa [show n + ((0 : Nat) : Int) = n from Int.add_zero n] at this
  marks n := by
    have := h.marks n
    rwa [show n + ((0 : Nat) : Int) = n from Int.add_zero n] at this

/-- Lines spanned at no depth are balanced. -/
theorem balanced (h : Spans 0 0 strokes lines) : Balanced (chars lines) :=
  leads_zero_iff.mp (h.leads 0)

theorem balances (h : Spans 0 0 strokes lines) : Balances strokes lines := ⟨h.writes, h.balanced⟩

theorem line {text : String} (h : Balanced text.toList) :
    Spans 0 0 [.line text] [Line.flush text] := by
  refine of_writes (.line text) ?_
  simpa [chars, Line.flush] using h

theorem blank : Spans 0 0 [.line ""] [Line.blank] := line (Braceless.balanced (by decide))

/-- Lines inside of a pair of braces are one level deeper. -/
theorem inner (h : Spans 0 0 strokes lines) : Spans 1 1 strokes (deepen lines) where
  level n := h.writes.level _
  marks n := by
    rw [h.writes.marks, deepen, List.map_map]
    refine List.map_congr_left fun l _ => ?_
    simp only [Function.comp_apply, Line.deeper, Prod.mk.injEq, and_true]
    omega
  leads d := by
    rw [chars_deepen]
    exact h.balanced.leads

/-- Lines that are one level deeper without braces around them. -/
theorem nested (h : Spans 0 0 strokes lines) : Spans 0 0 (nested strokes) (deepen lines) := by
  refine of_writes h.writes.nested ?_
  rw [chars_deepen]
  exact h.balanced

theorem flatMap {α : Type} {xs : List α} {f : α → List Stroke} {g : α → List Line}
    (h : ∀ x ∈ xs, Spans a a (f x) (g x)) : Spans a a (xs.flatMap f) (xs.flatMap g) := by
  induction xs with
  | nil => exact nil
  | cons x rest ih =>
    obtain ⟨hx, hrest⟩ := List.forall_mem_cons.mp h
    exact hx.append (ih hrest)

theorem map {α : Type} {xs : List α} {f : α → Stroke} {g : α → Line}
    (h : ∀ x ∈ xs, Spans a a [f x] [g x]) : Spans a a (xs.map f) (xs.map g) := by
  rw [List.map_eq_flatMap, List.map_eq_flatMap]
  exact flatMap h

/-- Strokes and lines stay together with empty lines between the groups. -/
theorem spaced {α : Type} {f : α → List Stroke} {g : α → List Line} : ∀ {xs : List α},
    (∀ x ∈ xs, Spans 0 0 (f x) (g x)) →
      Spans 0 0 (Stroke.spaced (xs.map f)) (Blockflow.spaced (xs.map g))
  | [], _ => nil
  | [x], h => h x List.mem_cons_self
  | x :: y :: rest, h => by
    obtain ⟨hx, hrest⟩ := List.forall_mem_cons.mp h
    exact hx.append (blank.append (spaced hrest))

end Spans

/-! ## Writing a program -/

/-- A program includes no other headers than these. -/
theorem includes_subset {p : Program} : includes p ⊆ ["any", "iostream", "string", "vector"] := by
  unfold includes
  split <;> split <;> decide

namespace Script

def opening (dialect : Dialect) (header : String) : List Stroke :=
  if dialect.braceAlone then [.line header, .line "\x7b", .indent]
  else [.line (header ++ " \x7b"), .indent]

def closing (text : String) : List Stroke := [.dedent, .line text]

def reopening (dialect : Dialect) (header : String) : List Stroke :=
  if dialect.braceAlone then closing "\x7d" ++ opening dialect header
  else [.dedent, .line ("\x7d " ++ header ++ " \x7b"), .indent]

def braced (dialect : Dialect) (header : String) (inner : List Stroke) : List Stroke :=
  opening dialect header ++ inner ++ closing "\x7d"

/-- A case of a switch: a level without braces. -/
def caseStrokes (label : String) (inner : List Stroke) : List Stroke :=
  .line label :: nested (inner ++ [.line "break;"])

/-- An opening goes one level deeper, also where the brace has a line of its own. -/
theorem opening_spans {dialect : Dialect} {header : String} (h : Braceless header) :
    Spans 0 1 (opening dialect header) (Braced.opening dialect header) := by
  have hblank : Braceless " " := by decide
  unfold opening Braced.opening
  split
  next =>
    refine ⟨fun n => by simp [levelAfter, next],
      fun n => by simp [Stroke.marks, mark?, next, Line.flush], fun d => ?_⟩
    simpa [chars, Line.flush] using (Leads.braceless h).append Leads.opening
  next =>
    refine ⟨fun n => by simp [levelAfter, next],
      fun n => by simp [Stroke.marks, mark?, Line.flush], fun d => ?_⟩
    simpa [chars, Line.flush] using
      (Leads.braceless h).append ((Leads.braceless hblank).append Leads.opening)

/-- A closing comes back one level. -/
theorem closing_spans {text : String} (h : ∀ d, Leads (d + 1) d text.toList) :
    Spans 1 0 (closing text) [Line.flush text] where
  level n := by simp [closing, levelAfter, next]
  marks n := by simp [closing, Stroke.marks, mark?, next, Line.flush]
  leads d := by simpa [chars, Line.flush] using h d

/-- A closing with the next opening stays at its depth. -/
theorem reopening_spans {dialect : Dialect} {header : String} (h : Braceless header) :
    Spans 1 1 (reopening dialect header) (Braced.reopening dialect header) := by
  have hblank : Braceless " " := by decide
  have hopening : Spans 0 1 (opening dialect header) (Braced.opening dialect header) :=
    opening_spans h
  unfold reopening Braced.reopening
  rw [Braced.opening] at hopening
  -- where a brace stands alone, a block is closed and another one is opened; else it is one line
  split at hopening
  next halone =>
    rw [if_pos halone, if_pos halone]
    exact (closing_spans fun d => Leads.closing).append hopening
  next halone =>
    rw [if_neg halone, if_neg halone]
    refine ⟨fun n => by simp [levelAfter, next],
      fun n => by simp [Stroke.marks, mark?, next, Line.flush], fun d => ?_⟩
    simpa [chars, Line.flush] using Leads.closing.append ((Leads.braceless hblank).append
      ((Leads.braceless h).append ((Leads.braceless hblank).append Leads.opening)))

/-- A header without braces and balanced lines are balanced between braces. -/
theorem braced_spans {dialect : Dialect} {header : String} {inner : List Stroke} {lines : List Line}
    (h : Braceless header) (hinner : Spans 0 0 inner lines) :
    Spans 0 0 (braced dialect header inner) (Braced.braced dialect header lines) :=
  ((opening_spans h).append hinner.inner).append (closing_spans fun _ => .closing)

theorem caseStrokes_spans {label : String} {inner : List Stroke} {lines : List Line}
    (h : Braceless label) (hinner : Spans 0 0 inner lines) :
    Spans 0 0 (caseStrokes label inner) (Site.caseLines label lines) := by
  refine (Spans.line h.balanced).append (Spans.nested ?_)
  exact hinner.append (.line (Braceless.balanced (by decide)))

/-! ## Statements -/

def writer (site : Site) : Writer Stroke where
  leaf s := (site.leaf? s).toList.map .line
  first test inner := opening site.dialect ("if (" ++ site.testText test ++ ")") ++ inner
  next test inner := reopening site.dialect ("else if (" ++ site.testText test ++ ")") ++ inner
  final inner := reopening site.dialect "else" ++ inner
  closing := closing "\x7d"
  labels type values := !site.switchAsChain type values
  labelled subject := braced site.dialect ("switch (" ++ site.expr subject ++ ")")
  label value? := caseStrokes (site.labelText value?)
  forLoop init cond step declares _ :=
    braced site.dialect (site.loopHeader init cond step declares)
  whileLoop cond := braced site.dialect ("while (" ++ site.expr cond ++ ")")

def statement (site : Site) : Statement → List Stroke := (writer site).statement

def block (site : Site) : List Statement → List Stroke := (writer site).block

variable {site : Site}

/-- A statement of one line spans no depth. -/
theorem leaf_spans {s : Statement} (hs : IsBraceless (.statement s)) :
    Spans 0 0 ((site.leaf? s).toList.map .line) ((site.leaf? s).toList.map Line.flush) := by
  cases h : site.leaf? s with
  | none => exact .nil
  | some text => exact .line (Site.balanced_leaf hs h)

/-- The tests of a chain have no braces. -/
theorem braceless_testText {w : Writer Stroke} {s : Statement} {test : Test}
    (hchains : w.Chains s test) (hs : IsBraceless (.statement s)) :
    Braceless (site.testText test) := by
  cases hchains with
  | branch => exact Site.braceless_expr (hs.expressions _ List.mem_cons_self)
  | switch _ hvalue =>
    obtain ⟨hsubject, hvalues⟩ := List.forall_mem_cons.mp hs.expressions
    simp +decide [Site.testText, braceless_append, Site.braceless_expr hsubject,
      Site.braceless_expr (hvalues _ hvalue)]

theorem braceless_labelText {value? : Option String} (h : ∀ value ∈ value?, Braceless value) :
    Braceless (site.labelText value?) := by
  cases value? with
  | none => exact (by decide : Braceless "default:")
  | some value =>
    simp +decide [Site.labelText, braceless_append, Site.braceless_expr (h value rfl)]

/-- The strokes of the writer close what they open. The parts of a chain after the first one stand
between the braces of the chain. -/
theorem writer_spans (site : Site) :
    (writer site).Related (Braced.writer site) (fun s => IsBraceless (.statement s))
      fun i j _ strokes lines => Spans i.toNat j.toNat strokes lines where
  nil _ := .nil
  append h h' := h.append h'
  leaf hs _ := leaf_spans hs
  first hchains hs h := by
    have htest : Braceless (site.testText _) := braceless_testText hchains hs
    exact (opening_spans (by simp +decide [braceless_append, htest])).append h.inner
  next hchains hs h := by
    have htest : Braceless (site.testText _) := braceless_testText hchains hs
    exact (reopening_spans (by simp +decide [braceless_append, htest])).append h.inner
  final _ _ h := (reopening_spans (by decide)).append h.inner
  closing _ _ := closing_spans fun _ => .closing
  labels := rfl
  labelled hs _ h := by
    have hsubject : Braceless (site.expr _) :=
      Site.braceless_expr (hs.expressions _ List.mem_cons_self)
    exact braced_spans (by simp +decide [braceless_append, hsubject]) h
  label hs _ hvalue h := by
    obtain ⟨-, hvalues⟩ := List.forall_mem_cons.mp hs.expressions
    exact caseStrokes_spans (braceless_labelText fun v hv => hvalues v (hvalue v hv)) h
  forLoop hs h := by
    have hexprs := hs.expressions
    simp only [Part.expressions, Statement.expressions, List.forall_mem_cons] at hexprs
    obtain ⟨hinit, hcond, hstep, -⟩ := hexprs
    exact braced_spans (Site.braceless_loopHeader hinit hcond hstep _) h
  whileLoop hs h := by
    have hcond : Braceless (site.expr _) :=
      Site.braceless_expr (hs.expressions _ List.mem_cons_self)
    exact braced_spans (by simp +decide [braceless_append, hcond]) h

/-- A block without braces in its texts spans no depth. -/
theorem block_spans {b : Block} (h : ∀ s ∈ Block.walk b, IsBraceless (.statement s)) :
    Spans 0 0 (block site b) (Braced.block site b) :=
  (writer_spans site).block h

theorem statement_spans {s : Statement} (hs : IsBraceless (.statement s))
    (h : ∀ b ∈ s.blocks, ∀ t ∈ Block.walk b, IsBraceless (.statement t)) :
    Spans 0 0 (statement site s) (Braced.statement site s) :=
  (writer_spans site).statement hs fun b hb => (writer_spans site).blockRelated (h b hb)

/-! ## Definitions -/

def function (site : Site) (modifiers : String) (f : FunctionDef) : List Stroke :=
  braced site.dialect (modified modifiers (signature site f)) (block site f.body)

def constructors (site : Site) (modifiers : String) (c : ClassDef) : List Stroke :=
  match site.dialect with
  | .cpp =>
    let inits := commaList (c.fields.map fun d => d.name ++ "(" ++ d.name ++ ")")
    [.line (c.name ++ "() \x7b\x7d"),
     .line (c.name ++ "(" ++ fieldParams site c ++ ") : " ++ inits ++ " \x7b\x7d")]
  | .java | .csharp =>
    braced site.dialect (modified modifiers (c.name ++ "()")) [] ++ .line "" ::
      braced site.dialect (modified modifiers (c.name ++ "(" ++ fieldParams site c ++ ")"))
        (c.fields.map fun d => .line ("this." ++ d.name ++ " = " ++ d.name ++ ";"))

def classBody (site : Site) (fieldModifiers methodModifiers : String) (c : ClassDef) :
    List Stroke :=
  c.fields.map (fun d => .line (fieldLine site fieldModifiers d).text) ++
    (if c.hasConstructor then .line "" :: constructors site methodModifiers c else []) ++
    (if c.fields.isEmpty || c.methods.isEmpty then [] else [.line ""]) ++
    Stroke.spaced (c.methods.map (function { site with inClass := true } methodModifiers))

/-- A class. In C++ the class is opened by hand, as a label follows the brace. -/
def classDef (site : Site) (c : ClassDef) : List Stroke :=
  match site.dialect with
  | .java => braced site.dialect ("class " ++ c.name) (classBody site "" "public" c)
  | .csharp => braced site.dialect ("class " ++ c.name) (classBody site "public" "public" c)
  | .cpp =>
    [.line ("class " ++ c.name ++ " \x7b"), .line "public:", .indent] ++ classBody site "" "" c ++
      closing "\x7d;"

def definitions (groups : List (List Stroke)) : List Stroke := groups.flatMap (· ++ [.line ""])

def prototypes (site : Site) (p : Program) : List Stroke :=
  if 1 < p.functions.length || (!p.functions.isEmpty && !p.classes.isEmpty) then
    p.functions.map (fun f => .line (signature site f ++ ";")) ++ [.line ""]
  else []

def cppProgram (p : Program) : List Stroke :=
  let site : Site := { dialect := .cpp }
  (includes p).map (fun h => .line ("#include <" ++ h ++ ">")) ++ [.line ""] ++
    prototypes site p ++ definitions (p.classes.map (classDef site)) ++
    definitions (p.functions.map (function site "")) ++
    braced .cpp "int main()" (block site p.main ++ [.line "return 0;"])

def classProgram (dialect : Dialect) (head : List Stroke) (mainClass modifiers entry : String)
    (p : Program) : List Stroke :=
  let site : Site := { dialect, functions := p.functions.map FunctionDef.name }
  head ++ definitions (p.classes.map (classDef site)) ++
    braced dialect ("public class " ++ mainClass)
      (definitions (p.functions.map (function site modifiers)) ++
        braced dialect entry (block site p.main))

def program (p : Program) : Dialect → List Stroke
  | .cpp => cppProgram p
  | .java => classProgram .java [] "Main" "static" "public static void main(String[] args)" p
  | .csharp =>
    classProgram .csharp [.line "using System;", .line ""] "Program" "public static"
      "public static void Main(string[] args)" p

/-- A function without braces in its texts spans no depth. -/
theorem function_spans {modifiers : String} (hmodifiers : Braceless modifiers) {f : FunctionDef}
    (h : ∀ q ∈ f.walk, IsBraceless q) :
    Spans 0 0 (function site modifiers f) (Braced.function site modifiers f) := by
  obtain ⟨hf, hbody⟩ := List.forall_mem_cons.mp h
  refine braced_spans (braceless_modified hmodifiers (braceless_signature hf)) ?_
  exact block_spans fun s hs => hbody _ (List.mem_map_of_mem hs)

/-- A line that ends in an empty pair of braces. -/
theorem emptyBraces_spans {header text : String} (h : Braceless header)
    (htext : text.toList = header.toList ++ ['\x7b', '\x7d']) :
    Spans 0 0 [.line text] [Line.flush text] := by
  refine .line ?_
  rw [htext]
  exact leads_zero_iff.mp ((Leads.braceless h).append (Leads.opening.append Leads.closing))

/-- The constructors span no depth: their braces are closed on the same line or below it. -/
theorem constructors_spans {modifiers : String} (hmodifiers : Braceless modifiers) {c : ClassDef}
    (hname : Braceless c.name) (h : ∀ d ∈ c.fields, IsBraceless (.statement (.declare d))) :
    Spans 0 0 (constructors site modifiers c) (Braced.constructors site modifiers c) := by
  have hparams : Braceless (fieldParams site c) := braceless_fieldParams h
  have hfield : ∀ d ∈ c.fields, Braceless d.name := fun d hd =>
    (h d hd).names d.name List.mem_cons_self
  cases hdialect : site.dialect with
  | cpp =>
    have hinits : Braceless (commaList (c.fields.map fun d => d.name ++ "(" ++ d.name ++ ")")) := by
      refine braceless_commaList (List.forall_mem_map.mpr fun d hd => ?_)
      simp +decide [braceless_append, hfield d hd]
    have hnone : Braceless (c.name ++ "() ") := by simp +decide [braceless_append, hname]
    have hall : Braceless (c.name ++ "(" ++ fieldParams site c ++ ") : " ++
        commaList (c.fields.map fun d => d.name ++ "(" ++ d.name ++ ")") ++ " ") := by
      simp +decide [braceless_append, hname, hparams, hinits]
    rw [constructors, Braced.constructors, hdialect]
    exact (emptyBraces_spans hnone (by simp)).append (emptyBraces_spans hall (by simp))
  | _ =>
    have hnone : Braceless (modified modifiers (c.name ++ "()")) :=
      braceless_modified hmodifiers (by simp +decide [braceless_append, hname])
    have hall : Braceless (modified modifiers (c.name ++ "(" ++ fieldParams site c ++ ")")) :=
      braceless_modified hmodifiers (by simp +decide [braceless_append, hname, hparams])
    rw [constructors, Braced.constructors, hdialect]
    refine (braced_spans hnone .nil).append (Spans.blank.append (braced_spans hall (.map ?_)))
    exact fun d hd =>
      .line (Braceless.balanced (by simp +decide [braceless_append, hfield d hd]))

/-- The inside of a class spans no depth. -/
theorem classBody_spans {fieldModifiers methodModifiers : String}
    (hfields : Braceless fieldModifiers) (hmethods : Braceless methodModifiers) {c : ClassDef}
    (h : ∀ q ∈ c.walk, IsBraceless q) :
    Spans 0 0 (classBody site fieldModifiers methodModifiers c)
      (Braced.classBody site fieldModifiers methodModifiers c) := by
  have hdeclared : ∀ d ∈ c.fields, IsBraceless (.statement (.declare d)) := fun d hd =>
    h _ (ClassDef.declare_mem_walk hd)
  have hname : Braceless c.name := (h _ List.mem_cons_self).names _ List.mem_cons_self
  simp only [classBody, Braced.classBody, List.isEmpty_map]
  refine ((Spans.append (b := 0) (.map ?_) ?_).append (b := 0) ?_).append (.spaced ?_)
  · exact fun d hd => .line (braceless_fieldLine hfields (hdeclared d hd)).balanced
  · split
    next => exact Spans.blank.append (constructors_spans hmethods hname hdeclared)
    next => exact .nil
  · split
    next => exact .nil
    next => exact .blank
  · exact fun f hf => function_spans hmethods fun q hq => h q (ClassDef.walk_method_subset hf hq)

/-- The start of a class in C++: below the brace there is a label. -/
theorem classOpening_spans {header : String} (h : Braceless header) :
    Spans 0 1 [.line (header ++ " \x7b"), .line "public:", .indent]
      [Line.flush (header ++ " \x7b"), Line.flush "public:"] where
  level n := by simp [levelAfter, next]
  marks n := by simp [Stroke.marks, mark?, next, Line.flush]
  leads d := by
    have hblank : Braceless " " := by decide
    have hlabel : Braceless "public:" := by decide
    simpa [chars, Line.flush] using (Leads.braceless h).append
      ((Leads.braceless hblank).append (Leads.opening.append (Leads.braceless hlabel)))

/-- A class spans no depth. -/
theorem classDef_spans {c : ClassDef} (h : ∀ q ∈ c.walk, IsBraceless q) :
    Spans 0 0 (classDef site c) (Braced.classDef site c) := by
  have hname : Braceless c.name := (h _ List.mem_cons_self).names _ List.mem_cons_self
  have hheader : Braceless ("class " ++ c.name) := by simp +decide [braceless_append, hname]
  have hnone : Braceless "" := by decide
  have hpublic : Braceless "public" := by decide
  have hsemicolon : Braceless ";" := by decide
  unfold classDef Braced.classDef
  cases site.dialect with
  | java => exact braced_spans hheader (classBody_spans hnone hpublic h)
  | csharp => exact braced_spans hheader (classBody_spans hpublic hpublic h)
  | cpp =>
    refine ((classOpening_spans hheader).append (classBody_spans hnone hnone h).inner).append
      (closing_spans fun d => ?_)
    exact Leads.closing.append (Leads.braceless hsemicolon)

theorem definitions_spans {α : Type} {xs : List α} {f : α → List Stroke} {g : α → List Line}
    (h : ∀ x ∈ xs, Spans 0 0 (f x) (g x)) :
    Spans 0 0 (definitions (xs.map f)) (Braced.definitions (xs.map g)) := by
  rw [definitions, Braced.definitions, List.flatMap_map, List.flatMap_map]
  exact .flatMap fun x hx => (h x hx).append .blank

theorem prototypes_spans {p : Program}
    (h : ∀ f ∈ p.functions, ∀ q ∈ f.walk, IsBraceless q) :
    Spans 0 0 (prototypes site p) (Braced.prototypes site p) := by
  unfold prototypes Braced.prototypes
  split
  next =>
    refine (Spans.map fun f hf => .line (Braceless.balanced ?_)).append .blank
    have hsignature : Braceless (signature site f) :=
      braceless_signature (h f hf _ List.mem_cons_self)
    simp +decide [braceless_append, hsignature]
  next => exact .nil

section

variable {p : Program} (hclasses : ∀ c ∈ p.classes, ∀ q ∈ c.walk, IsBraceless q)
  (hfunctions : ∀ f ∈ p.functions, ∀ q ∈ f.walk, IsBraceless q)
  (hmain : ∀ s ∈ Block.walk p.main, IsBraceless (.statement s))
include hclasses hfunctions hmain

/-- A C++ program spans no depth. -/
theorem cppProgram_spans : Spans 0 0 (cppProgram p) (Braced.cppProgram p) := by
  have hhead : Spans 0 0 ((includes p).map fun h => .line ("#include <" ++ h ++ ">"))
      ((includes p).map fun h => Line.flush ("#include <" ++ h ++ ">")) := by
    refine .map fun h hh => .line (Braceless.balanced ?_)
    have hnames : ∀ h ∈ ["any", "iostream", "string", "vector"], Braceless h := by decide
    simp +decide [braceless_append, hnames h (includes_subset hh)]
  have hreturn : Spans 0 0 [.line "return 0;"] [Line.flush "return 0;"] :=
    .line (Braceless.balanced (by decide))
  refine ((((hhead.append .blank).append (prototypes_spans hfunctions)).append
    (definitions_spans fun c hc => classDef_spans (hclasses c hc))).append
    (definitions_spans fun f hf => function_spans (by decide) (hfunctions f hf))).append ?_
  exact braced_spans (by decide) ((block_spans hmain).append hreturn)

/-- A program that stands in a class of its own spans no depth. -/
theorem classProgram_spans {dialect : Dialect} {head : List Stroke} {lines : List Line}
    {mainClass modifiers entry : String} (hhead : Spans 0 0 head lines)
    (hclass : Braceless mainClass) (hmodifiers : Braceless modifiers) (hentry : Braceless entry) :
    Spans 0 0 (classProgram dialect head mainClass modifiers entry p)
      (Braced.classProgram dialect lines mainClass modifiers entry p) := by
  refine (hhead.append (definitions_spans fun c hc => classDef_spans (hclasses c hc))).append
    (braced_spans ?_ ?_)
  · simp +decide [braceless_append, hclass]
  · exact (definitions_spans fun f hf => function_spans hmodifiers (hfunctions f hf)).append
      (braced_spans hentry (block_spans hmain))

end

/-- The program spans no depth in every dialect. -/
theorem program_spans {p : Program} (h : ∀ q ∈ p.walk, IsBraceless q) (dialect : Dialect) :
    Spans 0 0 (program p dialect) (Braced.program p dialect) := by
  simp only [Program.walk, List.forall_mem_append, List.mem_flatMap, List.forall_mem_map,
    forall_exists_index, and_imp] at h
  obtain ⟨⟨hclasses, hfunctions⟩, hmain⟩ := h
  have hclasses : ∀ c ∈ p.classes, ∀ q ∈ c.walk, IsBraceless q := fun c hc q hq =>
    hclasses q c hc hq
  have hfunctions : ∀ f ∈ p.functions, ∀ q ∈ f.walk, IsBraceless q := fun f hf q hq =>
    hfunctions q f hf hq
  cases dialect with
  | cpp => exact cppProgram_spans hclasses hfunctions hmain
  | java =>
    exact classProgram_spans hclasses hfunctions hmain .nil (by decide) (by decide) (by decide)
  | csharp =>
    have husing : Spans 0 0 [.line "using System;"] [Line.flush "using System;"] :=
      .line (Braceless.balanced (by decide))
    exact classProgram_spans hclasses hfunctions hmain (husing.append .blank) (by decide)
      (by decide) (by decide)

end Script

end Blockflow.Braced

/-! ## Programs of valid graphs -/

namespace Blockflow.Graph

open Braced Stroke

variable {g : Graph} {p : Program}

/-- The names of a valid graph hold no braces, so only the expressions have to be asked for. -/
theorem Builds.isBraceless (h : g.Builds p) (hv : g.Valid)
    (hfree : ∀ s ∈ p.statements, ∀ text ∈ s.expressions, Braceless text) :
    ∀ q ∈ p.walk, IsBraceless q := by
  refine fun q hq => ⟨fun name hname => .of_passesLine (h.passesLine_names hv q hq name hname), ?_⟩
  cases q with
  | statement s => exact hfree s (Program.mem_statements.mpr hq)
  | _ => exact fun text htext => absurd htext List.not_mem_nil

/-- **Code with braces is balanced.** Every statement and every definition of a program is written
as its lines, the level after it is the level before it, and its lines are balanced. The same holds
of the program, and the text of the program is balanced. -/
theorem braced_balanced (hv : g.Valid) (hb : g.Builds p)
    (hfree : ∀ s ∈ p.statements, ∀ text ∈ s.expressions, Braceless text) (dialect : Dialect) :
    (∀ site : Site, site.dialect = dialect →
      (∀ s ∈ p.statements, Balances (Script.statement site s) (Braced.statement site s)) ∧
      (∀ modifiers, Braceless modifiers →
        ∀ f, f ∈ p.functions ∨ (∃ c ∈ p.classes, f ∈ c.methods) →
          Balances (Script.function site modifiers f) (Braced.function site modifiers f)) ∧
      ∀ c ∈ p.classes, Balances (Script.classDef site c) (Braced.classDef site c) ∧
        ∀ modifiers modifiers', Braceless modifiers → Braceless modifiers' →
          Balances (Script.classBody site modifiers modifiers' c)
            (Braced.classBody site modifiers modifiers' c)) ∧
    Balances (Script.program p dialect) (Braced.program p dialect) ∧
    levelAfter 0 (Script.program p dialect) = 0 ∧
    Balanced (writeLines (p.lines dialect.language)).toList := by
  have hfree := hb.isBraceless hv hfree
  have hclasses : ∀ c ∈ p.classes, ∀ q ∈ c.walk, IsBraceless q := fun c hc q hq =>
    hfree q (Program.walk_class_subset hc hq)
  have hprogram := (Script.program_spans hfree dialect).balances
  refine ⟨fun site _ => ⟨fun s hs => ?_, fun modifiers hmodifiers f hf => ?_, fun c hc => ⟨?_, ?_⟩⟩,
    hprogram, hprogram.writes.level 0, ?_⟩
  -- the blocks inside of a statement are blocks of the program
  · have hstatement : ∀ t ∈ p.statements, IsBraceless (.statement t) := fun t ht =>
      hfree _ (Program.mem_statements.mp ht)
    refine (Script.statement_spans (hstatement s hs) fun b hblock t ht => ?_).balances
    exact hstatement t (Program.walk_subset hs b hblock ht)
  · refine (Script.function_spans hmodifiers fun q hq => ?_).balances
    exact hfree q (Program.walk_function_subset hf hq)
  · exact (Script.classDef_spans (hclasses c hc)).balances
  · exact fun modifiers modifiers' h h' => (Script.classBody_spans h h' (hclasses c hc)).balances
  · cases dialect <;> exact hprogram.balanced.writeLines

/-- A class with a field and a method, an object, an array, a chain of branches and a switch. -/
def boxed : Graph where
  nodes :=
    [{ id := "c", type := "classDefine", data := [("name", .text "Box")] },
     { id := "v", type := "assign", data := [("name", .text "v"), ("value", .text "1")] },
     { id := "m", type := "functionDefine", data := [("name", .text "show")] },
     { id := "p", type := "print", data := [("value", .text "v")] },
     { id := "o", type := "createObject",
       data := [("className", .text "Box"), ("name", .text "b"), ("args", .text "2")] },
     { id := "a", type := "array", data := [("name", .text "xs"), ("values", .text "1, 2")] },
     { id := "t", type := "if", data := [("condition", .text "x > 0")] },
     { id := "u", type := "if", data := [("condition", .text "x < 0 && y")] },
     { id := "q", type := "print", data := [("value", .text "x")] },
     { id := "r", type := "print", data := [("value", .text "-x")] },
     { id := "s", type := "switch", data := [("subject", .text "x"), ("cases", .text "1, 2")] },
     { id := "d", type := "print", data := [("value", .text "'else'")] }]
  edges :=
    [{ id := "e1", source := "c", target := "v", role := some .body },
     { id := "e2", source := "v", target := "m", role := some .next },
     { id := "e3", source := "m", target := "p", role := some .body },
     { id := "e4", source := "c", target := "o", role := some .next },
     { id := "e5", source := "o", target := "a", role := some .next },
     { id := "e6", source := "a", target := "t", role := some .next },
     { id := "e7", source := "t", target := "q", role := some .whenTrue },
     { id := "e8", source := "t", target := "u", role := some .whenFalse },
     { id := "e9", source := "u", target := "r", role := some .whenTrue },
     { id := "e10", source := "t", target := "s", role := some .next },
     { id := "e11", source := "s", target := "d", role := some .default }]
  nodup := by decide

/-- A program with a class and its fields is balanced in every dialect. -/
theorem braced_balanced_boxed :
    boxed.Valid ∧ ∃ b, boxed.build 100 [] = .ok b ∧
      (∀ s ∈ b.program.statements, ∀ text ∈ s.expressions, Braceless text) ∧
      ∀ dialect, Balances (Script.program b.program dialect) (Braced.program b.program dialect) ∧
        Balanced (writeLines (b.program.lines dialect.language)).toList := by
  have hv : boxed.Valid := by
    unfold Valid
    decide
  obtain ⟨b, hb, hfree⟩ : ∃ b, boxed.build 100 [] = .ok b ∧
      decide (∀ s ∈ b.program.statements, ∀ text ∈ s.expressions, Braceless text) = true :=
    exists_build_of_any (n := 1) (by decide +kernel)
  refine ⟨hv, b, hb, of_decide_eq_true hfree, fun dialect => ?_⟩
  obtain ⟨-, hprogram, -, htext⟩ :=
    braced_balanced hv (.linked hb) (of_decide_eq_true hfree) dialect
  exact ⟨hprogram, htext⟩

end Blockflow.Graph
