import Blockflow.Proofs.Code.CppDrafts

/-!
# Lines of a C++ program

Every line of a C++ program has a text of one of a few forms (`Braced.LineText`): it is the text of
a statement, a line that a statement puts around its blocks, or it belongs to a definition or to the
program (`Braced.lineText_of_mem`). So what is to be shown of all lines is shown form by form. In
the other direction, the header of every loop is a line of the program (`Braced.exists_loopHeader`).
-/

namespace Blockflow.Braced

open Expression

/-! ## Texts of lines -/

/-- The text of a line of a program in C++. -/
inductive LineText (p : Program) : String → Prop where
  | fixed {text : String} :
      text ∈ ["", "public:", "\x7d;", "\x7d", "int main() \x7b", "return 0;"] → LineText p text
  | included {name : String} : name ∈ includes p → LineText p ("#include <" ++ name ++ ">")
  | signature {f : FunctionDef} {ending : String} :
      f ∈ p.functions ∨ (∃ c ∈ p.classes, f ∈ c.methods) → ending ∈ [";", " \x7b"] →
      LineText p (signature cpp f ++ ending)
  | opening {c : ClassDef} : c ∈ p.classes → LineText p ("class " ++ c.name ++ " \x7b")
  | field {c : ClassDef} {d : Declaration} : c ∈ p.classes → d ∈ c.fields →
      LineText p (fieldLine cpp "" d).text
  | constructor {c : ClassDef} {l : Line} : c ∈ p.classes → l ∈ constructors cpp "" c →
      LineText p l.text
  | leaf {params : List String} {body : Block} {s : Statement} {text : String} :
      p.HasBody params body → s ∈ Block.walk body → cpp.leaf? s = some text → LineText p text
  | frame {params : List String} {body : Block} {s : Statement} {text : String} :
      p.HasBody params body → s ∈ Block.walk body → text ∈ frames cpp s → LineText p text

/-- All lines have such texts. -/
def AllTexts (P : String → Prop) (lines : List Line) : Prop := ∀ l ∈ lines, P l.text

section

variable {P : String → Prop} {lines more : List Line}

theorem allTexts_nil : AllTexts P [] := List.forall_mem_nil _

theorem allTexts_append : AllTexts P (lines ++ more) ↔ AllTexts P lines ∧ AllTexts P more :=
  List.forall_mem_append

theorem allTexts_flush {text : String} : AllTexts P [Line.flush text] ↔ P text :=
  List.forall_mem_singleton

theorem allTexts_deepen : AllTexts P (deepen lines) ↔ AllTexts P lines := by
  rw [AllTexts, deepen, List.forall_mem_map]
  rfl

/-- Braces add a header and a closing line. -/
theorem allTexts_braced {header : String} (hheader : P (header ++ " \x7b")) (hclose : P "\x7d")
    (h : AllTexts P lines) : AllTexts P (braced .cpp header lines) := by
  rw [braced, allTexts_append, allTexts_append, allTexts_deepen]
  exact ⟨⟨allTexts_flush.mpr hheader, h⟩, allTexts_flush.mpr hclose⟩

theorem allTexts_definitions {groups : List (List Line)} (hblank : P "")
    (h : ∀ lines ∈ groups, AllTexts P lines) : AllTexts P (definitions groups) := by
  rw [AllTexts, definitions, List.forall_mem_flatMap]
  exact fun lines hlines => allTexts_append.mpr ⟨h lines hlines, allTexts_flush.mpr hblank⟩

/-- Spacing adds only empty lines. -/
theorem allTexts_spaced (hblank : P "") : ∀ {groups : List (List Line)},
    (∀ lines ∈ groups, AllTexts P lines) → AllTexts P (spaced groups)
  | [], _ => allTexts_nil
  | [lines], h => h lines List.mem_cons_self
  | lines :: next :: more, h => by
    obtain ⟨hlines, hmore⟩ := List.forall_mem_cons.mp h
    exact allTexts_append.mpr ⟨hlines,
      allTexts_append.mpr ⟨allTexts_flush.mpr hblank, allTexts_spaced hblank hmore⟩⟩

end

theorem frames_cppSite (inClass : Bool) (s : Statement) :
    frames (cppSite inClass) s = frames cpp s := by
  cases s <;> rfl

section

variable {p : Program} {inClass : Bool}

/-- A block writes lines of the listed forms. -/
theorem lineText_block {params : List String} {body : Block} (hbody : p.HasBody params body) :
    AllTexts (LineText p) (block (cppSite inClass) body) := by
  refine ((Block.woven body).2 (cppSite inClass)).forall_text (fun s hs text htext => ?_) ?_
  · rw [Draft.leaf?_cppSite] at htext
    exact .leaf hbody (List.mem_filter.mp hs).1 htext
  · refine List.forall_mem_flatMap.mpr fun s hs text htext => ?_
    rw [frames_cppSite] at htext
    exact .frame hbody hs htext

/-- A function writes lines of the listed forms. -/
theorem lineText_function {f : FunctionDef} (hbody : p.HasBody (f.params.map Param.name) f.body)
    (hf : f ∈ p.functions ∨ ∃ c ∈ p.classes, f ∈ c.methods) :
    AllTexts (LineText p) (function (cppSite inClass) "" f) :=
  allTexts_braced (.signature hf (by simp)) (.fixed (by simp)) (lineText_block hbody)

/-- The inside of a class writes lines of the listed forms. -/
theorem lineText_classBody {c : ClassDef} (hc : c ∈ p.classes) :
    AllTexts (LineText p) (classBody cpp "" "" c) := by
  have hblank : LineText p "" := .fixed (by simp)
  rw [classBody, allTexts_append, allTexts_append, allTexts_append]
  refine ⟨⟨⟨?_, ?_⟩, ?_⟩, ?_⟩
  · exact List.forall_mem_map.mpr fun d hd => .field hc hd
  · split
    next => exact List.forall_mem_cons.mpr ⟨hblank, fun l hl => .constructor hc hl⟩
    next => exact allTexts_nil
  · split
    next => exact allTexts_nil
    next => exact allTexts_flush.mpr hblank
  · exact allTexts_spaced hblank (List.forall_mem_map.mpr fun f hf =>
      lineText_function (.method hc hf) (Or.inr ⟨c, hc, hf⟩))

/-- A class writes lines of the listed forms. -/
theorem lineText_classDef {c : ClassDef} (hc : c ∈ p.classes) :
    AllTexts (LineText p) (classDef cpp c) := by
  have hheader : AllTexts (LineText p)
      [Line.flush ("class " ++ c.name ++ " \x7b"), Line.flush "public:"] :=
    List.forall_mem_cons.mpr ⟨.opening hc, allTexts_flush.mpr (.fixed (by simp))⟩
  refine allTexts_append.mpr ⟨allTexts_append.mpr ⟨hheader, ?_⟩, ?_⟩
  · exact allTexts_deepen.mpr (lineText_classBody hc)
  · exact allTexts_flush.mpr (.fixed (by simp))

/-- **Every line of a C++ program has a text of one of these forms.** -/
theorem lineText_of_mem : ∀ l ∈ p.lines .cpp, LineText p l.text := by
  have hblank : LineText p "" := .fixed (by simp)
  have hprototypes : AllTexts (LineText p) (prototypes cpp p) := by
    rw [prototypes]
    split
    next =>
      refine allTexts_append.mpr ⟨List.forall_mem_map.mpr fun f hf => ?_,
        allTexts_flush.mpr hblank⟩
      exact .signature (Or.inl hf) (by simp)
    next => exact allTexts_nil
  show AllTexts (LineText p) (cppProgram p)
  rw [cppProgram, allTexts_append, allTexts_append, allTexts_append, allTexts_append,
    allTexts_append]
  refine ⟨⟨⟨⟨⟨?_, allTexts_flush.mpr hblank⟩, hprototypes⟩, ?_⟩, ?_⟩, ?_⟩
  · exact List.forall_mem_map.mpr fun name hname => .included hname
  · exact allTexts_definitions hblank (List.forall_mem_map.mpr fun c hc => lineText_classDef hc)
  · exact allTexts_definitions hblank (List.forall_mem_map.mpr fun f hf =>
      lineText_function (.function hf) (Or.inl hf))
  · refine allTexts_braced (.fixed (by simp)) (.fixed (by simp)) (allTexts_append.mpr ⟨?_, ?_⟩)
    · exact lineText_block .main
    · exact allTexts_flush.mpr (.fixed (by simp))

end

/-! ## Headers of loops -/

/-- Only the headers of loops are collected. -/
def headerPieces : Writer.Pieces String where
  leaf _ := []
  test _ := []
  forLoop init cond step declares := [cpp.loopHeader init cond step declares ++ " \x7b"]
  whileLoop _ := []

/-- Some lines have these texts, and maybe others as well. -/
def HasTexts (texts : List String) (lines : List Line) : Prop := texts ⊆ lines.map Line.text

section

variable {texts more : List String} {lines others : List Line}

theorem HasTexts.append (h : HasTexts texts lines) (h' : HasTexts more others) :
    HasTexts (texts ++ more) (lines ++ others) := by
  rw [HasTexts, List.map_append, List.append_subset]
  exact ⟨List.Subset.trans h (List.subset_append_left _ _),
    List.Subset.trans h' (List.subset_append_right _ _)⟩

theorem HasTexts.mono (h : HasTexts texts lines) (hsub : lines ⊆ others) : HasTexts texts others :=
  List.Subset.trans h (List.map_subset _ hsub)

/-- Indentation does not change the texts of lines. -/
theorem hasTexts_deepen : HasTexts texts (deepen lines) ↔ HasTexts texts lines := by
  rw [HasTexts, deepen, List.map_map]
  rfl

theorem HasTexts.behind (h : HasTexts texts lines) (before : List Line) :
    HasTexts texts (before ++ deepen lines) :=
  (hasTexts_deepen.mpr h).mono (List.subset_append_right _ _)

theorem HasTexts.concat (h : HasTexts texts lines) (l : Line) : HasTexts texts (lines ++ [l]) :=
  h.mono (List.subset_append_left _ _)

end

/-- Each group is among the spaced lines. -/
theorem subset_spaced {lines : List Line} : ∀ {groups : List (List Line)}, lines ∈ groups →
    lines ⊆ spaced groups
  | [group], h => by
    cases List.mem_singleton.mp h
    exact List.Subset.refl _
  | group :: next :: more, h => by
    rcases List.mem_cons.mp h with rfl | h
    · exact List.subset_append_left _ _
    · refine List.Subset.trans (subset_spaced h) fun l hl => ?_
      exact List.mem_append_right _ (List.mem_cons_of_mem _ hl)

/-- The headers are among the lines. -/
theorem writer_hasTexts (inClass : Bool) :
    (writer (cppSite inClass)).Related
      (Writer.collect headerPieces fun type values => !cpp.switchAsChain type values)
      (fun _ => True) fun _ _ _ lines texts => HasTexts texts lines where
  nil _ := List.nil_subset _
  append h h' := h.append h'
  leaf _ _ := List.nil_subset _
  first _ _ h := h.behind _
  next _ _ h := h.behind _
  final _ _ h := h.behind _
  closing _ _ := List.nil_subset _
  labels := rfl
  labelled _ _ h := (h.behind _).concat _
  label _ _ _ h := (h.concat (Line.flush "break;")).behind [Line.flush _]
  forLoop {init cond step declares _ _ _ _ _} _ h := by
    have hheader : HasTexts [cpp.loopHeader init cond.shown step.shown declares ++ " \x7b"]
        (opening .cpp (cpp.loopHeader init cond.shown step.shown declares)) := List.Subset.refl _
    exact (hheader.append (hasTexts_deepen.mpr h)).concat _
  whileLoop _ h := (h.behind _).concat _

/-- The lines of a body are lines of the program. -/
theorem exists_block_subset {p : Program} {params : List String} {body : Block}
    (h : p.HasBody params body) :
    ∃ inClass, ∀ texts, HasTexts texts (block (cppSite inClass) body) →
      HasTexts texts (p.lines .cpp) := by
  have hbraced : ∀ {texts header lines}, HasTexts texts lines →
      HasTexts texts (braced .cpp header lines) := fun h => (h.behind _).concat _
  have hdefinitions : ∀ {texts groups lines}, HasTexts texts lines → lines ∈ groups →
      HasTexts texts (definitions groups) := fun h hmem =>
    h.mono fun l hl => List.mem_flatMap.mpr ⟨_, hmem, List.mem_append_left _ hl⟩
  cases h with
  | main =>
    refine ⟨false, fun texts h => ?_⟩
    exact (hbraced (h.concat _)).mono (List.subset_append_right _ _)
  | @function f hf =>
    refine ⟨false, fun texts h => ?_⟩
    have hfunction : HasTexts texts (definitions (p.functions.map (function cpp ""))) :=
      hdefinitions (hbraced h) (List.mem_map_of_mem hf)
    exact hfunction.mono fun l hl => List.mem_append_left _ (List.mem_append_right _ hl)
  | @method c f hc hf =>
    refine ⟨true, fun texts h => ?_⟩
    have hmethods : HasTexts texts (spaced (c.methods.map (function (cppSite true) ""))) :=
      (hbraced h).mono (subset_spaced (List.mem_map_of_mem hf))
    have hclass : HasTexts texts (classDef cpp c) :=
      ((hmethods.mono (List.subset_append_right _ _)).behind _).concat _
    exact (hdefinitions hclass (List.mem_map_of_mem hc)).mono fun l hl =>
      List.mem_append_left _ (List.mem_append_left _ (List.mem_append_right _ hl))

/-- **The header of every loop is a line.** -/
theorem exists_loopHeader {p : Program} {params : List String} {body inner : Block}
    {init : String} {cond step : FieldValue} {declares : Bool} {node : String}
    (hbody : p.HasBody params body)
    (hs : .forLoop init cond step declares inner node ∈ Block.walk body) :
    ∃ l ∈ p.lines .cpp, l.text = cpp.loopHeader init cond.shown step.shown declares ++ " \x7b" := by
  obtain ⟨inClass, hlines⟩ := exists_block_subset hbody
  have htexts := hlines _ ((writer_hasTexts inClass).block fun _ _ => trivial)
  have hheader : cpp.loopHeader init cond.shown step.shown declares ++ " \x7b" ∈
      (Writer.collect headerPieces fun type values => !cpp.switchAsChain type values).block body :=
    (Writer.mem_collect_iff (fun _ _ _ _ => rfl) body).mpr ⟨_, hs, List.mem_cons_self⟩
  exact List.mem_map.mp (htexts hheader)

end Blockflow.Braced
