import Blockflow.Code.Braced
import Blockflow.Code.Indented
import Blockflow.Proofs.Code.Writers

/-!
# Lines of a block

A block is written as the lines of those of its statements that are one line each, at any depth and
in the order of the walk, and between them the lines that give them their place: headers, braces and
the like (`Block.woven`). No statement is lost, written twice or put in another place, however
branches, switches and loops are nested and whatever a language makes of them.

Each kind of statement with blocks inside of it has a list of the texts that it may put between them
(`Indented.frames`, `Braced.frames`).
-/

namespace Blockflow

open Expression

/-! ## Lines that are woven from leaves and frames -/

/-- The lines are those of the given statements, each once and in order, and between them lines with
texts from `frames`. -/
inductive Woven (text? : Statement → Option String) (frames : List String) :
    List Statement → List Line → Prop where
  | nil : Woven text? frames [] []
  | leaf {s : Statement} {l : Line} {leaves : List Statement} {lines : List Line} :
      text? s = some l.text → Woven text? frames leaves lines →
      Woven text? frames (s :: leaves) (l :: lines)
  | frame {l : Line} {leaves : List Statement} {lines : List Line} :
      l.text ∈ frames → Woven text? frames leaves lines → Woven text? frames leaves (l :: lines)

namespace Woven

variable {text? : Statement → Option String} {frames : List String}
  {leaves leaves' : List Statement} {lines lines' : List Line}

theorem append (h : Woven text? frames leaves lines) (h' : Woven text? frames leaves' lines') :
    Woven text? frames (leaves ++ leaves') (lines ++ lines') := by
  induction h with
  | nil => exact h'
  | leaf htext _ ih => exact .leaf htext ih
  | frame hframe _ ih => exact .frame hframe ih

/-- The level of lines does not matter. -/
theorem deepen (h : Woven text? frames leaves lines) :
    Woven text? frames leaves (deepen lines) := by
  induction h with
  | nil => exact .nil
  | leaf htext _ ih => exact .leaf htext ih
  | frame hframe _ ih => exact .frame hframe ih

theorem of_frames (h : lines.map Line.text ⊆ frames) : Woven text? frames [] lines := by
  induction lines with
  | nil => exact .nil
  | cons l rest ih =>
    obtain ⟨hl, hrest⟩ := List.cons_subset.mp h
    exact .frame hl (ih hrest)

theorem leaves_eq_nil (h : Woven text? frames leaves []) : leaves = [] := by
  cases h
  rfl

/-- What holds of the texts of the statements and of the frames holds of all texts. -/
theorem forall_text {P : String → Prop} (h : Woven text? frames leaves lines)
    (hleaf : ∀ s ∈ leaves, ∀ text, text? s = some text → P text)
    (hframe : ∀ text ∈ frames, P text) :
    ∀ l ∈ lines, P l.text := by
  induction h with
  | nil => exact List.forall_mem_nil _
  | leaf htext _ ih =>
    obtain ⟨hs, hrest⟩ := List.forall_mem_cons.mp hleaf
    exact List.forall_mem_cons.mpr ⟨hs _ htext, ih hrest⟩
  | frame hmem _ ih => exact List.forall_mem_cons.mpr ⟨hframe _ hmem, ih hleaf⟩

/-- The line of a statement. -/
theorem single {s : Statement} (h : (text? s).isSome = true) :
    Woven text? frames [s] ((text? s).toList.map Line.flush) := by
  obtain ⟨text, htext⟩ := Option.isSome_iff_exists.mp h
  rw [htext]
  exact .leaf htext .nil

/-- One more line behind that is a frame. -/
theorem concat {text : String} (h : Woven text? frames leaves lines) (htext : text ∈ frames) :
    Woven text? frames leaves (lines ++ [Line.flush text]) := by
  rw [← List.append_nil leaves]
  exact h.append (.frame htext .nil)

end Woven

/-! ## Indented suites -/

namespace Indented

variable {fields all : List String} {leaves : List Statement}

/-- The texts of the lines that a statement puts around the lines of its blocks: headers, `pass`,
and the first and the last statement of a loop that does not count through a range. -/
def frames (fields : List String) : Statement → List String
  | .branch cond _ _ _ =>
    let test := testText fields (.holds cond.shown)
    ["if " ++ test ++ ":", "elif " ++ test ++ ":", "else:", "pass"]
  | .switch subject _ cases _ _ =>
    let tests := cases.map fun case => testText fields (.equals subject case.1)
    (tests.map fun test => "if " ++ test ++ ":") ++
      (tests.map fun test => "elif " ++ test ++ ":") ++ ["else:", "pass"]
  | .forLoop init cond step _ _ _ =>
    match Counter.parse init cond.shown step.shown with
    | .ok (some c) => [rangeHeader fields c ++ ":", "pass"]
    | _ =>
      let test := if isBlankText cond.shown then "True" else expr fields cond.shown
      (initLines fields init).map Line.text ++
        ["while " ++ test ++ ":", LoopStep.statement step.shown, "pass"]
  | .whileLoop cond _ _ => ["while " ++ expr fields cond.shown ++ ":", "pass"]
  | _ => []

/-- The frames of a chain. -/
theorem frames_of_chains {s : Statement} {test : Test} (h : (writer fields).Chains s test) :
    "if " ++ testText fields test ++ ":" ∈ frames fields s ∧
      "elif " ++ testText fields test ++ ":" ∈ frames fields s ∧ "else:" ∈ frames fields s ∧
      "pass" ∈ frames fields s := by
  cases h with
  | branch => simp [frames]
  | @switch subject value type cases default node _ hvalue =>
    have htest : testText fields (.equals subject value) ∈
        cases.map fun case => testText fields (.equals subject case.1) := by
      obtain ⟨case, hcase, rfl⟩ := List.mem_map.mp hvalue
      exact List.mem_map.mpr ⟨case, hcase, rfl⟩
    refine ⟨?_, ?_, List.mem_append_right _ (by simp), List.mem_append_right _ (by simp)⟩
    · exact List.mem_append_left _ (List.mem_append_left _ (List.mem_map_of_mem htest))
    · exact List.mem_append_left _ (List.mem_append_right _ (List.mem_map_of_mem htest))

theorem suite_woven {header : String} {lines : List Line} (hheader : header ++ ":" ∈ all)
    (hpass : "pass" ∈ all) (h : Woven (leaf? fields) all leaves lines) :
    Woven (leaf? fields) all leaves (suite header lines) := by
  refine .frame hheader (Woven.deepen ?_)
  cases lines with
  | nil =>
    rw [h.leaves_eq_nil]
    exact .frame hpass .nil
  | cons l rest => exact h

theorem plainLoop_woven {init cond step : String} {emptyBody : Bool} {lines : List Line}
    (hinit : (initLines fields init).map Line.text ⊆ all)
    (hframes : ["while " ++ (if isBlankText cond then "True" else expr fields cond) ++ ":",
      LoopStep.statement step, "pass"] ⊆ all) (h : Woven (leaf? fields) all leaves lines) :
    Woven (leaf? fields) all leaves (plainLoop fields init cond step emptyBody lines) := by
  obtain ⟨hwhile, hframes⟩ := List.cons_subset.mp hframes
  obtain ⟨hstep, hpass⟩ := List.cons_subset.mp hframes
  refine (Woven.of_frames hinit).append (.frame hwhile (Woven.deepen ?_))
  rw [← List.append_nil leaves]
  refine h.append (Woven.of_frames ?_)
  split
  next => exact List.cons_subset.mpr ⟨hstep, List.nil_subset _⟩
  next =>
    split
    next => exact hpass
    next => exact List.nil_subset _

theorem leaf_woven {s : Statement} (h : s.blocks = []) :
    Woven (leaf? fields) all s.leaves ((leaf? fields s).toList.map Line.flush) := by
  cases s with
  | print value node =>
    refine .single ?_
    rw [leaf?]
    split <;> rfl
  | foreign construct => exact .nil
  | branch | forLoop | whileLoop => cases h
  | switch => simp [Statement.blocks] at h
  | _ => exact .single rfl

/-- The lines of the writer are woven. -/
theorem writer_woven (fields all : List String) :
    (writer fields).Related (writer fields) (fun s => frames fields s ⊆ all)
      fun _ _ leaves lines _ => Woven (leaf? fields) all leaves lines where
  nil _ := .nil
  append h h' := h.append h'
  leaf _ hblocks := leaf_woven hblocks
  first hchains hs h :=
    let hframes := frames_of_chains hchains
    suite_woven (hs hframes.1) (hs hframes.2.2.2) h
  next hchains hs h :=
    let hframes := frames_of_chains hchains
    suite_woven (hs hframes.2.1) (hs hframes.2.2.2) h
  final hchains hs h :=
    let hframes := frames_of_chains hchains
    suite_woven (hs hframes.2.2.1) (hs hframes.2.2.2) h
  closing _ _ := .nil
  labels := rfl
  labelled _ _ h := h
  label _ _ _ h := h
  forLoop {init cond step _ body _ _ _ _} hs h := by
    rw [frames] at hs
    show Woven _ _ _ (loopLines fields init cond.shown step.shown body.isEmpty _)
    rw [loopLines]
    generalize Counter.parse init cond.shown step.shown = parsed at hs ⊢
    rcases parsed with e | _ | c
    · obtain ⟨hinit, hs⟩ := List.append_subset.mp hs
      exact plainLoop_woven hinit hs h
    · obtain ⟨hinit, hs⟩ := List.append_subset.mp hs
      exact plainLoop_woven hinit hs h
    · obtain ⟨hheader, hpass⟩ := List.cons_subset.mp hs
      exact suite_woven hheader (hpass List.mem_cons_self) h
  whileLoop hs h := by
    obtain ⟨hheader, hpass⟩ := List.cons_subset.mp hs
    exact suite_woven hheader (hpass List.mem_cons_self) h

end Indented

/-! ## Braces -/

namespace Braced

variable {site : Site} {all : List String} {leaves : List Statement}

/-- The texts of the lines that a statement puts around the lines of its blocks: headers, labels,
braces and `break`. -/
def frames (site : Site) : Statement → List String
  | .branch cond _ _ _ =>
    let test := site.testText (.holds cond.shown)
    (opening site.dialect ("if (" ++ test ++ ")")).map Line.text ++
      (reopening site.dialect ("else if (" ++ test ++ ")")).map Line.text ++
      (reopening site.dialect "else").map Line.text ++ ["\x7d"]
  | .switch subject type cases _ _ =>
    if site.switchAsChain type (cases.map Prod.fst) then
      let tests := cases.map fun case => site.testText (.equals subject case.1)
      (tests.flatMap fun test => (opening site.dialect ("if (" ++ test ++ ")")).map Line.text) ++
        (tests.flatMap fun test =>
          (reopening site.dialect ("else if (" ++ test ++ ")")).map Line.text) ++
        (reopening site.dialect "else").map Line.text ++ ["\x7d"]
    else
      (opening site.dialect ("switch (" ++ site.expr subject ++ ")")).map Line.text ++
        (cases.map fun case => site.labelText (some case.1)) ++
        [site.labelText none, "break;", "\x7d"]
  | .forLoop init cond step declares _ _ =>
    (opening site.dialect (site.loopHeader init cond.shown step.shown declares)).map Line.text ++
      ["\x7d"]
  | .whileLoop cond _ _ =>
    (opening site.dialect ("while (" ++ site.expr cond.shown ++ ")")).map Line.text ++ ["\x7d"]
  | _ => []

/-- The frames of a chain. -/
theorem frames_of_chains {s : Statement} {test : Test} (h : (writer site).Chains s test) :
    (opening site.dialect ("if (" ++ site.testText test ++ ")")).map Line.text ⊆ frames site s ∧
      (reopening site.dialect ("else if (" ++ site.testText test ++ ")")).map Line.text ⊆
        frames site s ∧
      (reopening site.dialect "else").map Line.text ⊆ frames site s ∧ "\x7d" ∈ frames site s := by
  cases h with
  | branch =>
    refine ⟨fun x hx => ?_, fun x hx => ?_, fun x hx => ?_, ?_⟩
    · exact List.mem_append_left _ (List.mem_append_left _ (List.mem_append_left _ hx))
    · exact List.mem_append_left _ (List.mem_append_left _ (List.mem_append_right _ hx))
    · exact List.mem_append_left _ (List.mem_append_right _ hx)
    · exact List.mem_append_right _ List.mem_cons_self
  | @switch subject value type cases default node hlabels hvalue =>
    have hchain : site.switchAsChain type (cases.map Prod.fst) = true := by
      simpa [writer] using hlabels
    have htest : site.testText (.equals subject value) ∈
        cases.map fun case => site.testText (.equals subject case.1) := by
      obtain ⟨case, hcase, rfl⟩ := List.mem_map.mp hvalue
      exact List.mem_map.mpr ⟨case, hcase, rfl⟩
    rw [frames, if_pos hchain]
    refine ⟨fun x hx => ?_, fun x hx => ?_, fun x hx => ?_, ?_⟩
    · exact List.mem_append_left _ (List.mem_append_left _ (List.mem_append_left _
        (List.mem_flatMap.mpr ⟨_, htest, hx⟩)))
    · exact List.mem_append_left _ (List.mem_append_left _ (List.mem_append_right _
        (List.mem_flatMap.mpr ⟨_, htest, hx⟩)))
    · exact List.mem_append_left _ (List.mem_append_right _ hx)
    · exact List.mem_append_right _ List.mem_cons_self

/-- The frames of a switch with labels. -/
theorem frames_of_labels {subject : String} {type : ValueType} {cases : List (String × Block)}
    {default : Block} {node : String} (h : (writer site).labels type (cases.map Prod.fst) = true) :
    frames site (.switch subject type cases default node) =
      (opening site.dialect ("switch (" ++ site.expr subject ++ ")")).map Line.text ++
        (cases.map fun case => site.labelText (some case.1)) ++
        [site.labelText none, "break;", "\x7d"] := by
  have hchain : ¬ site.switchAsChain type (cases.map Prod.fst) = true := by simpa [writer] using h
  rw [frames, if_neg hchain]

theorem part_woven {before lines : List Line} (hbefore : before.map Line.text ⊆ all)
    (h : Woven site.leaf? all leaves lines) :
    Woven site.leaf? all leaves (before ++ deepen lines) :=
  (Woven.of_frames hbefore).append h.deepen

theorem braced_woven {header : String} {lines : List Line}
    (hheader : (opening site.dialect header).map Line.text ⊆ all) (hclose : "\x7d" ∈ all)
    (h : Woven site.leaf? all leaves lines) :
    Woven site.leaf? all leaves (braced site.dialect header lines) :=
  (part_woven hheader h).concat hclose

theorem caseLines_woven {label : String} {lines : List Line} (hlabel : label ∈ all)
    (hbreak : "break;" ∈ all) (h : Woven site.leaf? all leaves lines) :
    Woven site.leaf? all leaves (Site.caseLines label lines) :=
  .frame hlabel (h.concat hbreak).deepen

theorem leaf_woven {s : Statement} (h : s.blocks = []) :
    Woven site.leaf? all s.leaves ((site.leaf? s).toList.map Line.flush) := by
  cases s with
  | foreign construct => exact .nil
  | branch | forLoop | whileLoop => cases h
  | switch => simp [Statement.blocks] at h
  | _ => exact .single rfl

/-- The lines of the writer are woven. -/
theorem writer_woven (site : Site) (all : List String) :
    (writer site).Related (writer site) (fun s => frames site s ⊆ all)
      fun _ _ leaves lines _ => Woven site.leaf? all leaves lines where
  nil _ := .nil
  append h h' := h.append h'
  leaf _ hblocks := leaf_woven hblocks
  first hchains hs h := part_woven (fun _ hx => hs ((frames_of_chains hchains).1 hx)) h
  next hchains hs h := part_woven (fun _ hx => hs ((frames_of_chains hchains).2.1 hx)) h
  final hchains hs h := part_woven (fun _ hx => hs ((frames_of_chains hchains).2.2.1 hx)) h
  closing hchains hs := .frame (hs (frames_of_chains hchains).2.2.2) .nil
  labels := rfl
  labelled hs hlabels h := by
    rw [frames_of_labels hlabels] at hs
    obtain ⟨hs, hlast⟩ := List.append_subset.mp hs
    exact braced_woven (List.append_subset.mp hs).1 (hlast (by simp)) h
  label {subject type cases default node value? _ _ _} hs hlabels hvalue h := by
    rw [frames_of_labels hlabels] at hs
    obtain ⟨hs, hlast⟩ := List.append_subset.mp hs
    refine caseLines_woven ?_ (hlast (by simp)) h
    cases value? with
    | none => exact hlast List.mem_cons_self
    | some value =>
      obtain ⟨case, hcase, rfl⟩ := List.mem_map.mp (hvalue value rfl)
      exact (List.append_subset.mp hs).2 (List.mem_map.mpr ⟨case, hcase, rfl⟩)
  forLoop hs h := by
    obtain ⟨hheader, hclose⟩ := List.append_subset.mp hs
    exact braced_woven hheader (hclose List.mem_cons_self) h
  whileLoop hs h := by
    obtain ⟨hheader, hclose⟩ := List.append_subset.mp hs
    exact braced_woven hheader (hclose List.mem_cons_self) h

end Braced

/-- **The lines of a block are those of its statements of one line, each once and in the order of
the walk**, and between them only lines that belong to the branches, switches and loops of the
block. This holds in all languages, inside and outside of classes. -/
theorem Block.woven (b : Block) :
    (∀ fields : List String,
      Woven (Indented.leaf? fields) ((Block.walk b).flatMap (Indented.frames fields)) b.leaves
        (Indented.block fields b)) ∧
    ∀ site : Braced.Site,
      Woven site.leaf? ((Block.walk b).flatMap (Braced.frames site)) b.leaves
        (Braced.block site b) := by
  constructor
  · intro fields
    exact (Indented.writer_woven fields _).block fun s hs _ h => List.mem_flatMap_of_mem hs h
  · intro site
    exact (Braced.writer_woven site _).block fun s hs _ h => List.mem_flatMap_of_mem hs h

end Blockflow
