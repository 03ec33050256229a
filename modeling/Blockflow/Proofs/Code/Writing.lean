import Blockflow.Code.Render
import Blockflow.Proofs.Expression.Counting
import Blockflow.Proofs.Program.Failure

/-!
# Programs of valid graphs can be written

The statements of a program are written class by class, function by function, and then the main
block; nothing is left out when its classes hold fields and methods only
(`Program.mem_written_iff`). The statements that are built from a valid graph have texts in all
their fields, so the program has a text in every language, with one exception: Python wants to know
where a counting loop ends, and a bound such as `- 3` is taken for a number but is not read as one.
-/

namespace Blockflow

open Expression

/-! ## The statements that are written -/

namespace Program

variable {p q : Program}

theorem mem_written_class {c : ClassDef} (hc : c.Proper) {s : Statement} :
    s ∈ c.written ↔ Part.statement s ∈ c.walk := by
  unfold ClassDef.written ClassDef.walk
  rw [List.mem_append, List.mem_cons, List.mem_flatMap, List.mem_flatMap, List.mem_map]
  constructor
  · rintro (⟨d, hd, rfl⟩ | ⟨f, hf, hs⟩)
    · obtain ⟨m, hm, hmd⟩ := List.mem_filterMap.mp hd
      refine Or.inr ⟨m, hm, ?_⟩
      cases m with
      | field d' => cases hmd; exact List.mem_cons_self
      | method f => cases hmd
      | stray s => cases hmd
    · obtain ⟨m, hm, hmf⟩ := List.mem_filterMap.mp hf
      refine Or.inr ⟨m, hm, ?_⟩
      cases m with
      | field d => cases hmf
      | method f' =>
        cases hmf
        exact List.mem_cons_of_mem _ (List.mem_map_of_mem hs)
      | stray s => cases hmf
  · rintro (h | ⟨m, hm, hs⟩)
    · cases h
    cases m with
    | field d =>
      cases List.mem_singleton.mp hs
      exact Or.inl ⟨d, List.mem_filterMap.mpr ⟨_, hm, rfl⟩, rfl⟩
    | method f =>
      rcases List.mem_cons.mp hs with hs | hs
      · cases hs
      · obtain ⟨s', hs', heq⟩ := List.mem_map.mp hs
        cases heq
        exact Or.inr ⟨f, List.mem_filterMap.mpr ⟨_, hm, rfl⟩, hs'⟩
    | stray s' => exact absurd rfl (hc _ hm s')

theorem mem_written_function {f : FunctionDef} {s : Statement} :
    s ∈ Block.walk f.body ↔ Part.statement s ∈ f.walk := by
  simp [FunctionDef.walk]

/-- **All statements are written,** if classes hold fields and methods only. -/
theorem mem_written_iff (hp : ∀ c ∈ p.classes, c.Proper) {s : Statement} :
    s ∈ p.written ↔ s ∈ p.statements := by
  have hclasses : s ∈ p.classes.flatMap ClassDef.written ↔
      Part.statement s ∈ p.classes.flatMap ClassDef.walk := by
    rw [List.mem_flatMap, List.mem_flatMap]
    exact exists_congr fun c => and_congr_right fun hc => mem_written_class (hp c hc)
  have hfunctions : (s ∈ p.functions.flatMap fun f => Block.walk f.body) ↔
      Part.statement s ∈ p.functions.flatMap FunctionDef.walk := by
    rw [List.mem_flatMap, List.mem_flatMap]
    exact exists_congr fun f => and_congr_right fun _ => mem_written_function
  rw [mem_statements, written, walk, List.mem_append, List.mem_append, List.mem_append,
    List.mem_append, hclasses, hfunctions]
  simp

end Program

/-! ## Faults -/

theorem FieldValue.fault?_eq_none {value : FieldValue} (h : value.isObject = false) :
    value.fault? = none := by
  obtain ⟨s, rfl⟩ := exists_text h
  rfl

theorem Statement.Textual.fault?_eq_none {s : Statement} (hs : s.Textual) {language : Language}
    (h : language ≠ .python) : s.fault? language = none := by
  cases s with
  | declare d => exact FieldValue.fault?_eq_none hs
  | assign name value node =>
    have htarget : language.targetFault? name = none := by
      cases language <;> simp_all [Language.targetFault?]
    simp [fault?, htarget, FieldValue.fault?_eq_none hs.2]
  | print value node => exact FieldValue.fault?_eq_none hs
  | branch cond yes no node => exact FieldValue.fault?_eq_none hs
  | forLoop init cond step declares body node =>
    simp [fault?, h, FieldValue.fault?_eq_none hs.1, FieldValue.fault?_eq_none hs.2]
  | whileLoop cond body node => exact FieldValue.fault?_eq_none hs
  | foreign construct => exact hs.elim
  | array | switch | call | create => rfl

/-- In Python only the header of a counting loop can be at fault. -/
theorem Statement.Textual.fault?_python {s : Statement} (hs : s.Textual) {failure : Failure} :
    s.fault? .python = some failure ↔
      ∃ init cond step declares body node e,
        s = .forLoop init (.text cond) (.text step) declares body node ∧
          Counter.parse init cond step = .error e ∧ failure = .defect (.badNumeral e) := by
  cases s with
  | forLoop init cond step declares body node =>
    obtain ⟨cond, rfl⟩ := FieldValue.exists_text hs.1
    obtain ⟨step, rfl⟩ := FieldValue.exists_text hs.2
    cases hparse : Counter.parse init cond step with
    | ok k =>
      have hnone : (Statement.forLoop init (.text cond) (.text step) declares body node).fault?
          .python = none := by
        simp [fault?, headerFault?, FieldValue.searched, hparse, bind, Except.bind, Except.mapError]
      rw [hnone]
      refine iff_of_false (by simp) ?_
      rintro ⟨_, _, _, _, _, _, e, heq, herror, -⟩
      cases heq
      cases hparse.symm.trans herror
    | error e =>
      have hsome : (Statement.forLoop init (.text cond) (.text step) declares body node).fault?
          .python = some (.defect (.badNumeral e)) := by
        simp [fault?, headerFault?, FieldValue.searched, hparse, bind, Except.bind, Except.mapError]
      rw [hsome]
      constructor
      · intro h
        exact ⟨init, cond, step, declares, body, node, e, rfl, hparse, (Option.some.inj h).symm⟩
      · rintro ⟨_, _, _, _, _, _, e', heq, herror, rfl⟩
        cases heq
        cases hparse.symm.trans herror
        rfl
  | assign name value node =>
    obtain ⟨name, rfl⟩ := FieldValue.exists_text hs.1
    refine iff_of_false ?_ (by simp)
    simp [fault?, Language.targetFault?, FieldValue.key, FieldValue.fault?_eq_none hs.2]
  | declare d => exact iff_of_false (by simp [fault?, FieldValue.fault?_eq_none hs]) (by simp)
  | print value node =>
    exact iff_of_false (by simp [fault?, FieldValue.fault?_eq_none hs]) (by simp)
  | branch cond yes no node =>
    exact iff_of_false (by simp [fault?, FieldValue.fault?_eq_none hs]) (by simp)
  | whileLoop cond body node =>
    exact iff_of_false (by simp [fault?, FieldValue.fault?_eq_none hs]) (by simp)
  | foreign construct => exact hs.elim
  | array | switch | call | create => exact iff_of_false (by simp [fault?]) (by simp)

namespace Program

variable {p : Program}

/-- A program has a text in a language unless one of its statements is at fault. -/
theorem render_eq_error_iff {language : Language} {failure : Failure} :
    p.render language = .error failure ↔
      p.written.findSome? (Statement.fault? language) = some failure := by
  unfold render fault?
  cases p.written.findSome? (Statement.fault? language) with
  | none => simp
  | some f => simp

theorem exists_render {language : Language}
    (h : ∀ s ∈ p.written, s.fault? language = none) : ∃ text, p.render language = .ok text := by
  cases hr : p.render language with
  | ok text => exact ⟨text, rfl⟩
  | error failure =>
    obtain ⟨s, hs, hfault⟩ := List.exists_of_findSome?_eq_some (render_eq_error_iff.mp hr)
    rw [h s hs] at hfault
    cases hfault

/-- The program has a loop with this header. -/
def HasHeader (p : Program) (init cond step : String) : Prop :=
  ∃ declares body node,
    Statement.forLoop init (.text cond) (.text step) declares body node ∈ p.statements

/-- All statements have texts in their fields, and classes hold fields and methods only. -/
structure Textual (p : Program) : Prop where
  statements : ∀ s ∈ p.statements, s.Textual
  classes : ∀ c ∈ p.classes, c.Proper

theorem Textual.exists_render (hp : p.Textual) {language : Language} (h : language ≠ .python) :
    ∃ text, p.render language = .ok text :=
  Program.exists_render fun s hs =>
    (hp.statements s ((mem_written_iff hp.classes).mp hs)).fault?_eq_none h

/-- Writing a program in Python fails with a header that cannot be read. -/
theorem Textual.exists_header (hp : p.Textual) {failure : Failure}
    (h : p.render .python = .error failure) :
    ∃ init cond step e, p.HasHeader init cond step ∧ Counter.parse init cond step = .error e ∧
      failure = .defect (.badNumeral e) := by
  obtain ⟨s, hs, hfault⟩ := List.exists_of_findSome?_eq_some (render_eq_error_iff.mp h)
  have hmem := (mem_written_iff hp.classes).mp hs
  obtain ⟨init, cond, step, declares, body, node, e, rfl, hparse, rfl⟩ :=
    (hp.statements s hmem).fault?_python.mp hfault
  exact ⟨init, cond, step, e, ⟨declares, body, node, hmem⟩, hparse, rfl⟩

/-- A program that is written in Python has no header that cannot be read. -/
theorem Textual.parse_of_render (hp : p.Textual) {text : String} (h : p.render .python = .ok text)
    {init cond step : String} (hheader : p.HasHeader init cond step) :
    ∃ k, Counter.parse init cond step = .ok k := by
  obtain ⟨declares, body, node, hmem⟩ := hheader
  cases hparse : Counter.parse init cond step with
  | ok k => exact ⟨k, rfl⟩
  | error e =>
    have hfault := (hp.statements _ hmem).fault?_python.mpr
      ⟨init, cond, step, declares, body, node, e, rfl, hparse, rfl⟩
    have hnone : p.written.findSome? (Statement.fault? .python) = none := by
      cases hfind : p.written.findSome? (Statement.fault? .python) with
      | none => rfl
      | some failure => cases h.symm.trans (render_eq_error_iff.mpr hfind)
    have := List.findSome?_eq_none_iff.mp hnone _ ((mem_written_iff hp.classes).mpr hmem)
    cases hfault.symm.trans this

end Program

/-! ## From the graph to the text -/

namespace Graph

variable {g : Graph} {limit : Int} {b : Build}

theorem Valid.textual (hv : g.Valid) (h : g.build limit [] = .ok b) : b.program.Textual := by
  obtain ⟨main, a, hassemble, hprogram⟩ := build_nil_eq_ok h
  refine ⟨fun s hs => ?_, fun c hc => ?_⟩
  · rw [Program.statements_withConstructors hprogram] at hs
    have hwalk := Assembly.statement_mem_finish_iff.mp (Program.mem_statements.mp hs)
    have hsound : (Part.statement s).Sound := hv.sound_of_mem hassemble (by simpa using hwalk)
    exact hsound
  · obtain ⟨needed, -, heq⟩ := Program.withConstructors_eq_ok.mp hprogram
    rw [heq] at hc
    obtain ⟨c', hc', rfl⟩ := List.mem_map.mp hc
    obtain ⟨d, hd, rfl⟩ := List.mem_map.mp hc'
    have hwalk : Part.classDef d ∈ a.walk :=
      List.mem_append_left _ (List.mem_flatMap.mpr ⟨d, hd, List.mem_cons_self⟩)
    have hproper : d.Proper := hv.sound_of_mem hassemble (List.mem_append_left _ hwalk)
    intro m hm s hstray
    rw [ClassDef.members_marked] at hm
    obtain ⟨m', hm', rfl⟩ := List.mem_map.mp hm
    cases m' with
    | field d => cases hstray
    | method f => cases hstray
    | stray s' => exact hproper _ hm' s' rfl

/-- **A valid graph needs no further checks.** Building it on its own fails only with failures that
are reported, and a program that was built has a text in Java, C++ and C#. In Python it has one,
too, unless the header of a loop counts up to or down to a bound that is a minus sign, blanks and
digits: then this bound is what cannot be read. Headers with too many digits in them are left
aside. -/
theorem build_then_render (hv : g.Valid) (limit : Int) :
    (∀ failure, g.build limit [] = .error failure → failure.IsReported) ∧
      ∀ b, g.build limit [] = .ok b →
        (∀ language, language ≠ .python → ∃ text, b.program.render language = .ok text) ∧
        (∀ failure, b.program.render .python = .error failure →
          ∃ e, failure = .defect (.badNumeral e)) ∧
        ((∀ init cond step, b.program.HasHeader init cond step → ¬ ExceedsLimit init cond step) →
          ((∃ text, b.program.render .python = .ok text) ∧
            ∀ init cond step bound, b.program.HasHeader init cond step →
              ¬ HasSpacedBound init cond step bound) ∨
          ∃ init cond step bound, b.program.HasHeader init cond step ∧
            HasSpacedBound init cond step bound ∧
            b.program.render .python = .error (.defect (.badNumeral (.malformed bound)))) := by
  refine ⟨fun failure h => hv.build_eq_error h, fun b hb => ?_⟩
  have hp := hv.textual hb
  refine ⟨fun language h => hp.exists_render h, fun failure h => ?_, fun hlimit => ?_⟩
  · obtain ⟨-, -, -, e, -, -, hfailure⟩ := hp.exists_header h
    exact ⟨e, hfailure⟩
  · cases hr : b.program.render .python with
    | ok text =>
      refine Or.inl ⟨⟨text, rfl⟩, fun init cond step bound hheader hspaced => ?_⟩
      obtain ⟨k, hk⟩ := hp.parse_of_render hr hheader
      cases hk.symm.trans (Counter.parse_of_spaced hspaced)
    | error failure =>
      obtain ⟨init, cond, step, e, hheader, hparse, rfl⟩ := hp.exists_header hr
      rcases Counter.parse_eq_error hparse with ⟨bound, rfl, hspaced⟩ | ⟨-, hexceeds⟩
      · exact Or.inr ⟨init, cond, step, bound, hheader, hspaced, rfl⟩
      · exact absurd hexceeds (hlimit init cond step hheader)

/-- A loop that counts down to a bound with a blank after its sign. -/
def countdown : Graph where
  nodes :=
    [{ id := "loop", type := "for",
       data := [("init", .text "i = 0"), ("condition", .text "i >= - 3"), ("step", .text "i--")] },
     { id := "show", type := "print", data := [("value", .text "i")] }]
  edges := [{ id := "e", source := "loop", target := "show", role := some .body }]
  nodup := by decide

theorem valid_countdown : countdown.Valid := by
  unfold Valid
  decide

theorem exists_build_countdown :
    ∃ b, countdown.build 100 [] = .ok b ∧ (b.program.render .python).isOk = false := by
  have heval : (countdown.buildWithin 1 100 []).any (fun r =>
      r.isOk && !(r.bind fun b => b.program.render .python).isOk) = true := by decide +kernel
  obtain ⟨r, hr, heval⟩ := (Option.any_eq_true _ _).mp heval
  rw [build_eq_of_buildWithin hr]
  cases r with
  | ok b =>
    rw [Bool.and_eq_true, Bool.not_eq_true'] at heval
    exact ⟨b, rfl, heval.2⟩
  | error failure => cases heval

theorem build_then_render_countdown :
    countdown.Valid ∧ ∃ b, countdown.build 100 [] = .ok b ∧
      (∃ text, b.program.render .java = .ok text) ∧
      ∃ e, b.program.render .python = .error (.defect (.badNumeral e)) := by
  obtain ⟨b, hb, hpython⟩ := exists_build_countdown
  obtain ⟨hjava, herror, -⟩ := (build_then_render valid_countdown 100).2 b hb
  refine ⟨valid_countdown, b, hb, hjava .java (by decide), ?_⟩
  cases hr : b.program.render .python with
  | ok text =>
    rw [hr] at hpython
    cases hpython
  | error failure =>
    obtain ⟨e, rfl⟩ := herror failure hr
    exact ⟨e, rfl⟩

end Graph

end Blockflow
