import Blockflow.Proofs.Code.Drafts
import Blockflow.Proofs.Expression.Counting
import Blockflow.Proofs.Program.Names
import Blockflow.Proofs.Program.Resolution

/-!
# Field names in methods

Inside of a method the name of a field is written with `self.` before it. Of the texts that reach
the code, expressions and targets of assignments are qualified. The step of a loop which does not
count through a range and the dotted name of a call are written as they are (`Indented.Draft.asIs`).
So all references to a field are qualified exactly if none of these texts has the name of the field
in it (`Graph.field_qualified_iff`).
-/

namespace Blockflow.Indented

open Expression Token

/-! ## Qualified scraps -/

/-- Can the scrap refer to a variable? The name of a call without a dot names a function. -/
def Scrap.refers : Scrap → Bool
  | .word _ | .binder _ => false
  | .callee name => name.toList.contains '.'
  | .expr _ | .target _ | .step _ => true

/-- Every reference to the field `x` in the scrap is qualified: with `x` among the fields, the scrap
has `self.` before each `x` that is no member of something, and is the same otherwise. -/
def Scrap.Qualified (x : String) (fields : List String) (s : Scrap) : Prop :=
  s ≠ .binder x ∧ (s.refers = true → solid (s.write fields).toList =
    qualifiedTokens (isAmong [x]) [] (solid (s.write (fields.filter (· ≠ x))).toList))

namespace Draft

/-- The texts in a statement that are written as they are, whatever the fields are. -/
def asIs : Statement → List String
  | .forLoop init cond step _ _ _ =>
    match Counter.parse init cond.shown step.shown with
    | .ok (some _) => []
    | _ => if isBlankText step.shown then [] else [LoopStep.statement step.shown]
  | .call name _ _ => if name.toList.contains '.' then [name] else []
  | _ => []

/-- The variables that get their first value in a statement. The blocks inside of it do not
count. -/
def binders : Statement → List String
  | .declare d => [d.name]
  | .array name _ _ _ | .create _ name _ _ => [name.shown]
  | .forLoop init _ _ _ _ _ => ((LoopInit.parse? init).map LoopInit.name).toList
  | _ => []

/-- The variables that a statement changes. -/
def targets : Statement → List String
  | .assign name _ _ => [name.shown]
  | _ => []

variable {x : String} {fields : List String}

theorem qualified_word (text : String) : (Scrap.word text).Qualified x fields :=
  ⟨nofun, nofun⟩

theorem qualified_binder {name : String} (h : x ≠ name) : (Scrap.binder name).Qualified x fields :=
  ⟨fun heq => h (Scrap.binder.inj heq).symm, nofun⟩

/-- The name of the field is put in by the scraps that are qualified. -/
theorem qualified_of_write (hx : x ∈ fields) (hself : x ≠ "self") {s : Scrap} {text : String}
    (hbinder : s ≠ .binder x) (hwrite : ∀ names, s.write names = qualify names "self." text) :
    s.Qualified x fields := by
  refine ⟨hbinder, fun _ => ?_⟩
  rw [hwrite, hwrite, solid_qualify_self, solid_qualify_self, qualifiedTokens_filter hx hself]

/-- An expression qualifies the fields that it names. -/
theorem qualified_expr (hx : x ∈ fields) (hself : x ≠ "self") (text : String) :
    (Scrap.expr text).Qualified x fields :=
  qualified_of_write hx hself nofun fun _ => rfl

/-- The target of an assignment is qualified if it is a field. -/
theorem qualified_target (hx : x ∈ fields) (hself : x ≠ "self") {name : String}
    (hname : Text.isName name.toList = true) : (Scrap.target name).Qualified x fields :=
  qualified_of_write hx hself nofun fun _ => (qualify_name hname).symm

/-- A step is written without qualifying, so the field must not be in it. -/
theorem qualified_step_iff {text : String} : (Scrap.step text).Qualified x fields ↔
    hasBare (isAmong [x]) [] (solid (LoopStep.statement text).toList) = false := by
  rw [← qualifiedTokens_eq_self_iff, eq_comm]
  exact ⟨fun h => h.2 rfl, fun h => ⟨nofun, fun _ => h⟩⟩

/-- A callee is written as it is, so the field must not be an object in it. -/
theorem qualified_callee_iff {name : String} : (Scrap.callee name).Qualified x fields ↔
    ('.' ∈ name.toList → hasBare (isAmong [x]) [] (solid name.toList) = false) := by
  rw [← qualifiedTokens_eq_self_iff, eq_comm, ← List.contains_iff_mem]
  exact ⟨fun h => h.2, fun h => ⟨nofun, h⟩⟩

theorem qualified_args (hx : x ∈ fields) (hself : x ≠ "self") (texts : List String) :
    ∀ s ∈ args texts, s.Qualified x fields := by
  rw [args, forall_commas qualified_word, List.forall_mem_map]
  exact fun text _ => qualified_expr hx hself text

/-- The header of a counted loop qualifies the fields, unless its variable is one. -/
theorem qualified_rangeHeader (hx : x ∈ fields) (hself : x ≠ "self") {c : Counter}
    (hname : x ≠ c.name) : ∀ s ∈ rangeHeader c, s.Qualified x fields := by
  have hexpr : ∀ text, (Scrap.expr text).Qualified x fields := qualified_expr hx hself
  have hcommas : ∀ scraps : List Scrap, (∀ s ∈ scraps, s.Qualified x fields) →
      ∀ s ∈ commas scraps, s.Qualified x fields := fun _ => (forall_commas qualified_word).mpr
  rw [rangeHeader]
  simp only [List.forall_mem_cons, List.forall_mem_append]
  refine ⟨qualified_word _, qualified_binder hname, qualified_word _, hcommas _ ?_,
    qualified_word _, List.forall_mem_nil _⟩
  split
  next => simp [hexpr, qualified_word]
  next => split <;> simp [hexpr]

theorem qualified_initLines (hx : x ∈ fields) (hself : x ≠ "self") {init : String}
    (hname : ∀ i, LoopInit.parse? init = some i → x ≠ i.name) :
    ∀ s ∈ (initLines init).flatMap DraftLine.scraps, s.Qualified x fields := by
  have hexpr : ∀ text, (Scrap.expr text).Qualified x fields := qualified_expr hx hself
  rw [initLines]
  cases hinit : LoopInit.parse? init with
  | some i => simp [flush, qualified_binder (hname i hinit), qualified_word, hexpr]
  | none =>
    cases isBlankText init with
    | true => simp
    | false => simp [flush, hexpr]

/-- In a loop which does not count through a range only the step is written as it is. -/
theorem qualified_loopScraps_iff (hx : x ∈ fields) (hself : x ≠ "self") {init cond step : String}
    (hname : ∀ i, LoopInit.parse? init = some i → x ≠ i.name) :
    (∀ s ∈ loopScraps init cond step, s.Qualified x fields) ↔
      ∀ text ∈ if isBlankText step then [] else [LoopStep.statement step],
        hasBare (isAmong [x]) [] (solid text.toList) = false := by
  have htest : (test cond).Qualified x fields := by
    rw [test]
    split
    next => exact qualified_word _
    next => exact qualified_expr hx hself _
  rw [loopScraps, List.forall_mem_append, List.forall_mem_cons,
    and_iff_right (qualified_initLines hx hself hname), and_iff_right htest]
  split
  next => simp
  next => rw [List.forall_mem_singleton, List.forall_mem_singleton, qualified_step_iff]

/-- A statement qualifies a field that it does not bind, unless the field is in a text that is
written as it is. -/
theorem qualified_statement_iff (hx : x ∈ fields) (hself : x ≠ "self") {s : Statement}
    (hbinders : x ∉ binders s) (htargets : ∀ name ∈ targets s, Text.isName name.toList = true) :
    (∀ scrap ∈ scraps s, scrap.Qualified x fields) ↔
      ∀ text ∈ asIs s, hasBare (isAmong [x]) [] (solid text.toList) = false := by
  have hexpr : ∀ text, (Scrap.expr text).Qualified x fields := qualified_expr hx hself
  have hargs : ∀ texts, ∀ s ∈ args texts, s.Qualified x fields := qualified_args hx hself
  cases s with
  | forLoop init cond step declares body node =>
    have hname : ∀ i, LoopInit.parse? init = some i → x ≠ i.name := by
      rintro i hi rfl
      exact hbinders (by simp [binders, hi])
    show (∀ scrap ∈ headerScraps init cond.shown step.shown, _) ↔ _
    rw [headerScraps, asIs]
    rcases hparse : Counter.parse init cond.shown step.shown with e | _ | c
    · exact qualified_loopScraps_iff hx hself hname
    · exact qualified_loopScraps_iff hx hself hname
    · -- the variable of a range is the one that the loop declares
      obtain ⟨i, _, _, hcounts, -, hc, -⟩ := Counter.parse_eq_some_iff.mp hparse
      have hheader := qualified_rangeHeader hx hself (c := c) (hc ▸ hname i hcounts.init)
      simpa using hheader
  | call name arguments node =>
    have hleaf : scraps (.call name arguments node) =
        .callee name :: .word "(" :: (args arguments ++ [.word ")"]) := rfl
    rw [hleaf, List.forall_mem_cons, List.forall_mem_cons, List.forall_mem_append,
      List.forall_mem_singleton, and_iff_right (qualified_word _), and_iff_right (hargs _),
      and_iff_left (qualified_word _), qualified_callee_iff, asIs]
    by_cases hdot : '.' ∈ name.toList <;> simp [hdot]
  | print value node =>
    refine iff_of_true ?_ (List.forall_mem_nil _)
    show ∀ scrap ∈ (leaf? (.print value node)).getD [], _
    rw [leaf?]
    cases splitConcat? value.shown with
    | none => simp [hexpr, qualified_word]
    | some parts => simpa [qualified_word, or_imp, forall_and] using hargs parts
  | assign name value node =>
    have htarget : (Scrap.target name.shown).Qualified x fields :=
      qualified_target hx hself (htargets _ List.mem_cons_self)
    refine iff_of_true ?_ (List.forall_mem_nil _)
    simp [scraps, Writer.Pieces.ofStatement, pieces, leaf?, htarget, hexpr, qualified_word]
  | declare d =>
    refine iff_of_true ?_ (List.forall_mem_nil _)
    have hbinder : (Scrap.binder d.name).Qualified x fields :=
      qualified_binder (by simpa [binders] using hbinders)
    simp [scraps, Writer.Pieces.ofStatement, pieces, leaf?, hbinder, hexpr, qualified_word]
  | array name elements type node =>
    refine iff_of_true ?_ (List.forall_mem_nil _)
    have hbinder : (Scrap.binder name.shown).Qualified x fields :=
      qualified_binder (by simpa [binders] using hbinders)
    simpa [scraps, Writer.Pieces.ofStatement, pieces, leaf?, hbinder, qualified_word, or_imp,
      forall_and] using hargs elements
  | create className name arguments node =>
    refine iff_of_true ?_ (List.forall_mem_nil _)
    have hbinder : (Scrap.binder name.shown).Qualified x fields :=
      qualified_binder (by simpa [binders] using hbinders)
    simpa [scraps, Writer.Pieces.ofStatement, pieces, leaf?, hbinder, qualified_word, or_imp,
      forall_and] using hargs arguments
  | branch | whileLoop =>
    refine iff_of_true ?_ (List.forall_mem_nil _)
    simp [scraps, Writer.Pieces.ofStatement, pieces, testScraps, hexpr]
  | switch subject type cases default node =>
    refine iff_of_true ?_ (List.forall_mem_nil _)
    intro scrap hscrap
    obtain ⟨case, -, hcase⟩ := List.mem_flatMap.mp hscrap
    have htest : ∀ s ∈ testScraps (.equals subject case.1), s.Qualified x fields := by
      simp [testScraps, hexpr, qualified_word]
    exact htest scrap hcase
  | foreign => exact iff_of_true (List.forall_mem_nil _) (List.forall_mem_nil _)

/-- A method qualifies a field exactly if its steps and callees do not name it. -/
theorem qualified_method_iff {f : FunctionDef} (hx : x ∈ fields)
    (hparams : x ∉ "self" :: f.params.map Param.name)
    (hbinders : ∀ s ∈ Block.walk f.body, x ∉ binders s)
    (htargets : ∀ s ∈ Block.walk f.body, ∀ name ∈ targets s, Text.isName name.toList = true) :
    All (Scrap.Qualified x fields) (method f) ↔ ∀ s ∈ Block.walk f.body, ∀ text ∈ asIs s,
      hasBare (isAmong [x]) [] (solid text.toList) = false := by
  have hself : x ≠ "self" := fun heq => hparams (heq ▸ List.mem_cons_self)
  have hnames : ∀ s ∈ commas (("self" :: f.params.map Param.name).map .binder),
      s.Qualified x fields := by
    rw [forall_commas qualified_word, List.forall_mem_map]
    exact fun name hname => qualified_binder fun heq => hparams (heq ▸ hname)
  rw [method, all_suite qualified_word, all_block qualified_word]
  simp only [List.forall_mem_cons, List.forall_mem_append]
  rw [and_iff_right ⟨qualified_word _, qualified_word _, qualified_word _, hnames,
    qualified_word _, List.forall_mem_nil _⟩]
  exact forall₂_congr fun s hs => qualified_statement_iff hx hself (hbinders s hs) (htargets s hs)

end Draft

end Blockflow.Indented

namespace Blockflow.Graph

open Indented Expression Token

variable {g : Graph} {p : Program}

/-- A variable that a statement of a method changes is a name. -/
theorem Builds.isName_targets {d : Diagram} (h : g.Builds p) (hload : Graph.load d = .ok g)
    (hv : g.Valid) {c : ClassDef} (hc : c ∈ p.classes) {f : FunctionDef} (hf : f ∈ c.methods) :
    ∀ s ∈ Block.walk f.body, ∀ name ∈ Draft.targets s, Text.isName name.toList = true := by
  intro s hs
  have hs : s ∈ p.statements := Program.HasBody.mem_statements (.method hc hf) hs
  have hnamed := h.wellNamed hload hv _ (Program.mem_statements.mp hs)
  cases s with
  | assign name value node =>
    have hname : name.Passes Text.isName := hnamed
    exact List.forall_mem_singleton.mpr hname.shown
  | _ => exact List.forall_mem_nil _

/-- **Where fields are qualified.** The lines of a method are its draft, written with the fields
that it sees. Let `x` be a field that is no parameter of the method and that the body does not bind.
All references to `x` in the draft are qualified exactly if `x` is not in a text that is written as
it is: the step of a loop which does not count through a range, or the dotted name of a call. -/
theorem field_qualified_iff {d : Diagram} (hload : Graph.load d = .ok g) (hv : g.Valid)
    (hb : g.Builds p) {c : ClassDef} (hc : c ∈ p.classes) {x : String}
    (hx : x ∈ c.fields.map Declaration.name) {f : FunctionDef} (hf : f ∈ c.methods)
    (hparams : x ∉ "self" :: f.params.map Param.name)
    (hbinders : ∀ s ∈ Block.walk f.body, x ∉ Draft.binders s) :
    Indented.method (c.fields.map Declaration.name) f = (Draft.method f).map
        (Draft.write (Draft.visible (c.fields.map Declaration.name) f)) ∧
      (Draft.All (Scrap.Qualified x (Draft.visible (c.fields.map Declaration.name) f))
          (Draft.method f) ↔
        ∀ s ∈ Block.walk f.body, ∀ text ∈ Draft.asIs s,
          hasBare (isAmong [x]) [] (solid text.toList) = false) := by
  have hvisible := Draft.mem_visible hx hparams
  exact ⟨(Draft.method_write _ f).symm,
    Draft.qualified_method_iff hvisible hparams hbinders (hb.isName_targets hload hv hc hf)⟩

/-- A class with a field and two methods: one adds to the field, the other changes it in the step of
a loop. -/
def tally : Diagram where
  nodes :=
    [{ id := "c", type := "classDefine", data := [("name", .str "Tally")] },
     { id := "v", type := "assign", data := [("name", .str "x"), ("value", .str "0")] },
     { id := "m", type := "functionDefine", data := [("name", .str "add"), ("params", .str "y")] },
     { id := "u", type := "assign2", data := [("name", .str "x"), ("value", .str "x + y")] },
     { id := "l", type := "for",
       data := [("init", .str "i = 0"), ("condition", .str "i < x"), ("step", .str "i++")] },
     { id := "p", type := "print", data := [("value", .str "x + other.x")] },
     { id := "k", type := "functionDefine", data := [("name", .str "count")] },
     { id := "s", type := "for",
       data := [("init", .str "i = 0"), ("condition", .str "i < 3"), ("step", .str "x++")] }]
  edges :=
    [{ id := "e1", source := "c", target := "v", sourceHandle := some "body" },
     { id := "e2", source := "v", target := "m", sourceHandle := some "next" },
     { id := "e3", source := "m", target := "u", sourceHandle := some "body" },
     { id := "e4", source := "u", target := "l", sourceHandle := some "next" },
     { id := "e5", source := "l", target := "p", sourceHandle := some "body" },
     { id := "e6", source := "m", target := "k", sourceHandle := some "next" },
     { id := "e7", source := "k", target := "s", sourceHandle := some "body" }]

/-- The graph of the diagram. -/
def tallyGraph : Graph where
  nodes := tally.nodes.map Node.ofDrawn
  edges := tally.edges.map Edge.ofDrawn
  nodup := show ["c", "v", "m", "u", "l", "p", "k", "s"].Nodup by decide

theorem load_tally : Graph.load tally = .ok tallyGraph :=
  load_eq (by decide) _

theorem valid_tally : tallyGraph.Valid := by
  unfold Valid
  decide

/-- The methods have no parameter and bind no variable with the name of the field. Only in one of
them is the field in a text that is written as it is. -/
theorem exists_build_tally : ∃ b, tallyGraph.build 100 [] = .ok b ∧
    ∀ name, name = "add" ∨ name = "count" → ∃ c ∈ b.program.classes,
      "x" ∈ c.fields.map Declaration.name ∧ ∃ f ∈ c.methods, f.name = name ∧
        "x" ∉ "self" :: f.params.map Param.name ∧
        (∀ s ∈ Block.walk f.body, "x" ∉ Draft.binders s) ∧
        (name = "add" ↔ ∀ s ∈ Block.walk f.body, ∀ text ∈ Draft.asIs s,
          hasBare (isAmong ["x"]) [] (solid text.toList) = false) := by
  obtain ⟨b, hb, hcheck⟩ : ∃ b, tallyGraph.build 100 [] = .ok b ∧
      decide (∀ name ∈ ["add", "count"], ∃ c ∈ b.program.classes,
        "x" ∈ c.fields.map Declaration.name ∧ ∃ f ∈ c.methods, f.name = name ∧
          "x" ∉ "self" :: f.params.map Param.name ∧
          (∀ s ∈ Block.walk f.body, "x" ∉ Draft.binders s) ∧
          (name = "add" ↔ ∀ s ∈ Block.walk f.body, ∀ text ∈ Draft.asIs s,
            hasBare (isAmong ["x"]) [] (solid text.toList) = false)) = true :=
    exists_build_of_any (n := 1) (by decide +kernel)
  exact ⟨b, hb, fun name hname => of_decide_eq_true hcheck name (by simpa using hname)⟩

theorem field_qualified_iff_tally :
    Graph.load tally = .ok tallyGraph ∧ tallyGraph.Valid ∧
      ∃ p, tallyGraph.Builds p ∧ ∃ c ∈ p.classes, "x" ∈ c.fields.map Declaration.name ∧
        ∃ f ∈ c.methods, f.name = "add" ∧
          Draft.All (Scrap.Qualified "x" (Draft.visible (c.fields.map Declaration.name) f))
            (Draft.method f) := by
  obtain ⟨b, hb, hmethods⟩ := exists_build_tally
  obtain ⟨c, hc, hx, f, hf, hname, hparams, hbinders, hbare⟩ := hmethods "add" (Or.inl rfl)
  have hiff := field_qualified_iff load_tally valid_tally (.linked hb) hc hx hf hparams hbinders
  exact ⟨load_tally, valid_tally, b.program, .linked hb, c, hc, hx, f, hf, hname,
    hiff.2.mpr (hbare.mp rfl)⟩

/-- Fields need not be qualified: in the step of a loop which does not count through a range a field
is written as it is. -/
theorem not_forall_field_qualified :
    ¬ ∀ (d : Diagram) (g : Graph) (p : Program) (c : ClassDef) (x : String) (f : FunctionDef),
      Graph.load d = .ok g → g.Valid → g.Builds p → c ∈ p.classes →
      x ∈ c.fields.map Declaration.name → f ∈ c.methods →
      x ∉ "self" :: f.params.map Param.name → (∀ s ∈ Block.walk f.body, x ∉ Draft.binders s) →
      Draft.All (Scrap.Qualified x (Draft.visible (c.fields.map Declaration.name) f))
        (Draft.method f) := by
  intro h
  obtain ⟨b, hb, hmethods⟩ := exists_build_tally
  obtain ⟨c, hc, hx, f, hf, -, hparams, hbinders, hbare⟩ := hmethods "count" (Or.inr rfl)
  have hall := h tally tallyGraph b.program c "x" f load_tally valid_tally (.linked hb) hc hx hf
    hparams hbinders
  have htargets := Builds.isName_targets (.linked hb) load_tally valid_tally hc hf
  rw [Draft.qualified_method_iff (Draft.mem_visible hx hparams) hparams hbinders htargets] at hall
  exact absurd (hbare.mpr hall) (by decide)

end Blockflow.Graph
