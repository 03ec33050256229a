import Blockflow.Proofs.Code.CppDrafts

/-!
# Functions that are declared before they are called

In C++ a function has to be declared in front of its calls. The prototypes of all functions stand in
front of all definitions, unless there is one function only and no class. Then the first definition
is that of the function, and its header stands in front of its body and of the main block
(`Braced.Draft.exists_declaration`). Every call without a dot in a program that was built leads to a
function of the program, so the line of the call comes after a declaration of the function
(`Graph.build_declares_calls`).
-/

namespace Blockflow

namespace Braced.Draft

/-- Lines in front that are the text of no statement are in front of every line that is. -/
theorem subset_of_front {front before after : List DraftLine} {l : DraftLine}
    (hfront : ∀ d ∈ front, d.source = none) (h : front <+: before ++ l :: after)
    (hl : l.source ≠ none) : front ⊆ before := by
  obtain ⟨rest, h⟩ := h
  rcases List.append_eq_append_iff.mp h with ⟨more, rfl, -⟩ | ⟨more, rfl, heq⟩
  · exact List.subset_append_left _ _
  · cases more with
    | nil => simp
    | cons d more =>
      obtain ⟨rfl, -⟩ := List.cons.inj heq
      exact absurd (hfront l (by simp)) hl

theorem source_eq_none {draft : List DraftLine} {lines : List Line}
    {types : List (TypePlace × ValueType)} (h : Drafts draft lines [] types) :
    ∀ d ∈ draft, d.source = none :=
  List.filterMap_eq_nil_iff.mp h.sourced

variable {p : Program} {f : FunctionDef}

theorem write_signature (more : String) :
    (line (signature f ++ [.text more])).write = Line.flush (Braced.signature cpp f ++ more) := by
  have htext : String.join ((signature f ++ [Scrap.text more]).map Scrap.write) =
      Braced.signature cpp f ++ more := by
    simp [signature_write, Scrap.write]
  exact congrArg Line.flush htext

/-- **Every function is declared in front of the first line that is the text of a statement**, by a
prototype or by its header. -/
theorem exists_declaration (hf : f ∈ p.functions) :
    ∃ front, front <+: program p ∧ (∀ d ∈ front, d.source = none) ∧
      ∃ d ∈ front, d.write = Line.flush (Braced.signature cpp f ++ ";") ∨
        d.write = Line.flush (Braced.signature cpp f ++ " \x7b") := by
  have hfront := source_eq_none ((head_drafts p).append (prototypes_drafts p))
  have hstart : head p ++ prototypes p <+: program p := by
    simp only [program, List.append_assoc]
    exact ⟨_, List.append_assoc _ _ _⟩
  by_cases hneeded :
      (1 < p.functions.length || (!p.functions.isEmpty && !p.classes.isEmpty)) = true
  · refine ⟨head p ++ prototypes p, hstart, hfront, line (signature f ++ [.text ";"]), ?_,
      Or.inl (write_signature ";")⟩
    rw [prototypes, if_pos hneeded]
    exact List.mem_append_right _ (List.mem_append_left _ (List.mem_map_of_mem hf))
  · -- The function is the only definition, so its header is next.
    have hclasses : p.classes = [] := by
      by_contra hne
      exact hneeded (by simp [hne, List.ne_nil_of_mem hf])
    have hlength : p.functions.length ≤ 1 := by
      by_contra hlt
      exact hneeded (by simp [Nat.not_le.mp hlt])
    obtain ⟨only, hfunctions⟩ :=
      List.length_eq_one_iff.mp (Nat.le_antisymm hlength (List.length_pos_of_mem hf))
    rw [hfunctions] at hf
    cases List.mem_singleton.mp hf
    refine ⟨head p ++ prototypes p ++ [line (signature f ++ [.text " \x7b"])], ?_, ?_,
      line (signature f ++ [.text " \x7b"]), List.mem_append_right _ List.mem_cons_self,
      Or.inr (write_signature " \x7b")⟩
    · rw [program, hclasses, hfunctions]
      simp [definitions, function, braced]
    · exact List.forall_mem_append.mpr ⟨hfront, List.forall_mem_singleton.mpr rfl⟩

end Braced.Draft

namespace Graph

open Braced

variable {g : Graph} {limit : Int} {lib : Library} {b : Build}

/-- A call without a dot leads to a function of the program. -/
theorem exists_function_of_call (h : g.build limit lib = .ok b) {name : String} {args : List String}
    {node : String} (hcall : .call name args node ∈ b.program.statements)
    (hdot : '.' ∉ name.toList) :
    ∃ f ∈ b.program.functions, f.name = name := by
  obtain ⟨main, a, l, hassemble, -, hlink, hprogram, -⟩ := build_eq_ok.mp h
  have hsound := sound_of_link hassemble hlink
  have hname := mem_calledNames.mpr ⟨args, node, Program.mem_statements.mp hcall⟩
  rw [Program.calledNames_withConstructors hprogram, Assembly.walk_finish,
    calledNames_typed] at hname
  rcases hsound.answered name (hsound.sited hname) with hanswers | hpending
  · have hresolves := resolves_of_answers hsound hprogram hanswers
    rwa [Program.Resolves, if_neg hdot] at hresolves
  · cases hpending

/-- **In C++ functions are declared before they are called.** The lines of a program that was built
have as their sources the statements of one line in its bodies, each once and in order. If the
source of a line is a call with no dot in the name, the prototype of the function or the header of
its definition is in front of the line. -/
theorem build_declares_calls (h : g.build limit lib = .ok b) :
    (Draft.program b.program).map DraftLine.write = b.program.lines .cpp ∧
      (Draft.program b.program).filterMap DraftLine.source = programLeaves b.program ∧
      ∀ before l after name args node, Draft.program b.program = before ++ l :: after →
        l.source = some (.call name args node) →
          l.text = name ++ "(" ++ cpp.args args ++ ");" ∧
          ('.' ∉ name.toList → ∃ f ∈ b.program.functions, f.name = name ∧
            ∃ d ∈ before, d.write = Line.flush (signature cpp f ++ ";") ∨
              d.write = Line.flush (signature cpp f ++ " \x7b")) := by
  have hdraft := Draft.program_drafts b.program
  refine ⟨hdraft.written, hdraft.sourced, fun before l after name args node hsplit hsource => ?_⟩
  have hl : l ∈ Draft.program b.program := by
    rw [hsplit]
    simp
  refine ⟨(Option.some.inj (hdraft.texts l hl _ hsource)).symm, fun hdot => ?_⟩
  have hleaf : .call name args node ∈ programLeaves b.program := by
    rw [← hdraft.sourced]
    exact List.mem_filterMap.mpr ⟨l, hl, hsource⟩
  obtain ⟨-, params, body, hbody, hs⟩ := mem_programLeaves.mp hleaf
  obtain ⟨f, hf, hname⟩ := exists_function_of_call h (hbody.mem_statements hs) hdot
  obtain ⟨front, hstart, hfront, d, hd, hwrite⟩ := Draft.exists_declaration hf
  rw [hsplit] at hstart
  have hsubset := Draft.subset_of_front hfront hstart (by simp [hsource])
  exact ⟨f, hf, hname, d, hsubset hd, hwrite⟩

/-- A class whose method calls a saved function, which calls another one and is called by it. -/
def relaying : Graph where
  nodes :=
    [{ id := "cell", type := "classDefine", data := [("name", .text "Cell")] },
     { id := "show", type := "functionDefine", data := [("name", .text "show")] },
     { id := "test", type := "if", data := [("condition", .text "ready")] },
     { id := "inner", type := "functionCall", data := [("name", .text "pong")] }]
  edges :=
    [{ id := "e1", source := "cell", target := "show", role := some .body },
     { id := "e2", source := "show", target := "test", role := some .body },
     { id := "e3", source := "test", target := "inner", role := some .whenTrue }]
  nodup := by decide

theorem build_declares_calls_relaying :
    ∃ b, relaying.build 100 partners = .ok b ∧
      ∃ before l after args node, Draft.program b.program = before ++ l :: after ∧
        l.source = some (.call "pong" args node) ∧
        ∃ f ∈ b.program.functions, f.name = "pong" ∧
          ∃ d ∈ before, d.write = Line.flush (signature cpp f ++ ";") ∨
            d.write = Line.flush (signature cpp f ++ " \x7b") := by
  obtain ⟨b, hb, hcalls⟩ : ∃ b, relaying.build 100 partners = .ok b ∧
      (b.program.classes.any fun c => c.methods.any fun f =>
        (calledNames ((Block.walk f.body).map .statement)).contains "pong") = true :=
    exists_build_of_any (n := 5) (by decide +kernel)
  simp only [List.any_eq_true, List.contains_iff_mem] at hcalls
  obtain ⟨c, hc, f, hf, hcalls⟩ := hcalls
  obtain ⟨args, node, hs⟩ := mem_calledNames.mp hcalls
  obtain ⟨-, -, hdeclared⟩ := build_declares_calls hb
  obtain ⟨l, hl, hsource, -⟩ := Draft.exists_line (.method hc hf) (by simpa using hs) rfl
  obtain ⟨before, after, hsplit⟩ := List.append_of_mem hl
  obtain ⟨-, hpong⟩ := hdeclared before l after "pong" args node hsplit hsource
  exact ⟨b, hb, before, l, after, args, node, hsplit, hsource, hpong (by decide)⟩

end Graph

end Blockflow
