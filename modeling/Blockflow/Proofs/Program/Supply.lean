import Blockflow.Proofs.Program.Blocks
import Blockflow.Proofs.Program.Failure

/-!
# Where the definitions of a program come from

A program is built from a graph on its own, or it is linked with a library. Its main block is
assembled from the graph. Each of its definitions is assembled from the graph or from the graph of a
library entry; only types of parameters and marks are added (`Graph.Builds.sourced`). So what holds
of everything that is assembled from a valid graph holds of the program.
-/

namespace Blockflow

/-- The program is built from the graph, whether its calls are resolved or not. -/
inductive Graph.Builds (g : Graph) : Program → Prop where
  | alone {limit : Int} {b : Build} : g.buildAlone limit = .ok b → Builds g b.program
  | linked {limit : Int} {lib : Library} {b : Build} :
      g.build limit lib = .ok b → Builds g b.program

/-- A main block and definitions that were assembled from the graph, or from a library entry. -/
inductive Graph.Supplies (g : Graph) : Block → Assembly → Prop where
  | own {limit : Int} {main : Block} {a : Assembly} :
      g.assemble limit = .ok (main, a) → Supplies g main a
  | entry {d : Diagram} {entry : Graph} {limit : Int} {main : Block} {a : Assembly} :
      Graph.load d = .ok entry → entry.Valid → entry.assemble limit = .ok (main, a) →
      Supplies g main a

/-- A body of a program with its parameters: the main block, the body of a function or the body of a
method. -/
inductive Program.HasBody (p : Program) : List String → Block → Prop where
  | main : HasBody p [] p.main
  | function {f : FunctionDef} : f ∈ p.functions → HasBody p (f.params.map Param.name) f.body
  | method {c : ClassDef} {f : FunctionDef} : c ∈ p.classes → f ∈ c.methods →
      HasBody p (f.params.map Param.name) f.body

/-- A field is a declaration of the class. -/
theorem ClassDef.declare_mem_walk {c : ClassDef} {d : Declaration} (h : d ∈ c.fields) :
    Part.statement (.declare d) ∈ c.walk := by
  obtain ⟨m, hm, hfield⟩ := List.mem_filterMap.mp h
  split at hfield
  next =>
    cases hfield
    exact List.mem_cons_of_mem _ (List.mem_flatMap.mpr ⟨_, hm, List.mem_cons_self⟩)
  next => cases hfield

/-- What is in a method is in the class. -/
theorem ClassDef.walk_method_subset {c : ClassDef} {f : FunctionDef} (h : f ∈ c.methods) :
    f.walk ⊆ c.walk := by
  obtain ⟨m, hm, hmethod⟩ := List.mem_filterMap.mp h
  split at hmethod
  next =>
    cases hmethod
    exact fun q hq => List.mem_cons_of_mem _ (List.mem_flatMap.mpr ⟨_, hm, hq⟩)
  next => cases hmethod

/-- What is in a class is in the program. -/
theorem Program.walk_class_subset {p : Program} {c : ClassDef} (h : c ∈ p.classes) :
    c.walk ⊆ p.walk := fun _ hq =>
  List.mem_append_left _ (List.mem_append_left _ (List.mem_flatMap.mpr ⟨c, h, hq⟩))

/-- What is in a function is in the program, whether it is a method or not. -/
theorem Program.walk_function_subset {p : Program} {f : FunctionDef}
    (h : f ∈ p.functions ∨ ∃ c ∈ p.classes, f ∈ c.methods) : f.walk ⊆ p.walk := by
  rcases h with hf | ⟨c, hc, hf⟩
  · exact fun _ hq => List.mem_append_left _ (List.mem_append_right _
      (List.mem_flatMap.mpr ⟨f, hf, hq⟩))
  · exact List.Subset.trans (ClassDef.walk_method_subset hf) (Program.walk_class_subset hc)

/-- The statements of a body are statements of the program. -/
theorem Program.HasBody.mem_statements {p : Program} {params : List String} {body : Block}
    (h : p.HasBody params body) {s : Statement} (hs : s ∈ Block.walk body) : s ∈ p.statements := by
  have hmem : Part.statement s ∈ (Block.walk body).map Part.statement := List.mem_map_of_mem hs
  rw [Program.mem_statements]
  cases h with
  | main => exact List.mem_append_right _ hmem
  | function hf =>
    exact Program.walk_function_subset (Or.inl hf) (List.mem_cons_of_mem _ hmem)
  | method hc hf =>
    exact Program.walk_function_subset (Or.inr ⟨_, hc, hf⟩) (List.mem_cons_of_mem _ hmem)

theorem FunctionDef.statement_mem_walk {f : FunctionDef} {s : Statement} :
    Part.statement s ∈ f.walk ↔ s ∈ Block.walk f.body := by
  simp [FunctionDef.walk]

/-- Every statement of a program stands in one of its bodies, if it declares no field. -/
theorem Program.exists_hasBody {p : Program} (hproper : ∀ c ∈ p.classes, c.Proper) {s : Statement}
    (hs : s ∈ p.statements) (hfield : ∀ d, s ≠ .declare d) :
    ∃ params body, p.HasBody params body ∧ s ∈ Block.walk body := by
  rw [Program.mem_statements, Program.walk, List.mem_append, List.mem_append] at hs
  rcases hs with (hs | hs) | hs
  · obtain ⟨c, hc, hs⟩ := List.mem_flatMap.mp hs
    rcases List.mem_cons.mp hs with hs | hs
    · cases hs
    obtain ⟨m, hm, hs⟩ := List.mem_flatMap.mp hs
    cases m with
    | field d =>
      cases List.mem_singleton.mp hs
      exact absurd rfl (hfield d)
    | method f =>
      exact ⟨_, _, .method hc (List.mem_filterMap.mpr ⟨_, hm, rfl⟩),
        FunctionDef.statement_mem_walk.mp hs⟩
    | stray t => exact absurd rfl (hproper c hc _ hm t)
  · obtain ⟨f, hf, hs⟩ := List.mem_flatMap.mp hs
    exact ⟨_, _, .function hf, FunctionDef.statement_mem_walk.mp hs⟩
  · obtain ⟨t, ht, heq⟩ := List.mem_map.mp hs
    cases heq
    exact ⟨[], p.main, .main, ht⟩

/-- The statement stands in a block whose statements are all among these parts. -/
def Statement.InBlock (s : Statement) (parts : List Part) : Prop :=
  ∃ b, s ∈ Block.walk b ∧ (Block.walk b).map Part.statement ⊆ parts

/-- A block among some parts is among more parts. -/
theorem Statement.InBlock.mono {s : Statement} {parts parts' : List Part} (h : s.InBlock parts)
    (hsub : parts ⊆ parts') : s.InBlock parts' := by
  obtain ⟨b, hs, hb⟩ := h
  exact ⟨b, hs, List.Subset.trans hb hsub⟩

theorem Block.inBlock {b : Block} {s : Statement}
    (h : Part.statement s ∈ (Block.walk b).map Part.statement) :
    s.InBlock ((Block.walk b).map Part.statement) := by
  obtain ⟨t, ht, heq⟩ := List.mem_map.mp h
  cases heq
  exact ⟨b, ht, List.Subset.refl _⟩

theorem FunctionDef.inBlock {f : FunctionDef} {s : Statement} (h : Part.statement s ∈ f.walk) :
    s.InBlock f.walk := by
  rcases List.mem_cons.mp h with h | h
  · cases h
  · exact (Block.inBlock h).mono (List.subset_cons_self _ _)

theorem Member.inBlock {m : Member} {s : Statement} (h : Part.statement s ∈ m.walk) :
    s.InBlock m.walk := by
  cases m with
  | field d => exact Block.inBlock (b := [.declare d]) h
  | method f => exact FunctionDef.inBlock h
  | stray t =>
    have hwalk : Block.walk [t] = t.walk := List.append_nil _
    rw [Member.walk, ← hwalk] at h ⊢
    exact Block.inBlock h

/-- Every statement of a program stands in a block of it. -/
theorem Program.inBlock {p : Program} {s : Statement} (h : s ∈ p.statements) :
    s.InBlock p.walk := by
  rw [Program.mem_statements, Program.walk, List.mem_append, List.mem_append] at h
  rcases h with (h | h) | h
  · obtain ⟨c, hc, h⟩ := List.mem_flatMap.mp h
    rcases List.mem_cons.mp h with h | h
    · cases h
    obtain ⟨m, hm, h⟩ := List.mem_flatMap.mp h
    refine (Member.inBlock h).mono fun q hq => Program.walk_class_subset hc ?_
    exact List.mem_cons_of_mem _ (List.mem_flatMap.mpr ⟨m, hm, hq⟩)
  · obtain ⟨f, hf, h⟩ := List.mem_flatMap.mp h
    exact (FunctionDef.inBlock h).mono (Program.walk_function_subset (Or.inl hf))
  · exact (Block.inBlock h).mono (List.subset_append_right _ _)

/-- What is inside of a statement of a program is in the program. -/
theorem Program.walk_subset {p : Program} {s : Statement} (h : s ∈ p.statements) :
    ∀ b ∈ s.blocks, Block.walk b ⊆ p.statements := by
  obtain ⟨b, hs, hsub⟩ := Program.inBlock h
  intro c hc t ht
  exact Program.mem_statements.mpr (hsub (List.mem_map_of_mem (Block.walk_subset hs c hc ht)))

/-- Types do not matter for which members a class has. -/
theorem ClassDef.proper_untyped (c : ClassDef) : c.untyped.Proper ↔ c.Proper := by
  unfold Proper untyped
  rw [List.forall_mem_map]
  refine forall₂_congr fun m _ => forall_congr' fun s => not_congr ?_
  cases m <;> simp [Member.untyped]

namespace Graph

variable {g : Graph} {p : Program} {main : Block} {a : Assembly}

/-- Functions and classes that were supplied, apart from types of parameters and marks. -/
structure Supplied (g : Graph) (functions : List FunctionDef) (classes : List ClassDef) : Prop where
  function : ∀ f ∈ functions, ∃ main a,
    g.Supplies main a ∧ f.untyped ∈ a.functions.map FunctionDef.untyped
  classDef : ∀ c ∈ classes, ∃ main a,
    g.Supplies main a ∧ c.untyped ∈ a.classes.map ClassDef.untyped

theorem Supplies.supplied (h : g.Supplies main a) : g.Supplied a.functions a.classes where
  function _ hf := ⟨main, a, h, List.mem_map_of_mem hf⟩
  classDef _ hc := ⟨main, a, h, List.mem_map_of_mem hc⟩

/-- Definitions that agree apart from types are supplied together. -/
theorem Supplied.of_untyped {fs fs' : List FunctionDef} {cs cs' : List ClassDef}
    (h : g.Supplied fs cs) (hfs : fs'.map FunctionDef.untyped = fs.map FunctionDef.untyped)
    (hcs : cs'.map ClassDef.untyped = cs.map ClassDef.untyped) : g.Supplied fs' cs' where
  function f hf := by
    have hmem : f.untyped ∈ fs'.map FunctionDef.untyped := List.mem_map_of_mem hf
    rw [hfs] at hmem
    obtain ⟨f', hf', heq⟩ := List.mem_map.mp hmem
    rw [← heq]
    exact h.function f' hf'
  classDef c hc := by
    have hmem : c.untyped ∈ cs'.map ClassDef.untyped := List.mem_map_of_mem hc
    rw [hcs] at hmem
    obtain ⟨c', hc', heq⟩ := List.mem_map.mp hmem
    rw [← heq]
    exact h.classDef c' hc'

/-- Adding what is missing adds what was supplied. -/
theorem Supplied.addMissing {fs fs' : List FunctionDef} {cs cs' : List ClassDef}
    (h : g.Supplied fs cs) (h' : g.Supplied fs' cs') :
    g.Supplied (addMissing FunctionDef.name fs fs') (addMissing ClassDef.name cs cs') where
  function f hf := (mem_of_mem_addMissing hf).elim (h.function f) (h'.function f)
  classDef c hc := (mem_of_mem_addMissing hc).elim (h.classDef c) (h'.classDef c)

/-- Each round of the linker keeps to what is supplied. -/
theorem Supplied.step {k : Linker} {s t : Resolving}
    (h : g.Supplied s.linking.assembly.functions s.linking.assembly.classes) (hstep : k.Step s t) :
    g.Supplied t.linking.assembly.functions t.linking.assembly.classes := by
  cases hstep with
  | answered _ => exact h
  | taken _ _ hload =>
    obtain ⟨entry, block, b, hentry, hvalid, hassemble, -, rfl, rfl⟩ := loadEntry_eq_ok.mp hload
    have hb := (Supplies.entry (g := g) hentry hvalid hassemble).supplied
    obtain ⟨hfunctions, hclasses⟩ := b.untyped_finish block
    exact h.addMissing (hb.of_untyped hfunctions hclasses)

/-- A program whose main block and definitions were supplied. -/
structure Sourced (g : Graph) (p : Program) : Prop where
  main : ∃ a, g.Supplies p.main a
  definitions : g.Supplied p.functions p.classes

namespace Sourced

/-- What does not depend on types holds of every function if it holds of those that are supplied. -/
theorem forall_function (h : g.Sourced p) {P : FunctionDef → Prop}
    (huntyped : ∀ f : FunctionDef, P f.untyped ↔ P f)
    (hsupplied : ∀ main a, g.Supplies main a → ∀ f ∈ a.functions, P f) :
    ∀ f ∈ p.functions, P f := by
  intro f hf
  obtain ⟨main, a, ha, hmem⟩ := h.definitions.function f hf
  obtain ⟨f', hf', heq⟩ := List.mem_map.mp hmem
  rw [← huntyped f, ← heq, huntyped f']
  exact hsupplied main a ha f' hf'

/-- What depends neither on types nor on marks holds of every class if it holds of those that are
supplied. -/
theorem forall_class (h : g.Sourced p) {P : ClassDef → Prop}
    (huntyped : ∀ c : ClassDef, P c.untyped ↔ P c)
    (hsupplied : ∀ main a, g.Supplies main a → ∀ c ∈ a.classes, P c) : ∀ c ∈ p.classes, P c := by
  intro c hc
  obtain ⟨main, a, ha, hmem⟩ := h.definitions.classDef c hc
  obtain ⟨c', hc', heq⟩ := List.mem_map.mp hmem
  rw [← huntyped c, ← heq, huntyped c']
  exact hsupplied main a ha c' hc'

/-- Every statement of a program was supplied, in a definition or in a main block. -/
theorem exists_statement (h : g.Sourced p) {s : Statement} (hs : s ∈ p.statements) :
    ∃ main a, g.Supplies main a ∧
      Part.statement s ∈ a.walk ++ (Block.walk main).map Part.statement := by
  rw [Program.mem_statements, Program.walk, List.mem_append, List.mem_append] at hs
  rcases hs with (hs | hs) | hs
  · obtain ⟨c, hc, hs⟩ := List.mem_flatMap.mp hs
    obtain ⟨main, a, ha, hmem⟩ := h.definitions.classDef c hc
    refine ⟨main, a, ha, List.mem_append_left _ (Assembly.statement_mem_walk_iff.mpr (Or.inl ?_))⟩
    exact ⟨c.untyped, hmem, ClassDef.statement_mem_untyped.mpr hs⟩
  · obtain ⟨f, hf, hs⟩ := List.mem_flatMap.mp hs
    obtain ⟨main, a, ha, hmem⟩ := h.definitions.function f hf
    refine ⟨main, a, ha, List.mem_append_left _ (Assembly.statement_mem_walk_iff.mpr (Or.inr ?_))⟩
    exact ⟨f.untyped, hmem, FunctionDef.statement_mem_untyped.mpr hs⟩
  · obtain ⟨a, ha⟩ := h.main
    exact ⟨p.main, a, ha, List.mem_append_right _ hs⟩

end Sourced

/-! ## Programs that are linked -/

/-- The program that the graph is linked to, before its constructors are looked at. -/
def Links (g : Graph) (limit : Int) (lib : Library) (p : Program) : Prop :=
  ∃ main a l, g.assemble limit = .ok (main, a) ∧ link limit lib a a.calls = .ok l ∧
    p = l.assembly.finish main

/-- A linked program has only what was supplied. -/
theorem Links.sourced {limit : Int} {lib : Library} (h : g.Links limit lib p) : g.Sourced p := by
  obtain ⟨main, a, l, hassemble, hlink, rfl⟩ := h
  obtain ⟨hfunctions, hclasses⟩ := l.assembly.untyped_finish main
  obtain ⟨asked, hends⟩ := exists_ends_link limit lib a
  rw [hlink] at hends
  obtain ⟨t, ht, hstop⟩ := hends.exists_stop Supplied.step (Supplies.own hassemble).supplied
  cases hstop
  exact ⟨⟨a, .own hassemble⟩, ht.of_untyped hfunctions hclasses⟩

/-- A build is a program that is linked, with its constructors. -/
theorem exists_links_of_build {limit : Int} {lib : Library} {b : Build}
    (h : g.build limit lib = .ok b) :
    ∃ q, g.Links limit lib q ∧ q.withConstructors = .ok b.program := by
  obtain ⟨main, a, l, hassemble, -, hlink, hprogram, -⟩ := build_eq_ok.mp h
  exact ⟨_, ⟨main, a, l, hassemble, hlink, rfl⟩, hprogram⟩

/-- **The main block and every definition of a program were supplied.** -/
theorem Builds.sourced (h : g.Builds p) : g.Sourced p := by
  cases h with
  | alone h =>
    obtain ⟨main, a, hassemble, hprogram⟩ := buildAlone_eq_ok h
    obtain ⟨hfunctions, hclasses⟩ := a.untyped_finish main
    rw [hprogram]
    exact ⟨⟨a, .own hassemble⟩,
      (Supplies.own hassemble).supplied.of_untyped hfunctions hclasses⟩
  | @linked limit lib b h =>
    obtain ⟨q, hlinks, hprogram⟩ := exists_links_of_build h
    obtain ⟨hmain, hfunctions, hclasses⟩ := Program.untyped_withConstructors hprogram
    obtain ⟨a, ha⟩ := hlinks.sourced.main
    exact ⟨⟨a, hmain ▸ ha⟩,
      hlinks.sourced.definitions.of_untyped (congrArg _ hfunctions) hclasses⟩

/-- The main block of a program was supplied. -/
theorem Builds.exists_main (h : g.Builds p) : ∃ a, g.Supplies p.main a :=
  h.sourced.main

/-- What holds of the functions that are supplied holds of those that are built. -/
theorem Builds.forall_function (h : g.Builds p) {P : FunctionDef → Prop}
    (huntyped : ∀ f : FunctionDef, P f.untyped ↔ P f)
    (hsupplied : ∀ main a, g.Supplies main a → ∀ f ∈ a.functions, P f) :
    ∀ f ∈ p.functions, P f :=
  h.sourced.forall_function huntyped hsupplied

theorem Builds.forall_class (h : g.Builds p) {P : ClassDef → Prop}
    (huntyped : ∀ c : ClassDef, P c.untyped ↔ P c)
    (hsupplied : ∀ main a, g.Supplies main a → ∀ c ∈ a.classes, P c) : ∀ c ∈ p.classes, P c :=
  h.sourced.forall_class huntyped hsupplied

/-- A statement of a program was supplied. -/
theorem Builds.exists_statement (h : g.Builds p) {s : Statement} (hs : s ∈ p.statements) :
    ∃ main a, g.Supplies main a ∧
      Part.statement s ∈ a.walk ++ (Block.walk main).map Part.statement :=
  h.sourced.exists_statement hs

/-- What is supplied to a valid graph is assembled from a valid graph. -/
theorem Supplies.exists_valid (h : g.Supplies main a) (hv : g.Valid) :
    ∃ (g' : Graph) (limit : Int), g'.Valid ∧ g'.assemble limit = .ok (main, a) := by
  cases h with
  | own hassemble => exact ⟨g, _, hv, hassemble⟩
  | entry _ hvalid hassemble => exact ⟨_, _, hvalid, hassemble⟩

/-- What is supplied to a graph that was loaded is assembled from a graph that was loaded. -/
theorem Supplies.exists_loaded {d : Diagram} (h : g.Supplies main a) (hload : Graph.load d = .ok g)
    (hv : g.Valid) : ∃ (d' : Diagram) (g' : Graph) (limit : Int),
      Graph.load d' = .ok g' ∧ g'.Valid ∧ g'.assemble limit = .ok (main, a) := by
  cases h with
  | own hassemble => exact ⟨d, g, _, hload, hv, hassemble⟩
  | entry hentry hvalid hassemble => exact ⟨_, _, _, hentry, hvalid, hassemble⟩

/-- Nothing but fields and methods is in a class of a program. -/
theorem Sourced.proper (h : g.Sourced p) (hv : g.Valid) : ∀ c ∈ p.classes, c.Proper := by
  refine h.forall_class ClassDef.proper_untyped fun main a ha c hc => ?_
  obtain ⟨g', limit, hv', hassemble⟩ := ha.exists_valid hv
  have hwalk : Part.classDef c ∈ a.walk ++ (Block.walk main).map Part.statement :=
    List.mem_append_left _ (List.mem_append_left _
      (List.mem_flatMap.mpr ⟨c, hc, List.mem_cons_self⟩))
  exact hv'.sound_of_mem hassemble hwalk

/-- In a program of a valid graph, the members of classes are fields and methods. -/
theorem Builds.proper (h : g.Builds p) (hv : g.Valid) : ∀ c ∈ p.classes, c.Proper :=
  h.sourced.proper hv

/-- The statements of a program have texts where texts are asked for. -/
theorem Sourced.textual (h : g.Sourced p) (hv : g.Valid) {s : Statement} (hs : s ∈ p.statements) :
    s.Textual := by
  obtain ⟨main, a, ha, hmem⟩ := h.exists_statement hs
  obtain ⟨g', limit, hv', hassemble⟩ := ha.exists_valid hv
  exact hv'.sound_of_mem hassemble hmem

end Graph

end Blockflow
