import Blockflow.Proofs.Program.Rebuild
import Blockflow.Proofs.Program.Supply

/-!
# The names in a program

The names in a statement or a definition are texts of fields that have to be names, or they were
read from a list of parameters. The check of a field lets a line break at the end pass, so the names
in a program that was built from a valid graph are names up to such line breaks
(`Graph.Builds.passesLine_names`). In a graph that was loaded no text can have one. Every name in a
program of such a graph is a single name, except that a call may name a function with dots in it
(`Graph.Builds.wellNamed`).
-/

namespace Blockflow

/-! ## Parameters -/

namespace Param

theorem isName_of_make {type? : Option (List Char)} {name : List Char} {q : Param}
    (hbreak : name.getLast? ≠ some '\n') (h : make type? name = .ok q) :
    Text.isName q.name.toList = true := by
  unfold make at h
  split at h
  next => cases h
  next hpasses =>
    have hname : Text.passesLine Text.isName name = true := by simpa using hpasses
    rw [Text.passesLine_eq hbreak] at hname
    split at h
    next =>
      cases h
      rwa [String.toList_ofList]
    next =>
      split at h
      next =>
        cases h
        rwa [String.toList_ofList]
      next => cases h

/-- Parameters that were read have names: they are words, so no line break is at their end. -/
theorem isName_of_parseList {s : String} {params : List Param} (h : parseList s = .ok params) :
    ∀ q ∈ params, Text.isName q.name.toList = true := by
  intro q hq
  obtain ⟨entry, -, hparse⟩ := exists_mem_of_mapM_eq_ok h q hq
  unfold parse at hparse
  split at hparse
  next name hwords =>
    exact isName_of_make (Text.break_notLast_of_mem_words (s := entry) (by simp [hwords])) hparse
  next type name hwords =>
    exact isName_of_make (Text.break_notLast_of_mem_words (s := entry) (by simp [hwords])) hparse
  next => cases hparse

end Param

/-! ## Names of parts -/

/-- The names of variables, functions and classes in a statement. The blocks inside of it and its
expressions do not count. -/
def Statement.names : Statement → List String
  | .declare d => [d.name]
  | .assign name _ _ | .array name _ _ _ => [name.shown]
  | .call name _ _ => [name]
  | .create className name _ _ => [className.shown, name.shown]
  | _ => []

/-- The names in a part: a function has the names of its parameters besides its own one. -/
def Part.names : Part → List String
  | .statement s => s.names
  | .function f => f.name :: f.params.map Param.name
  | .classDef c => [c.name]

/-- The value is a text that passes the test. -/
def FieldValue.Passes (test : List Char → Bool) (value : FieldValue) : Prop :=
  ∃ s, value = .text s ∧ test s.toList = true

/-- Variables and classes in a statement have names that pass one test, and the name of a function
that is called passes the other. -/
def Statement.NamedBy (single dotted : List Char → Bool) : Statement → Prop
  | .declare d => single d.name.toList = true
  | .assign name _ _ | .array name _ _ _ => name.Passes single
  | .create className name _ _ => className.Passes single ∧ name.Passes single
  | .call name _ _ => dotted name.toList = true
  | _ => True

/-- The names of functions, of their parameters and of classes pass the first test too. -/
def Part.NamedBy (single dotted : List Char → Bool) : Part → Prop
  | .statement s => s.NamedBy single dotted
  | .function f =>
    single f.name.toList = true ∧ ∀ q ∈ f.params, single q.name.toList = true
  | .classDef c => single c.name.toList = true

/-- All names are single names, except that the name of a function that is called consists of such
names. -/
def Part.WellNamed (q : Part) : Prop := q.NamedBy Text.isName Text.isDottedName

section

variable {single dotted : List Char → Bool}

theorem FieldValue.Passes.shown {value : FieldValue} (h : value.Passes single) :
    single value.shown.toList = true := by
  obtain ⟨s, rfl, hs⟩ := h
  exact hs

theorem Statement.NamedBy.names (hsingle : ∀ s, single s = true → dotted s = true)
    {s : Statement} (h : s.NamedBy single dotted) :
    ∀ name ∈ s.names, dotted name.toList = true := by
  cases s with
  | declare d => exact List.forall_mem_singleton.mpr (hsingle _ h)
  | assign => exact List.forall_mem_singleton.mpr (hsingle _ (FieldValue.Passes.shown h))
  | array => exact List.forall_mem_singleton.mpr (hsingle _ (FieldValue.Passes.shown h))
  | call => exact List.forall_mem_singleton.mpr h
  | create =>
    exact List.forall_mem_cons.mpr
      ⟨hsingle _ h.1.shown, List.forall_mem_singleton.mpr (hsingle _ h.2.shown)⟩
  | _ => exact List.forall_mem_nil _

/-- All names pass the test for the names of calls, if that lets single names pass. -/
theorem Part.NamedBy.names (hsingle : ∀ s, single s = true → dotted s = true) {q : Part}
    (h : q.NamedBy single dotted) : ∀ name ∈ q.names, dotted name.toList = true := by
  cases q with
  | statement s => exact Statement.NamedBy.names hsingle h
  | function f =>
    refine List.forall_mem_cons.mpr ⟨hsingle _ h.1, ?_⟩
    exact List.forall_mem_map.mpr fun q hq => hsingle _ (h.2 q hq)
  | classDef c => exact List.forall_mem_singleton.mpr (hsingle _ h)

theorem Part.namedBy_untyped (q : Part) :
    q.untyped.NamedBy single dotted ↔ q.NamedBy single dotted := by
  cases q with
  | function f => simp [untyped, NamedBy, FunctionDef.untyped]
  | _ => rfl

end

theorem FunctionDef.walk_untyped (f : FunctionDef) : f.untyped.walk = f.walk.map Part.untyped := by
  rw [walk, walk, List.map_cons, List.map_map]
  rfl

theorem ClassDef.walk_untyped (c : ClassDef) : c.untyped.walk = c.walk.map Part.untyped := by
  have hmember : ∀ m : Member, m.untyped.walk = m.walk.map Part.untyped := by
    intro m
    cases m with
    | method f => exact f.walk_untyped
    | field d => rfl
    | stray s =>
      show s.walk.map Part.statement = (s.walk.map Part.statement).map Part.untyped
      rw [List.map_map]
      rfl
  rw [walk, walk, List.map_cons, List.map_flatMap, untyped, List.flatMap_map]
  simp only [hmember]
  rfl

namespace Graph

variable {g : Graph} {p : Program}

/-- What the check lets pass as a name in the data of the graph passes these tests, and so does
every single name. -/
structure Admits (g : Graph) (single dotted : List Char → Bool) : Prop where
  isName : ∀ s, Text.isName s = true → single s = true
  single : ∀ n ∈ g.nodes, ∀ field s, n.data.get? field = some (.text s) →
    Text.passesLine Text.isName s.toList = true → single s.toList = true
  dotted : ∀ n ∈ g.nodes, ∀ field s, n.data.get? field = some (.text s) →
    Text.passesLine Text.isDottedName s.toList = true → dotted s.toList = true

theorem admits_passesLine (g : Graph) :
    g.Admits (Text.passesLine Text.isName) (Text.passesLine Text.isDottedName) :=
  ⟨fun _ => Text.passesLine_of_test, fun _ _ _ _ _ h => h, fun _ _ _ _ _ h => h⟩

/-- The check is exact where texts are tidy. -/
theorem Tidy.admits (h : g.Tidy) : g.Admits Text.isName Text.isDottedName where
  isName _ hs := hs
  single n hn field s hget hs := by rwa [(h n hn field s hget).isName_eq] at hs
  dotted n hn field s hget hs := by rwa [(h n hn field s hget).isDottedName_eq] at hs

section

variable {single dotted : List Char → Bool} {n : Node} {type : BlockType}

/-- A field that has to be an identifier is a text that passes the test for single names. -/
theorem Valid.given_passes (hv : g.Valid) (hadmits : g.Admits single dotted) (hn : n ∈ g.nodes)
    (hb : n.block? = some type) {field : String}
    (hfield : field ∈ (type.fields.filter fun spec =>
      spec.required && spec.kind = .identifier).map FieldSpec.name) :
    (n.given field).Passes single := by
  obtain ⟨s, hs, hpasses⟩ := hv.exists_identifier hn hb hfield
  refine ⟨s, ?_, hadmits.single n hn field s hs hpasses⟩
  rw [Node.given, hs]
  rfl

/-- The names of a part that is read from a valid graph pass the tests. -/
theorem Valid.namedBy_part (hv : g.Valid) (hadmits : g.Admits single dotted) (hn : n ∈ g.nodes)
    (hb : n.block? = some type) {symbols : Symbols} {heading : Heading}
    (hread : Heading.read symbols n type = .ok heading) (blocks : List (List Part)) :
    (heading.part n.id blocks).NamedBy single dotted := by
  cases type with
  | declare =>
    obtain ⟨type, -, hread⟩ := bind_eq_ok.mp hread
    obtain ⟨name, hname, hread⟩ := bind_eq_ok.mp hread
    cases hread
    have hgiven : (n.given "name").Passes single := hv.given_passes hadmits hn hb (by decide)
    obtain ⟨s, hs, hs'⟩ := hgiven
    rw [hs] at hname
    cases hname
    exact hs'
  | update =>
    cases hread
    exact hv.given_passes hadmits hn hb (by decide)
  | array =>
    obtain ⟨elements, -, hread⟩ := bind_eq_ok.mp hread
    obtain ⟨type, -, hread⟩ := bind_eq_ok.mp hread
    cases hread
    exact hv.given_passes hadmits hn hb (by decide)
  | create =>
    obtain ⟨args, -, hread⟩ := bind_eq_ok.mp hread
    cases hread
    exact ⟨hv.given_passes hadmits hn hb (by decide), hv.given_passes hadmits hn hb (by decide)⟩
  | call =>
    obtain ⟨args, -, hread⟩ := bind_eq_ok.mp hread
    cases hread
    obtain ⟨s, hs, hpasses⟩ := hv.exists_dottedName hn hb (show "name" ∈ _ by decide)
    have hgiven : (n.given "name").shown = s := by
      rw [Node.given, hs]
      rfl
    show dotted (n.given "name").shown.toList = true
    rw [hgiven]
    exact hadmits.dotted n hn _ s hs hpasses
  | function =>
    obtain ⟨text, -, hread⟩ := bind_eq_ok.mp hread
    cases hp : Param.parseList text with
    | error e =>
      rw [hp] at hread
      cases hread
    | ok params =>
      rw [hp] at hread
      cases hread
      exact ⟨(hv.given_passes hadmits hn hb (by decide)).shown,
        fun q hq => hadmits.isName _ (Param.isName_of_parseList hp q hq)⟩
  | classDef =>
    cases hread
    exact (hv.given_passes hadmits hn hb (by decide)).shown
  | print | branch | whileLoop =>
    cases hread
    trivial
  | switch =>
    obtain ⟨subject, -, hread⟩ := bind_eq_ok.mp hread
    obtain ⟨values, -, hread⟩ := bind_eq_ok.mp hread
    cases hread
    trivial
  | forLoop =>
    obtain ⟨init, -, hread⟩ := bind_eq_ok.mp hread
    cases hread
    trivial

end

/-- What holds of every part that is supplied, whatever the types of parameters are, holds of every
part of a program. -/
theorem Builds.forall_part (h : g.Builds p) {P : Part → Prop}
    (huntyped : ∀ q : Part, P q.untyped ↔ P q)
    (hsupplied : ∀ main a, g.Supplies main a →
      ∀ q ∈ a.walk ++ (Block.walk main).map .statement, P q) : ∀ q ∈ p.walk, P q := by
  have hfunctions : ∀ f ∈ p.functions, ∀ q ∈ f.walk, P q := by
    refine h.forall_function (fun f => ?_) fun main a ha f hf q hq => ?_
    · rw [f.walk_untyped, List.forall_mem_map]
      simp only [huntyped]
    · have hwalk : q ∈ a.walk := List.mem_append_right _ (List.mem_flatMap.mpr ⟨f, hf, hq⟩)
      exact hsupplied main a ha q (List.mem_append_left _ hwalk)
  have hclasses : ∀ c ∈ p.classes, ∀ q ∈ c.walk, P q := by
    refine h.forall_class (fun c => ?_) fun main a ha c hc q hq => ?_
    · rw [c.walk_untyped, List.forall_mem_map]
      simp only [huntyped]
    · have hwalk : q ∈ a.walk := List.mem_append_left _ (List.mem_flatMap.mpr ⟨c, hc, hq⟩)
      exact hsupplied main a ha q (List.mem_append_left _ hwalk)
  intro q hq
  rw [Program.walk, List.mem_append, List.mem_append] at hq
  rcases hq with (hq | hq) | hq
  · obtain ⟨c, hc, hq⟩ := List.mem_flatMap.mp hq
    exact hclasses c hc q hq
  · obtain ⟨f, hf, hq⟩ := List.mem_flatMap.mp hq
    exact hfunctions f hf q hq
  · obtain ⟨a, ha⟩ := h.exists_main
    exact hsupplied _ a ha q (List.mem_append_right _ hq)

/-- **The names in a program of a valid graph are names, up to line breaks at their ends.** -/
theorem Builds.passesLine_names (h : g.Builds p) (hv : g.Valid) :
    ∀ q ∈ p.walk, ∀ name ∈ q.names, Text.passesLine Text.isDottedName name.toList = true := by
  have hnamed : ∀ q ∈ p.walk,
      q.NamedBy (Text.passesLine Text.isName) (Text.passesLine Text.isDottedName) := by
    refine h.forall_part Part.namedBy_untyped fun main a ha q hq => ?_
    obtain ⟨g', limit, hv', hassemble⟩ := ha.exists_valid hv
    obtain ⟨n, hn, type, symbols, heading, blocks, hb, hread, rfl⟩ :=
      exists_read_of_mem hassemble hq
    exact hv'.namedBy_part g'.admits_passesLine hn hb hread blocks
  exact fun q hq => (hnamed q hq).names fun _ => Text.isDottedName_of_passesLine

/-- **The names in a program of a graph that was loaded and is valid are names.** -/
theorem Builds.wellNamed {d : Diagram} (h : g.Builds p) (hload : Graph.load d = .ok g)
    (hv : g.Valid) : ∀ q ∈ p.walk, q.WellNamed := by
  refine h.forall_part Part.namedBy_untyped fun main a ha q hq => ?_
  obtain ⟨d', g', limit, hload', hv', hassemble⟩ := ha.exists_loaded hload hv
  obtain ⟨n, hn, type, symbols, heading, blocks, hb, hread, rfl⟩ := exists_read_of_mem hassemble hq
  exact hv'.namedBy_part (tidy_of_load hload').admits hn hb hread blocks

theorem Builds.isDottedName {d : Diagram} (h : g.Builds p) (hload : Graph.load d = .ok g)
    (hv : g.Valid) {q : Part} (hq : q ∈ p.walk) :
    ∀ name ∈ q.names, Text.isDottedName name.toList = true :=
  Part.NamedBy.names (fun _ => Text.isDottedName_of_isName) (h.wellNamed hload hv q hq)

end Graph

end Blockflow
