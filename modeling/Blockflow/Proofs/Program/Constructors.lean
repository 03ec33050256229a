import Blockflow.Proofs.Program.Supply

/-!
# Classes that need a constructor

A class is marked if an object of it is created with arguments, be it in the main block, in a
function or in a method, and however deep in there. Such a creation has to name a class of the
program and to give one argument for each of its fields.

Marks are set once, when everything is linked: no definition is marked before
(`Graph.Links.unmarked`), and then exactly the classes that are created with arguments are
(`Graph.build_marks`). A creation that does not fit is what the failure is about.
-/

namespace Blockflow

/-! ## Where statements stand -/

/-- The statement stands in the block, or in a block inside of one of its statements. -/
inductive Statement.StandsIn (s : Statement) : Block → Prop where
  | here {b : Block} : s ∈ b → StandsIn s b
  | inside {b inner : Block} {t : Statement} :
      t ∈ b → inner ∈ t.blocks → StandsIn s inner → StandsIn s b

theorem Statement.StandsIn.cons {s t : Statement} {rest : Block} (h : s.StandsIn rest) :
    s.StandsIn (t :: rest) := by
  cases h with
  | here hs => exact .here (List.mem_cons_of_mem _ hs)
  | inside ht hinner h => exact .inside (List.mem_cons_of_mem _ ht) hinner h

theorem Block.mem_walk_of_mem {s : Statement} : ∀ {b : Block}, s ∈ b → s ∈ Block.walk b
  | t :: rest, h => by
    rw [Block.walk, t.walk_eq]
    rcases List.mem_cons.mp h with rfl | h
    · exact List.mem_append_left _ List.mem_cons_self
    · exact List.mem_append_right _ (mem_walk_of_mem h)

/-- A block is walked through completely. -/
theorem Block.mem_walk_iff {s : Statement} {b : Block} : s ∈ Block.walk b ↔ s.StandsIn b := by
  constructor
  · intro h
    induction b using Block.nested_induction with
    | nil => exact absurd h List.not_mem_nil
    | cons t rest hblocks hrest =>
      rw [Block.walk, t.walk_eq] at h
      rcases List.mem_append.mp h with h | h
      · rcases List.mem_cons.mp h with rfl | h
        · exact .here List.mem_cons_self
        · obtain ⟨inner, hinner, h⟩ := List.mem_flatMap.mp h
          exact .inside List.mem_cons_self hinner (hblocks inner hinner h)
      · exact (hrest h).cons
  · intro h
    induction h with
    | here hs => exact mem_walk_of_mem hs
    | inside ht hinner _ ih => exact Block.walk_subset (mem_walk_of_mem ht) _ hinner ih

/-! ## Creations and the classes that they name -/

namespace Program

variable {p q : Program} {className : FieldValue} {args : List String} {node : String}

/-- Somewhere in a body of the program, an object is created with these arguments. -/
def Creates (p : Program) (className : FieldValue) (args : List String) (node : String) : Prop :=
  ∃ params body name, p.HasBody params body ∧
    (Statement.create className name args node).StandsIn body

/-- There is such a class, and it has a field for each argument. -/
def Fits (p : Program) (className : FieldValue) (args : List String) : Prop :=
  ∃ c ∈ p.classes, className = .text c.name ∧ args.length = c.fields.length

/-- All objects that are created with arguments fit their classes. -/
def FieldsFit (p : Program) : Prop :=
  ∀ className args node, p.Creates className args node → args ≠ [] → p.Fits className args

/-- The failure is about an object that is created with arguments: there is no such class, or it has
another number of fields. -/
inductive Blames (p : Program) : Failure → Prop where
  | missing {name : String} {args : List String} {node : String} :
      p.Creates (.text name) args node → args ≠ [] → (∀ c ∈ p.classes, c.name ≠ name) →
      Blames p (.compile (.unresolved node name .unknownClass))
  | arity {c : ClassDef} {args : List String} {node : String} :
      c ∈ p.classes → p.Creates (.text c.name) args node → args ≠ [] →
      args.length ≠ c.fields.length →
      Blames p (.compile (.invalid
        [{ cause := .wrongArity c.name c.fields.length args.length, node := some node }]))

/-- Objects that are created with arguments have fields. -/
theorem FieldsFit.fields_ne_nil (hfit : p.FieldsFit) (hnodup : (p.classes.map ClassDef.name).Nodup)
    {c : ClassDef} (hc : c ∈ p.classes) (h : p.Creates (.text c.name) args node)
    (hne : args ≠ []) : c.fields ≠ [] := by
  obtain ⟨c', hc', hname, hlength⟩ := hfit _ _ _ h hne
  obtain rfl := List.inj_on_of_nodup_map hnodup hc hc' (FieldValue.text.inj hname)
  intro hnil
  rw [hnil] at hlength
  exact hne (List.length_eq_zero_iff.mp hlength)

theorem creates_iff (hproper : ∀ c ∈ p.classes, c.Proper) :
    p.Creates className args node ↔ ∃ name, .create className name args node ∈ p.statements := by
  constructor
  · rintro ⟨params, body, name, hbody, hstands⟩
    exact ⟨name, hbody.mem_statements (Block.mem_walk_iff.mpr hstands)⟩
  · rintro ⟨name, hs⟩
    obtain ⟨params, body, hbody, hwalk⟩ := exists_hasBody hproper hs fun _ heq => by cases heq
    exact ⟨params, body, name, hbody, Block.mem_walk_iff.mp hwalk⟩

/-- What a statement has to say about constructors. -/
inductive Judges (p : Program) : Statement → Except Failure (Option String) → Prop where
  | other {s : Statement} :
      (∀ className name args node, s = .create className name args node → args = []) →
      Judges p s (.ok none)
  | fits {c : ClassDef} {name : FieldValue} {args : List String} {node : String} :
      c ∈ p.classes → args ≠ [] → args.length = c.fields.length →
      Judges p (.create (.text c.name) name args node) (.ok (some c.name))
  | missing {className : String} {name : FieldValue} {args : List String} {node : String} :
      args ≠ [] → (∀ c ∈ p.classes, c.name ≠ className) →
      Judges p (.create (.text className) name args node)
        (.error (.compile (.unresolved node className .unknownClass)))
  | arity {c : ClassDef} {name : FieldValue} {args : List String} {node : String} :
      c ∈ p.classes → args ≠ [] → args.length ≠ c.fields.length →
      Judges p (.create (.text c.name) name args node) (.error (.compile (.invalid
        [{ cause := .wrongArity c.name c.fields.length args.length, node := some node }])))

theorem judges_constructed? {s : Statement} (hs : s.Textual) : p.Judges s (p.constructed? s) := by
  unfold constructed?
  split
  next => exact .other fun _ _ _ _ heq => by cases heq; rfl
  next className name args node hargs =>
    obtain ⟨text, rfl⟩ := FieldValue.exists_text hs
    have hne : args ≠ [] := fun hnil => hargs hnil
    simp only [FieldValue.key, Except.mapError, bind, Except.bind]
    cases hfind : p.classes.find? (·.name = text) with
    | none =>
      refine .missing hne fun c hc => ?_
      simpa using List.find?_eq_none.mp hfind c hc
    | some c =>
      have hname : c.name = text := by simpa using List.find?_some hfind
      have hc := List.mem_of_find?_eq_some hfind
      subst hname
      by_cases hlength : args.length = c.fields.length
      · simp only [if_pos hlength]
        exact .fits hc hne hlength
      · simp only [if_neg hlength]
        exact .arity hc hne hlength
  next hcreate => exact .other fun className name args node heq => absurd heq (hcreate _ _ _ _)

/-- A statement that does not fit stops the marking, and nothing else does. -/
theorem exists_constructed?_iff (hnodup : (p.classes.map ClassDef.name).Nodup) {s : Statement}
    (hs : s.Textual) :
    (∃ r, p.constructed? s = .ok r) ↔
      ∀ className name args node, s = .create className name args node → args ≠ [] →
        p.Fits className args := by
  have hjudges := judges_constructed? (p := p) hs
  constructor
  · rintro ⟨r, hr⟩ className name args node rfl hne
    rw [hr] at hjudges
    cases hjudges with
    | other hargs => exact absurd (hargs _ _ _ _ rfl) hne
    | fits hc _ hlength => exact ⟨_, hc, rfl, hlength⟩
  · intro hfits
    cases hr : p.constructed? s with
    | ok r => exact ⟨r, rfl⟩
    | error failure =>
      rw [hr] at hjudges
      cases hjudges with
      | missing hne hmissing =>
        obtain ⟨c, hc, hname, -⟩ := hfits _ _ _ _ rfl hne
        cases hname
        exact absurd rfl (hmissing c hc)
      | @arity c _ _ _ hc hne hlength =>
        obtain ⟨c', hc', hname, hlength'⟩ := hfits _ _ _ _ rfl hne
        obtain rfl := List.inj_on_of_nodup_map hnodup hc hc' (FieldValue.text.inj hname)
        exact absurd hlength' hlength

/-- A failure of the marking is about a statement of the program. -/
theorem blames_of_constructed? {s : Statement} (hs : s.Textual)
    (hproper : ∀ c ∈ p.classes, c.Proper) (hmem : s ∈ p.statements) {failure : Failure}
    (h : p.constructed? s = .error failure) : p.Blames failure := by
  have hjudges := judges_constructed? (p := p) hs
  rw [h] at hjudges
  cases hjudges with
  | missing hne hmissing => exact .missing ((creates_iff hproper).mpr ⟨_, hmem⟩) hne hmissing
  | arity hc hne hlength => exact .arity hc ((creates_iff hproper).mpr ⟨_, hmem⟩) hne hlength

/-! ## Marking -/

/-- The names that are needed are those in creations with arguments. -/
theorem mem_needed_iff {needed : List (Option String)}
    (htextual : ∀ s ∈ p.statements, s.Textual)
    (hneeded : p.statements.mapM p.constructed? = .ok needed) {text : String} :
    text ∈ needed.filterMap id ↔
      ∃ name args node, .create (.text text) name args node ∈ p.statements ∧ args ≠ [] := by
  rw [List.mem_filterMap]
  constructor
  · rintro ⟨r, hr, heq⟩
    cases heq
    obtain ⟨s, hs, hconstructed⟩ := exists_mem_of_mapM_eq_ok hneeded _ hr
    have hjudges := judges_constructed? (p := p) (htextual s hs)
    rw [hconstructed] at hjudges
    cases hjudges with
    | fits _ hne _ => exact ⟨_, _, _, hs, hne⟩
  · rintro ⟨name, args, node, hs, hne⟩
    obtain ⟨r, hr, hconstructed⟩ := mapM_eq_ok_mem hneeded _ hs
    have hjudges := judges_constructed? (p := p) (htextual _ hs)
    rw [hconstructed] at hjudges
    cases hjudges with
    | other hargs => exact absurd (hargs _ _ _ _ rfl) hne
    | fits _ _ _ => exact ⟨_, hr, rfl⟩

end Program

/-! ## No marks before linking is done -/

/-- None of the classes is marked. -/
def Unmarked (classes : List ClassDef) : Prop := ∀ c ∈ classes, c.hasConstructor = false

namespace Graph

variable {g : Graph} {limit : Int} {lib : Library} {main : Block} {a : Assembly} {p : Program}

theorem unmarked_of_assemble (h : g.assemble limit = .ok (main, a)) : Unmarked a.classes := by
  intro c hc
  have hwalk : Part.classDef c ∈ a.walk ++ (Block.walk main).map Part.statement :=
    List.mem_append_left _ (List.mem_append_left _
      (List.mem_flatMap.mpr ⟨c, hc, List.mem_cons_self⟩))
  obtain ⟨n, -, type, symbols, heading, blocks, -, -, heq⟩ := exists_read_of_mem h hwalk
  cases heading <;> cases heq
  rfl

theorem unmarked_finish (h : Unmarked a.classes) (main : Block) :
    Unmarked (a.finish main).classes := by
  intro c hc
  obtain ⟨c', hc', rfl⟩ := List.mem_map.mp hc
  exact h c' hc'

/-- An entry of the library brings no marks along. -/
theorem unmarked_step {k : Linker} {s t : Resolving} (h : Unmarked s.linking.assembly.classes)
    (hstep : k.Step s t) : Unmarked t.linking.assembly.classes := by
  cases hstep with
  | answered _ => exact h
  | taken _ _ hload =>
    obtain ⟨entry, block, b, -, -, hassemble, -, rfl, rfl⟩ := loadEntry_eq_ok.mp hload
    intro c hc
    rcases mem_of_mem_addMissing hc with hc | hc
    · exact h c hc
    · exact unmarked_finish (unmarked_of_assemble hassemble) block c hc

theorem Links.unmarked (h : g.Links limit lib p) : Unmarked p.classes := by
  obtain ⟨main, a, l, hassemble, hlink, rfl⟩ := h
  obtain ⟨asked, hends⟩ := exists_ends_link limit lib a
  rw [hlink] at hends
  obtain ⟨t, ht, hstop⟩ := hends.exists_stop unmarked_step (unmarked_of_assemble hassemble)
  cases hstop
  exact unmarked_finish ht main

theorem Links.nodup (h : g.Links limit lib p) : (p.classes.map ClassDef.name).Nodup := by
  obtain ⟨main, a, l, hassemble, hlink, rfl⟩ := h
  rw [ClassDef.map_name_of_untyped (l.assembly.untyped_finish main).2]
  exact (sound_of_link hassemble hlink).nodup .classDef

/-! ## Constructors of a linked program -/

/-- What becomes of a linked program depends on its constructors only. -/
theorem Links.build_eq (h : g.Links limit lib p) (hv : g.Valid) :
    (∀ q, p.withConstructors = .ok q → ∃ b, g.build limit lib = .ok b) ∧
      ∀ failure, p.withConstructors = .error failure → g.build limit lib = .error failure := by
  obtain ⟨main, a, l, hassemble, hlink, rfl⟩ := h
  have htexts := hv.namesAreTexts hassemble
  constructor
  · intro q hq
    exact ⟨⟨q, a.symbols, l.assembly.calls, l.lookups⟩,
      build_eq_ok.mpr ⟨main, a, l, hassemble, htexts, hlink, hq, rfl, rfl, rfl⟩⟩
  · intro failure hfailure
    rw [build, hassemble]
    simp only [bind, Except.bind, if_pos htexts, hlink, hfailure]

/-- A linked program has its constructors if all creations fit. -/
theorem Links.exists_withConstructors_iff (h : g.Links limit lib p) (hv : g.Valid) :
    (∃ q, p.withConstructors = .ok q) ↔ p.FieldsFit := by
  have hproper := h.sourced.proper hv
  rw [Program.exists_withConstructors_iff]
  constructor
  · intro hall className args node hcreates hne
    obtain ⟨name, hs⟩ := (Program.creates_iff hproper).mp hcreates
    have hr := hall _ (Program.mem_statements.mp hs)
    exact (Program.exists_constructed?_iff h.nodup (h.sourced.textual hv hs)).mp hr _ _ _ _ rfl hne
  · intro hfit s hs
    have hs := Program.mem_statements.mpr hs
    refine (Program.exists_constructed?_iff h.nodup (h.sourced.textual hv hs)).mpr ?_
    rintro className name args node rfl hne
    exact hfit _ _ _ ((Program.creates_iff hproper).mpr ⟨name, hs⟩) hne

/-- If linking succeeds and the constructors fail, a creation is to blame. -/
theorem Links.blames (h : g.Links limit lib p) (hv : g.Valid) {failure : Failure}
    (hfailure : p.withConstructors = .error failure) : p.Blames failure := by
  unfold Program.withConstructors at hfailure
  rcases bind_eq_error.mp hfailure with hfailure | ⟨needed, -, hfailure⟩
  · obtain ⟨s, hs, hfailure⟩ := mapM_eq_error_mem hfailure
    exact Program.blames_of_constructed? (h.sourced.textual hv hs) (h.sourced.proper hv) hs hfailure
  · cases hfailure

/-- Marking changes neither what is created nor what fits. -/
theorem fits_withConstructors {q : Program} (h : p.withConstructors = .ok q)
    {className : FieldValue} {args : List String} (hfits : p.Fits className args) :
    q.Fits className args := by
  obtain ⟨needed, -, rfl⟩ := Program.withConstructors_eq_ok.mp h
  obtain ⟨c, hc, hname, hlength⟩ := hfits
  refine ⟨_, List.mem_map_of_mem hc, ?_, ?_⟩
  · rw [ClassDef.name_marked, hname]
  · rw [ClassDef.fields_marked, hlength]

theorem creates_withConstructors {q : Program} (h : p.withConstructors = .ok q)
    (hp : ∀ c ∈ p.classes, c.Proper) (hq : ∀ c ∈ q.classes, c.Proper) (className : FieldValue)
    (args : List String) (node : String) :
    q.Creates className args node ↔ p.Creates className args node := by
  rw [Program.creates_iff hp, Program.creates_iff hq, Program.statements_withConstructors h]

theorem hasConstructor_iff {q : Program} (hlinks : g.Links limit lib p) (hv : g.Valid)
    (h : p.withConstructors = .ok q) {c : ClassDef} (hc : c ∈ q.classes) :
    c.hasConstructor = true ↔ ∃ args node, p.Creates (.text c.name) args node ∧ args ≠ [] := by
  obtain ⟨needed, hneeded, rfl⟩ := Program.withConstructors_eq_ok.mp h
  obtain ⟨d, hd, rfl⟩ := List.mem_map.mp hc
  have htextual : ∀ s ∈ p.statements, s.Textual := fun s hs => hlinks.sourced.textual hv hs
  rw [ClassDef.hasConstructor_marked, ClassDef.name_marked, hlinks.unmarked d hd,
    Program.mem_needed_iff htextual hneeded]
  constructor
  · rintro (⟨name, args, node, hs, hne⟩ | hfalse)
    · exact ⟨args, node, (Program.creates_iff (hlinks.sourced.proper hv)).mpr ⟨name, hs⟩, hne⟩
    · cases hfalse
  · rintro ⟨args, node, hcreates, hne⟩
    obtain ⟨name, hs⟩ := (Program.creates_iff (hlinks.sourced.proper hv)).mp hcreates
    exact Or.inl ⟨name, args, node, hs, hne⟩

theorem Links.fieldsFit_withConstructors {q : Program} (h : g.Links limit lib p) (hv : g.Valid)
    (hprogram : p.withConstructors = .ok q) (hq : ∀ c ∈ q.classes, c.Proper) : q.FieldsFit := by
  intro className args node hcreates hne
  have hcreates := (creates_withConstructors hprogram (h.sourced.proper hv) hq _ _ _).mp hcreates
  have hfit := (h.exists_withConstructors_iff hv).mp ⟨q, hprogram⟩
  exact fits_withConstructors hprogram (hfit _ _ _ hcreates hne)

theorem Links.nodup_withConstructors {q : Program} (h : g.Links limit lib p)
    (hprogram : p.withConstructors = .ok q) : (q.classes.map ClassDef.name).Nodup := by
  rw [ClassDef.map_name_of_untyped (Program.untyped_withConstructors hprogram).2.2]
  exact h.nodup

/-- **Exactly the classes that are created with arguments are marked.** In the program that is built
from a valid graph with any library, walking through it meets each creation in the main block, in a
function or in a method, however deep. A class is marked if and only if one of the creations names
it and has arguments. Each such creation names a class of the program and has as many arguments as
the class has fields, so a marked class has fields. Once a program is linked, it is built if all
creations with arguments fit; if one of them does not, building fails, and the failure is about such
a creation. -/
theorem build_marks (hv : g.Valid) (limit : Int) (lib : Library) :
    (∀ b, g.build limit lib = .ok b →
      (∀ className args node, b.program.Creates className args node ↔
        ∃ name, Part.statement (.create className name args node) ∈ b.program.walk) ∧
      (∀ c ∈ b.program.classes, c.hasConstructor = true ↔
        ∃ args node, b.program.Creates (.text c.name) args node ∧ args ≠ []) ∧
      b.program.FieldsFit ∧
      ∀ c ∈ b.program.classes, c.hasConstructor = true → c.fields ≠ []) ∧
    ∀ p, g.Links limit lib p →
      (p.FieldsFit → ∃ b, g.build limit lib = .ok b) ∧
      (¬ p.FieldsFit → ∃ failure, p.Blames failure ∧ g.build limit lib = .error failure) := by
  constructor
  · intro b hb
    obtain ⟨q, hlinks, hprogram⟩ := exists_links_of_build hb
    have hproper := (Builds.linked hb).proper hv
    have hcreates := creates_withConstructors hprogram (hlinks.sourced.proper hv) hproper
    have hmarked : ∀ c ∈ b.program.classes, c.hasConstructor = true ↔
        ∃ args node, b.program.Creates (.text c.name) args node ∧ args ≠ [] := by
      intro c hc
      simp only [hcreates]
      exact hasConstructor_iff hlinks hv hprogram hc
    have hfit := hlinks.fieldsFit_withConstructors hv hprogram hproper
    refine ⟨fun className args node => ?_, hmarked, hfit, fun c hc hmark hnil => ?_⟩
    · rw [Program.creates_iff hproper]
      exact exists_congr fun name => Program.mem_statements
    · obtain ⟨args, node, h, hne⟩ := (hmarked c hc).mp hmark
      exact hfit.fields_ne_nil (hlinks.nodup_withConstructors hprogram) hc h hne hnil
  · intro p hlinks
    have hiff := hlinks.exists_withConstructors_iff hv
    constructor
    · intro hfit
      obtain ⟨q, hq⟩ := hiff.mpr hfit
      exact (hlinks.build_eq hv).1 q hq
    · intro hfit
      cases hresult : p.withConstructors with
      | ok q => exact absurd (hiff.mp ⟨q, hresult⟩) hfit
      | error failure =>
        exact ⟨failure, hlinks.blames hv hresult, (hlinks.build_eq hv).2 failure hresult⟩

/-- A saved function that comes with a class of two fields, and creates an object of it. -/
def cageLibrary : Library :=
  [("house", .ok
    { name := "house"
      subgraph :=
        { nodes :=
            [{ id := "cage", type := "classDefine", data := [("name", .str "Cage")] },
             { id := "width", type := "assign", data := [("name", .str "w"), ("value", .str "0")] },
             { id := "height", type := "assign"
               data := [("name", .str "h"), ("value", .str "0")] },
             { id := "house", type := "functionDefine", data := [("name", .str "house")] },
             { id := "build", type := "createObject",
               data := [("className", .str "Cage"), ("name", .str "c"), ("args", .str "1, 2")] }]
          edges :=
            [{ id := "e1", source := "cage", target := "width", sourceHandle := some "body" },
             { id := "e2", source := "width", target := "height", sourceHandle := some "next" },
             { id := "e3", source := "cage", target := "house", sourceHandle := some "next" },
             { id := "e4", source := "house", target := "build"
               sourceHandle := some "body" }] } })]

/-- An object of a class with one field is created with the given arguments, in a branch inside of a
method; an object of another class without any. A function of the library is called. -/
def kennel (args : String) : Graph where
  nodes :=
    [{ id := "dog", type := "classDefine", data := [("name", .text "Dog")] },
     { id := "age", type := "assign", data := [("name", .text "age"), ("value", .text "0")] },
     { id := "breed", type := "functionDefine", data := [("name", .text "breed")] },
     { id := "test", type := "if", data := [("condition", .text "x > 0")] },
     { id := "pup", type := "createObject",
       data := [("className", .text "Dog"), ("name", .text "d"), ("args", .text args)] },
     { id := "cat", type := "classDefine", data := [("name", .text "Cat")] },
     { id := "stray", type := "createObject",
       data := [("className", .text "Cat"), ("name", .text "c"), ("args", .text "")] },
     { id := "house", type := "functionCall", data := [("name", .text "house")] }]
  edges :=
    [{ id := "e1", source := "dog", target := "age", role := some .body },
     { id := "e2", source := "age", target := "breed", role := some .next },
     { id := "e3", source := "breed", target := "test", role := some .body },
     { id := "e4", source := "test", target := "pup", role := some .whenTrue },
     { id := "e5", source := "dog", target := "cat", role := some .next },
     { id := "e6", source := "cat", target := "stray", role := some .next },
     { id := "e7", source := "stray", target := "house", role := some .next }]
  nodup := by simp

theorem build_marks_kennel :
    (kennel "3").Valid ∧
    ∃ b, (kennel "3").build 100 cageLibrary = .ok b ∧
      b.program.classes.map (fun c => (c.name, c.hasConstructor)) =
        [("Dog", true), ("Cat", false), ("Cage", true)] ∧
      b.program.FieldsFit ∧
      ∀ c ∈ b.program.classes, c.hasConstructor = true →
        c.fields ≠ [] ∧ ∃ args node, b.program.Creates (.text c.name) args node ∧ args ≠ [] := by
  have hv : (kennel "3").Valid := by
    unfold Valid
    decide +kernel
  obtain ⟨b, hb, hclasses⟩ : ∃ b, (kennel "3").build 100 cageLibrary = .ok b ∧
      decide (b.program.classes.map (fun c => (c.name, c.hasConstructor)) =
        [("Dog", true), ("Cat", false), ("Cage", true)]) = true :=
    exists_build_of_any (n := 3) (by decide +kernel)
  obtain ⟨-, hmarked, hfit, hfields⟩ := (build_marks hv 100 cageLibrary).1 b hb
  exact ⟨hv, b, hb, of_decide_eq_true hclasses, hfit,
    fun c hc hmark => ⟨hfields c hc hmark, (hmarked c hc).mp hmark⟩⟩

-- one argument too many for the class
example : ((kennel "3, 4").buildWithin 3 100 cageLibrary).map Except.isOk = some false := by
  decide +kernel

end Graph

end Blockflow
