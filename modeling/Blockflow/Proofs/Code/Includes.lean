import Blockflow.Proofs.Code.Vectors

/-!
# Included headers

Which headers a C++ program includes is found by a walk through the program before anything is
written, while types are named in the lines, by the place where they stand. The header for values of
any type is there if and only if such a type is named: the types in a draft are those of parameters,
fields and bodies (`Braced.mem_programTypes_iff`), and only the types of fields and of elements may
be those of any value (`Braced.typeName_eq_any_iff`).

The header for arrays is there if and only if a line starts with the declaration of one. The head of
a loop declares a vector as well if the user writes it there, and no header is included for that
(`Graph.not_forall_includes_declared`). Apart from the texts of the user, vectors are not mentioned
anywhere else (`Graph.includes_match_lines`).
-/

namespace Blockflow.Braced

open Expression

/-! ## Types that are not known -/

/-- Only a field or an element of unknown type is written as `std::any`. -/
theorem typeName_eq_any_iff {place : TypePlace} {type : ValueType} :
    typeName .cpp place type = "std::any" ↔
      type = .unknown ∧ (place = .field ∨ place = .element) := by
  cases place <;> cases type <;> decide

theorem localVar_of_initType (i : LoopInit) :
    ∀ named ∈ (Draft.initType i).type?, named.1 = .localVar := by
  intro named hnamed
  unfold Draft.initType at hnamed
  split at hnamed
  next => cases hnamed; rfl
  next =>
    split at hnamed
    next => cases hnamed; rfl
    next =>
      split at hnamed
      next => cases hnamed; rfl
      next => cases hnamed

/-- A loop declares a variable. -/
theorem localVar_of_mem_init {first : String} {declares : Bool} :
    ∀ named ∈ (Draft.init first declares).filterMap Scrap.type?, named.1 = .localVar := by
  intro named hnamed
  obtain ⟨scrap, hscrap, hnamed⟩ := List.mem_filterMap.mp hnamed
  unfold Draft.init at hscrap
  split at hscrap
  next =>
    cases List.mem_singleton.mp hscrap
    cases hnamed
  next i _ =>
    simp only at hscrap
    split at hscrap
    next =>
      cases List.mem_singleton.mp hscrap
      cases hnamed
    next =>
      rcases List.mem_cons.mp hscrap with rfl | hscrap
      · exact localVar_of_initType i named hnamed
      · cases List.mem_singleton.mp hscrap
        cases hnamed

/-- The types that are named in a block, apart from those of variables, are those of the elements of
arrays. -/
theorem mem_blockTypes_iff {b : Block} {place : TypePlace} {type : ValueType}
    (hplace : place ≠ .localVar) : (place, type) ∈ blockTypes b ↔
      place = .element ∧ ∃ name elements node, .array name elements type node ∈ Block.walk b := by
  rw [Draft.mem_blockTypes]
  constructor
  · rintro ⟨s, hs, hnamed⟩
    cases s with
    | declare d =>
      cases List.mem_singleton.mp hnamed
      exact absurd rfl hplace
    | array name elements type node =>
      cases List.mem_singleton.mp hnamed
      exact ⟨rfl, name, elements, node, hs⟩
    | forLoop init cond step declares body node =>
      exact absurd (localVar_of_mem_init _ hnamed) hplace
    | switch subject type cases default node =>
      obtain ⟨case, -, hnamed⟩ := List.mem_flatMap.mp hnamed
      exact absurd hnamed List.not_mem_nil
    | _ => exact absurd hnamed List.not_mem_nil
  · rintro ⟨rfl, name, elements, node, hs⟩
    exact ⟨_, hs, List.mem_cons_self⟩

section

variable {p : Program} {place : TypePlace} {type : ValueType}

theorem place_of_mem_paramTypes {f : FunctionDef} (h : (place, type) ∈ paramTypes f) :
    place = .param := by
  obtain ⟨q, -, heq⟩ := List.mem_map.mp h
  cases heq
  rfl

/-- Apart from parameters, the types in a function are those of its body. -/
theorem mem_functionTypes_iff {f : FunctionDef} (hplace : place ≠ .param) :
    (place, type) ∈ functionTypes f ↔ (place, type) ∈ blockTypes f.body := by
  rw [functionTypes, List.mem_append]
  exact or_iff_right fun h => hplace (place_of_mem_paramTypes h)

theorem mem_classTypes_iff {c : ClassDef} (hplace : place ≠ .param) : (place, type) ∈ classTypes c ↔
    (place, type) ∈ fieldTypes c ∨ ∃ f ∈ c.methods, (place, type) ∈ blockTypes f.body := by
  have hagain : (place, type) ∈ (if c.hasConstructor then fieldTypes c else []) →
      (place, type) ∈ fieldTypes c := by
    split
    next => exact id
    next => exact fun h => absurd h List.not_mem_nil
  simp only [classTypes, List.mem_append, List.mem_flatMap, mem_functionTypes_iff hplace]
  exact or_congr_left (or_iff_left_of_imp hagain)

/-- The types that are named in a program, apart from those of parameters. -/
theorem mem_programTypes_iff (hplace : place ≠ .param) : (place, type) ∈ programTypes p ↔
    (∃ c ∈ p.classes, (place, type) ∈ fieldTypes c) ∨
      ∃ params body, p.HasBody params body ∧ (place, type) ∈ blockTypes body := by
  have hprototypes : (place, type) ∉ prototypeTypes p := by
    rw [prototypeTypes]
    split
    next =>
      intro h
      obtain ⟨f, -, hf⟩ := List.mem_flatMap.mp h
      exact hplace (place_of_mem_paramTypes hf)
    next => exact List.not_mem_nil
  simp only [programTypes, List.mem_append, List.mem_flatMap, or_iff_right hprototypes,
    mem_classTypes_iff hplace, mem_functionTypes_iff hplace]
  constructor
  · rintro ((⟨c, hc, hfield | ⟨f, hf, hbody⟩⟩ | ⟨f, hf, hbody⟩) | hbody)
    · exact Or.inl ⟨c, hc, hfield⟩
    · exact Or.inr ⟨_, _, .method hc hf, hbody⟩
    · exact Or.inr ⟨_, _, .function hf, hbody⟩
    · exact Or.inr ⟨_, _, .main, hbody⟩
  · rintro (⟨c, hc, hfield⟩ | ⟨params, body, hbody, hnamed⟩)
    · exact Or.inl (Or.inl ⟨c, hc, Or.inl hfield⟩)
    · cases hbody with
      | main => exact Or.inr hnamed
      | function hf => exact Or.inl (Or.inr ⟨_, hf, hnamed⟩)
      | method hc hf => exact Or.inl (Or.inl ⟨_, hc, Or.inr ⟨_, hf, hnamed⟩⟩)

end

/-! ## Headers -/

/-- Arrays are used exactly if an array is among the statements. -/
theorem usesArrays_iff {p : Program} : usesArrays p = true ↔
    ∃ name elements type node, .array name elements type node ∈ p.statements := by
  rw [usesArrays, List.any_eq_true]
  constructor
  · rintro ⟨s, hs, hmatch⟩
    split at hmatch
    next name elements type node => exact ⟨name, elements, type, node, hs⟩
    next => cases hmatch
  · rintro ⟨name, elements, type, node, hs⟩
    exact ⟨_, hs, rfl⟩

/-- Untyped values are used exactly if an array or a field is of unknown type. -/
theorem usesUntyped_iff {p : Program} : usesUntyped p = true ↔
    (∃ name elements node, .array name elements .unknown node ∈ p.statements) ∨
      ∃ c ∈ p.classes, (.field, .unknown) ∈ fieldTypes c := by
  rw [usesUntyped, Bool.or_eq_true, List.any_eq_true, List.any_eq_true]
  refine or_congr ⟨?_, ?_⟩ (exists_congr fun c => and_congr_right fun _ => ?_)
  · rintro ⟨s, hs, hmatch⟩
    split at hmatch
    next name elements type node =>
      cases of_decide_eq_true hmatch
      exact ⟨name, elements, node, hs⟩
    next => cases hmatch
  · rintro ⟨name, elements, node, hs⟩
    exact ⟨_, hs, rfl⟩
  · simp [fieldTypes]

theorem mem_includes_vector {p : Program} : "vector" ∈ includes p ↔ usesArrays p = true := by
  unfold includes
  cases usesUntyped p <;> cases usesArrays p <;> decide

theorem mem_includes_any {p : Program} : "any" ∈ includes p ↔ usesUntyped p = true := by
  unfold includes
  cases usesUntyped p <;> cases usesArrays p <;> decide

/-- The headers are in order, and none is there twice. -/
theorem pairwise_includes (p : Program) : (includes p).Pairwise (· < ·) := by
  unfold includes
  cases usesUntyped p <;> cases usesArrays p <;> decide

end Blockflow.Braced

namespace Blockflow.Graph

open Braced

variable {g : Graph} {p : Program}

/-- Every array of a program is declared in a body. -/
theorem Builds.exists_hasBody_array (hb : g.Builds p) (hv : g.Valid) {name : FieldValue}
    {elements : List String} {type : ValueType} {node : String}
    (h : .array name elements type node ∈ p.statements) :
    ∃ params body, p.HasBody params body ∧ .array name elements type node ∈ Block.walk body :=
  Program.exists_hasBody (hb.proper hv) h fun _ heq => by cases heq

/-- Every array is a line. -/
theorem Builds.exists_arrayText (hb : g.Builds p) (hv : g.Valid) (h : usesArrays p = true) :
    ∃ l ∈ p.lines .cpp, "std::vector<".toList <+: l.text.toList := by
  obtain ⟨name, elements, type, node, hs⟩ := usesArrays_iff.mp h
  obtain ⟨params, body, hbody, hs⟩ := hb.exists_hasBody_array hv hs
  obtain ⟨l, hl, -, htext⟩ := Draft.exists_line hbody hs rfl
  have htext : cpp.arrayText name.shown elements type = l.text := Option.some.inj htext
  refine ⟨l.write, (Draft.program_drafts p).written ▸ List.mem_map_of_mem hl, ?_⟩
  show "std::vector<".toList <+: l.text.toList
  rw [← htext]
  exact prefix_arrayText name.shown elements type

/-- The header for vectors is needed exactly if a line starts with the type of one. -/
theorem Builds.usesArrays_iff_line (hb : g.Builds p) (hv : g.Valid) : usesArrays p = true ↔
    ∃ l ∈ p.lines .cpp, "std::vector<".toList <+: l.text.toList := by
  refine ⟨hb.exists_arrayText hv, ?_⟩
  rintro ⟨l, hl, hstart⟩
  rcases (lineText_of_mem l hl).startsPlainly (hb.passesLine_names hv) with
    hplain | ⟨name, elements, type, node, hs, -⟩ |
      ⟨init, cond, step, declares, body, node, -, htext⟩
  · exact absurd hstart hplain.1
  · exact usesArrays_iff.mpr ⟨name, elements, type, node, hs⟩
  · exact absurd (htext ▸ hstart) (not_prefix_loopHeader init cond.shown step.shown declares)

/-- The head of a loop declares a vector if and only if the user declares it there. -/
theorem Builds.exists_loop_iff (hb : g.Builds p) (hv : g.Valid) :
    (∃ l ∈ p.lines .cpp, "for (std::vector<".toList <+: l.text.toList) ↔
      ∃ init cond step declares body node,
        .forLoop init cond step declares body node ∈ p.statements ∧
          "std::vector<".toList <+: (cpp.initText init declares).toList := by
  have hfor : "for (".toList <+: "for (std::vector<".toList := by decide
  constructor
  · rintro ⟨l, hl, hstart⟩
    rcases (lineText_of_mem l hl).startsPlainly (hb.passesLine_names hv) with
      hplain | ⟨name, elements, type, node, -, htext⟩ |
        ⟨init, cond, step, declares, body, node, hs, htext⟩
    · exact absurd (hfor.trans hstart) hplain.2
    · rcases List.prefix_or_prefix_of_prefix hstart
        (htext ▸ prefix_arrayText name.shown elements type) with h | h
      · exact absurd h (by decide)
      · exact absurd h (by decide)
    · exact ⟨init, cond, step, declares, body, node, hs, prefix_loopHeader_iff.mp (htext ▸ hstart)⟩
  · rintro ⟨init, cond, step, declares, body, node, hs, hstart⟩
    obtain ⟨params, outer, hbody, hs⟩ :=
      Program.exists_hasBody (hb.proper hv) hs fun _ heq => by cases heq
    obtain ⟨l, hl, htext⟩ := exists_loopHeader hbody hs
    exact ⟨l, hl, htext ▸ prefix_loopHeader_iff.mpr hstart⟩

/-- Apart from texts of the user, vectors are mentioned where arrays are declared. -/
theorem Builds.usesArrays_iff_mention (hb : g.Builds p) (hv : g.Valid)
    (htexts : ∀ s ∈ p.statements, ∀ text ∈ writtenTexts s, ¬ MentionsVector text) :
    usesArrays p = true ↔ ∃ l ∈ p.lines .cpp, MentionsVector l.text := by
  constructor
  · intro h
    obtain ⟨l, hl, hstart⟩ := hb.exists_arrayText hv h
    exact ⟨l, hl, hstart.isInfix⟩
  · rintro ⟨l, hl, hmention⟩
    by_contra harrays
    refine (lineText_of_mem l hl).not_mentionsVector (hb.passesLine_names hv) ?_ htexts hmention
    exact fun name elements type node hs =>
      harrays (usesArrays_iff.mpr ⟨name, elements, type, node, hs⟩)

/-- Untyped values are used exactly if `std::any` is named. -/
theorem Builds.usesUntyped_iff_named (hb : g.Builds p) (hv : g.Valid) : usesUntyped p = true ↔
    ∃ named ∈ programTypes p, typeName .cpp named.1 named.2 = "std::any" := by
  rw [usesUntyped_iff]
  constructor
  · rintro (⟨name, elements, node, hs⟩ | ⟨c, hc, hnamed⟩)
    · obtain ⟨params, body, hbody, hs⟩ := hb.exists_hasBody_array hv hs
      have hnamed : (.element, .unknown) ∈ blockTypes body :=
        (mem_blockTypes_iff (by decide)).mpr ⟨rfl, name, elements, node, hs⟩
      exact ⟨_, (mem_programTypes_iff (by decide)).mpr (Or.inr ⟨params, body, hbody, hnamed⟩), rfl⟩
    · exact ⟨_, (mem_programTypes_iff (by decide)).mpr (Or.inl ⟨c, hc, hnamed⟩), rfl⟩
  · rintro ⟨⟨place, type⟩, hnamed, hany⟩
    obtain ⟨rfl, hplace⟩ := typeName_eq_any_iff.mp hany
    have hparam : place ≠ .param := by rcases hplace with rfl | rfl <;> decide
    have hlocal : place ≠ .localVar := by rcases hplace with rfl | rfl <;> decide
    rcases (mem_programTypes_iff hparam).mp hnamed with
      ⟨c, hc, hfield⟩ | ⟨params, body, hbody, hnamed⟩
    · obtain ⟨d, -, heq⟩ := List.mem_map.mp hfield
      obtain rfl : TypePlace.field = place := congrArg Prod.fst heq
      exact Or.inr ⟨c, hc, hfield⟩
    · obtain ⟨rfl, name, elements, node, hs⟩ := (mem_blockTypes_iff hlocal).mp hnamed
      exact Or.inl ⟨name, elements, node, hbody.mem_statements hs⟩

/-- **Which headers a C++ program includes.** They are in order and there once each. The one for
arrays is there if and only if a line starts with the declaration of an array. A vector is declared
by the program if and only if this header is there or the initialiser of a loop starts with such a
type. If no text of the user mentions a vector, the header is there if and only if a line mentions
one. The header for values of any type is there if and only if there is a line in which a type is
named like that. -/
theorem includes_match_lines (hv : g.Valid) (hb : g.Builds p) :
    (includes p).Pairwise (· < ·) ∧
      ("vector" ∈ includes p ↔ ∃ l ∈ p.lines .cpp, "std::vector<".toList <+: l.text.toList) ∧
      ((∃ l ∈ p.lines .cpp, DeclaresVector l.text) ↔ "vector" ∈ includes p ∨
        ∃ init cond step declares body node,
          .forLoop init cond step declares body node ∈ p.statements ∧
            "std::vector<".toList <+: (cpp.initText init declares).toList) ∧
      ((∀ s ∈ p.statements, ∀ text ∈ writtenTexts s, ¬ MentionsVector text) →
        ("vector" ∈ includes p ↔ ∃ l ∈ p.lines .cpp, MentionsVector l.text)) ∧
      (Draft.program p).map DraftLine.write = p.lines .cpp ∧
      ("any" ∈ includes p ↔
        ∃ l ∈ Draft.program p, ∃ named ∈ l.types, typeName .cpp named.1 named.2 = "std::any") := by
  have hdraft := Draft.program_drafts p
  have hvector := mem_includes_vector.trans (hb.usesArrays_iff_line hv)
  refine ⟨pairwise_includes p, hvector, ?_, ?_, hdraft.written, ?_⟩
  · simp only [DeclaresVector, and_or_left, exists_or]
    exact or_congr hvector.symm (hb.exists_loop_iff hv)
  · exact fun htexts => mem_includes_vector.trans (hb.usesArrays_iff_mention hv htexts)
  · rw [mem_includes_any, hb.usesUntyped_iff_named hv, ← hdraft.named]
    constructor
    · rintro ⟨named, hnamed, hany⟩
      obtain ⟨l, hl, hnamed⟩ := List.mem_flatMap.mp hnamed
      exact ⟨l, hl, named, hnamed, hany⟩
    · rintro ⟨l, hl, named, hnamed, hany⟩
      exact ⟨named, List.mem_flatMap.mpr ⟨l, hl, hnamed⟩, hany⟩

/-- A class with a field whose type is not known, and with a loop in a method that declares an
array. -/
def collecting : Graph where
  nodes :=
    [{ id := "c", type := "classDefine", data := [("name", .text "Box")] },
     { id := "v", type := "assign", data := [("name", .text "v"), ("value", .text "load()")] },
     { id := "m", type := "functionDefine", data := [("name", .text "fill")] },
     { id := "w", type := "while", data := [("condition", .text "v > 0")] },
     { id := "a", type := "array", data := [("name", .text "xs"), ("values", .text "1, 2")] },
     { id := "o", type := "createObject",
       data := [("className", .text "Box"), ("name", .text "b"), ("args", .text "2")] }]
  edges :=
    [{ id := "e1", source := "c", target := "v", role := some .body },
     { id := "e2", source := "v", target := "m", role := some .next },
     { id := "e3", source := "m", target := "w", role := some .body },
     { id := "e4", source := "w", target := "a", role := some .body },
     { id := "e5", source := "c", target := "o", role := some .next }]
  nodup := by decide

theorem includes_match_lines_collecting :
    collecting.Valid ∧ ∃ b, collecting.build 100 [] = .ok b ∧
      includes b.program = ["any", "iostream", "string", "vector"] ∧
      (∃ l ∈ b.program.lines .cpp, DeclaresVector l.text) ∧
      (∀ s ∈ b.program.statements, ∀ text ∈ writtenTexts s, ¬ MentionsVector text) ∧
      (∃ l ∈ b.program.lines .cpp, MentionsVector l.text) ∧
      ∃ l ∈ Draft.program b.program, ∃ named ∈ l.types,
        typeName .cpp named.1 named.2 = "std::any" := by
  have hv : collecting.Valid := by
    unfold Valid
    decide
  obtain ⟨b, hb, hcheck⟩ : ∃ b, collecting.build 100 [] = .ok b ∧
      decide (includes b.program = ["any", "iostream", "string", "vector"] ∧
        ∀ s ∈ b.program.statements, ∀ text ∈ writtenTexts s, ¬ MentionsVector text) = true :=
    exists_build_of_any (n := 1) (by decide +kernel)
  obtain ⟨hincludes, htexts⟩ := of_decide_eq_true hcheck
  obtain ⟨-, -, hdeclares, hmentions, -, hany⟩ := includes_match_lines hv (.linked hb)
  have hvector : "vector" ∈ includes b.program := by
    rw [hincludes]
    decide
  rw [hincludes] at hany
  exact ⟨hv, b, hb, hincludes, hdeclares.mpr (Or.inl hvector), htexts,
    (hmentions htexts).mp hvector, hany.mp (by decide)⟩

/-- A loop whose initialiser declares a vector. -/
def vectorLoop : Graph where
  nodes :=
    [{ id := "f", type := "for",
       data := [("init", .text "std::vector<int> v = xs"), ("condition", .text "go"),
         ("step", .text "k++")] }]
  edges := []
  nodup := by decide

/-- The headers need not match what is declared: a vector that is declared in the head of a loop
does not count. -/
theorem not_forall_includes_declared :
    ¬ ∀ (g : Graph) (p : Program), g.Valid → g.Builds p →
      ("vector" ∈ includes p ↔ ∃ l ∈ p.lines .cpp, DeclaresVector l.text) := by
  intro h
  have hv : vectorLoop.Valid := by
    unfold Valid
    decide
  obtain ⟨b, hb, hcheck⟩ : ∃ b, vectorLoop.build 100 [] = .ok b ∧
      decide ("vector" ∉ includes b.program ∧
        ∃ l ∈ b.program.lines .cpp, DeclaresVector l.text) = true :=
    exists_build_of_any (n := 1) (by decide +kernel)
  obtain ⟨hnone, hdeclared⟩ := of_decide_eq_true hcheck
  exact hnone ((h vectorLoop b.program hv (.linked hb)).mpr hdeclared)

end Blockflow.Graph
