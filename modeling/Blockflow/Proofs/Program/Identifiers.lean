import Blockflow.Proofs.Expression.Qualifying
import Blockflow.Proofs.Program.Names

/-!
# Names are exact

A name in a program stands in one line and is cut into tokens as it is, whatever comes after it:
into one token, or for the name of a call into one for each piece and one for each dot
(`Text.Exact`). So no line and no other token is added to a text by the names that are put into it.

The check of names lets a line break at the end pass. That makes no difference in a graph that was
loaded, because texts are stripped when they are loaded and parameters are words
(`Graph.names_exact`).
-/

namespace Blockflow

open Text Token

namespace Text

/-! ## Exact names -/

theorem splitOn_ne_nil (separator : Char) (s : List Char) : splitOn separator s ≠ [] := by
  fun_cases splitOn separator s <;> simp

theorem intercalate_splitOn (separator : Char) (s : List Char) :
    [separator].intercalate (splitOn separator s) = s := by
  fun_induction splitOn separator s with
  | case1 => rfl
  | case2 rest ih =>
    obtain ⟨piece, more, hpieces⟩ := List.exists_cons_of_ne_nil (splitOn_ne_nil separator rest)
    rw [hpieces] at ih ⊢
    rw [List.intercalate_cons_cons, ih]
    rfl
  | case3 c rest hc hpieces ih => exact absurd hpieces (splitOn_ne_nil separator rest)
  | case4 c rest hc piece more hpieces ih =>
    rw [hpieces] at ih
    cases more with
    | nil => simpa using ih
    | cons next others =>
      rw [List.intercalate_cons_cons] at ih ⊢
      rw [← ih]
      rfl

/-- The text consists of the pieces, which are names, with single dots between them. It stands in
one line. The tokens of the text are the pieces and the dots, and what comes after it is cut into
the same tokens as without it. -/
structure Exact (s : List Char) (pieces : List (List Char)) : Prop where
  pieces_ne_nil : pieces ≠ []
  isName : ∀ piece ∈ pieces, isName piece = true
  joined : s = ['.'].intercalate pieces
  oneLine : '\n' ∉ s
  cut : ∀ tail : List Char, (∀ c ∈ tail.head?, isNameChar c = false) →
    tokens (s ++ tail) =
      (pieces.map (Token.mk .name)).intersperse (Expression.sign ".") ++ tokens tail

theorem tokens_intercalate {pieces : List (List Char)} (hne : pieces ≠ [])
    (h : ∀ piece ∈ pieces, isName piece = true) {tail : List Char}
    (htail : ∀ c ∈ tail.head?, isNameChar c = false) :
    tokens (['.'].intercalate pieces ++ tail) =
      (pieces.map (Token.mk .name)).intersperse (Expression.sign ".") ++ tokens tail := by
  induction pieces with
  | nil => exact absurd rfl hne
  | cons piece rest ih =>
    rw [List.forall_mem_cons] at h
    cases rest with
    | nil =>
      have hpiece : Token.Leads ⟨.name, piece⟩ tail := leads_name h.1 htail
      simpa using hpiece.tokens_eq
    | cons next others =>
      -- the dot ends the piece before it, and the piece behind it keeps it from starting a number
      have hnext : isName next = true := h.2 next List.mem_cons_self
      obtain ⟨after, hafter⟩ :
          ∃ after, ['.'].intercalate (next :: others) ++ tail = next ++ after := by
        cases others with
        | nil => exact ⟨tail, by simp⟩
        | cons d more =>
          exact ⟨_, by rw [List.intercalate_cons_cons, List.append_assoc, List.append_assoc]⟩
      have hdot : Token.Leads (Expression.sign ".") (next ++ after) :=
        Expression.leads_point hnext after
      have hpiece : Token.Leads ⟨.name, piece⟩ ((Expression.sign ".").text ++ (next ++ after)) :=
        leads_name h.1 fun c hc => by
          cases hc
          decide
      have htext : ['.'].intercalate (piece :: next :: others) ++ tail =
          piece ++ ((Expression.sign ".").text ++ (next ++ after)) := by
        rw [List.intercalate_cons_cons, ← hafter, List.append_assoc, List.append_assoc]
        rfl
      rw [htext, hpiece.tokens_eq, hdot.tokens_eq, ← hafter, ih (List.cons_ne_nil _ _) h.2]
      rfl

/-- A name is exact; if it is a single one, then it is one token. -/
theorem exists_exact {s : List Char} (h : isDottedName s = true) :
    ∃ pieces, Exact s pieces ∧ (isName s = true → pieces = [s]) := by
  have hne := splitOn_ne_nil '.' s
  have hpieces : ∀ piece ∈ splitOn '.' s, isName piece = true := List.all_eq_true.mp h
  refine ⟨splitOn '.' s, ⟨hne, hpieces, (intercalate_splitOn '.' s).symm, ?_, fun tail htail => ?_⟩,
    fun hname => splitOn_of_notMem (dot_notMem_of_isName hname)⟩
  · intro hbreak
    rcases isNameChar_of_mem_dotted h hbreak with hdot | hchar
    · exact absurd hdot (by decide)
    · exact absurd hchar (by decide)
  · have htokens := tokens_intercalate hne hpieces htail
    rwa [intercalate_splitOn] at htokens

end Text

/-! ## Names in a program -/

namespace Graph

variable {g : Graph}

/-- **Names are exact.** Every name in a program that is built from a graph that was loaded and has
no issues is exact, whatever it is linked with, and only calls have names of more than one piece.
The check of the graph is exact as well: no text of a field, and no word in one, passes as a name
because a line break at its end is let pass. -/
theorem names_exact {d : Diagram} (hload : Graph.load d = .ok g) :
    (∀ p, g.Valid → g.Builds p → ∀ q ∈ p.walk, q.WellNamed ∧
      ∀ name ∈ q.names, ∃ pieces, Exact name.toList pieces ∧
        (isName name.toList = true → pieces = [name.toList])) ∧
    ∀ n ∈ g.nodes, ∀ field s, n.data.get? field = some (.text s) →
      passesLine isName s.toList = isName s.toList ∧
      passesLine isDottedName s.toList = isDottedName s.toList ∧
      ∀ entry ∈ Expression.listItems s.toList, ∀ word ∈ words entry,
        passesLine isName word = isName word := by
  refine ⟨fun p hv h q hq => ⟨h.wellNamed hload hv q hq, fun name hname => ?_⟩,
    fun n hn field s hget => ?_⟩
  · exact exists_exact (h.isDottedName hload hv hq name hname)
  · have htidy := tidy_of_load hload n hn field s hget
    exact ⟨htidy.isName_eq, htidy.isDottedName_eq,
      fun entry _ word hword => passesLine_eq (break_notLast_of_mem_words hword)⟩

/-- Names of all kinds, with blanks and line breaks around them. -/
def spaced : Diagram where
  nodes :=
    [{ id := "v", type := "assign", data := [("name", .str " total\n"), ("value", .int 1)] },
     { id := "a", type := "array",
       data := [("name", .arr [.str "xs\n"]), ("values", .str "1, 2")] },
     { id := "c", type := "classDefine", data := [("name", .str "Box\n")] },
     { id := "d", type := "functionDefine", data := [("name", .str "open\n")] },
     { id := "o", type := "createObject",
       data := [("className", .str "Box"), ("name", .arr [.arr [.str "\nbox"]])] },
     { id := "m", type := "functionCall", data := [("name", .str "box.open\n")] },
     { id := "f", type := "functionCall", data := [("name", .str "echo\r\n")] }]
  edges :=
    [{ id := "e1", source := "v", target := "a" }, { id := "e2", source := "a", target := "c" },
     { id := "e3", source := "c", target := "o" }, { id := "e4", source := "o", target := "m" },
     { id := "e5", source := "m", target := "f" },
     { id := "e6", source := "c", target := "d", sourceHandle := some "body" }]

/-- The graph of the diagram. -/
def spacedGraph : Graph where
  nodes := spaced.nodes.map Node.ofDrawn
  edges := spaced.edges.map Edge.ofDrawn
  nodup := show ["v", "a", "c", "d", "o", "m", "f"].Nodup by decide

/-- A library with a function whose parameters are in several lines. -/
def spacedLibrary : Library :=
  [("echo", .ok
    { name := "echo"
      subgraph :=
        { nodes :=
            [{ id := "define", type := "functionDefine"
               data := [("name", .str "echo\n"), ("params", .str "a,\n int\n b\n")] }] } })]

theorem load_spaced : Graph.load spaced = .ok spacedGraph :=
  load_eq (by decide) _

theorem names_exact_spaced :
    Graph.load spaced = .ok spacedGraph ∧ spacedGraph.Valid ∧
      ∃ b, spacedGraph.build 100 spacedLibrary = .ok b ∧
        b.program.walk.flatMap Part.names =
          ["Box", "open", "echo", "a", "b", "total", "xs", "Box", "box", "box.open", "echo"] ∧
        ∀ q ∈ b.program.walk, q.WellNamed ∧
          ∀ name ∈ q.names, ∃ pieces, Exact name.toList pieces ∧
            (isName name.toList = true → pieces = [name.toList]) := by
  have hv : spacedGraph.Valid := by
    unfold Valid
    decide
  obtain ⟨b, hb, hnames⟩ : ∃ b, spacedGraph.build 100 spacedLibrary = .ok b ∧
      (b.program.walk.flatMap Part.names ==
        ["Box", "open", "echo", "a", "b", "total", "xs", "Box", "box", "box.open", "echo"]) :=
    exists_build_of_any (n := 3) (by decide +kernel)
  exact ⟨load_spaced, hv, b, hb, beq_iff_eq.mp hnames,
    (names_exact load_spaced).1 b.program hv (.linked hb)⟩

end Graph

end Blockflow
