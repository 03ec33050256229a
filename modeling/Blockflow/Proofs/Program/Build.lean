import Blockflow.Program.Linking
import Blockflow.Proofs.Program.Assembly

/-!
# From the assembly to the program

A program is finished by giving types to parameters and by marking classes; both leave the nodes of
the parts and the blocks inside of them as they are. Without a library, resolving the calls adds
nothing. So what is known about the assembly is known about the program: every node of the graph has
exactly one place in it.
-/

namespace Blockflow

theorem exists_of_isOk {ε α : Type} {x : Except ε α} (h : x.isOk = true) : ∃ a, x = .ok a := by
  cases x with
  | ok a => exact ⟨a, rfl⟩
  | error e => cases h

/-! ## Types of parameters -/

@[simp] theorem FunctionDef.node_typed (calls : List CallSite) (f : FunctionDef) :
    (f.typed calls).node = f.node := by
  unfold typed
  split <;> rfl

@[simp] theorem FunctionDef.body_typed (calls : List CallSite) (f : FunctionDef) :
    (f.typed calls).body = f.body := by
  unfold typed
  split <;> rfl

/-- A part whose untyped parameters have been given types. -/
def Part.typed (calls : List CallSite) : Part → Part
  | .statement s => .statement s
  | .function f => .function (f.typed calls)
  | .classDef c => .classDef (c.typed calls)

@[simp] theorem Part.node_typed (calls : List CallSite) (q : Part) :
    (q.typed calls).node = q.node := by
  cases q with
  | statement s => rfl
  | function f => exact f.node_typed calls
  | classDef c => rfl

theorem FunctionDef.walk_typed (calls : List CallSite) (f : FunctionDef) :
    (f.typed calls).walk = f.walk.map (Part.typed calls) := by
  rw [walk, walk, List.map_cons, List.map_map, body_typed]
  rfl

@[simp] theorem Member.node_typed (calls : List CallSite) (m : Member) :
    (m.typed calls).node = m.node := by
  cases m with
  | method f => exact f.node_typed calls
  | _ => rfl

theorem Member.walk_typed (calls : List CallSite) (m : Member) :
    (m.typed calls).walk = m.walk.map (Part.typed calls) := by
  cases m with
  | field d => rfl
  | method f => exact f.walk_typed calls
  | stray s =>
    show s.walk.map Part.statement = (s.walk.map Part.statement).map (Part.typed calls)
    rw [List.map_map]
    rfl

theorem ClassDef.walk_typed (calls : List CallSite) (c : ClassDef) :
    (c.typed calls).walk = c.walk.map (Part.typed calls) := by
  rw [walk, walk, List.map_cons, List.map_flatMap, typed, List.flatMap_map]
  refine congrArg _ (congrArg (List.flatMap · _) (funext fun m => ?_))
  exact m.walk_typed calls

/-- The finished program has the parts of the assembly and of the main block, with types. -/
theorem Assembly.walk_finish (a : Assembly) (main : Block) :
    (a.finish main).walk =
      (a.walk ++ (Block.walk main).map Part.statement).map (Part.typed a.calls) := by
  have hclasses : (a.classes.map (ClassDef.typed a.calls)).flatMap ClassDef.walk =
      (a.classes.flatMap ClassDef.walk).map (Part.typed a.calls) := by
    rw [List.flatMap_map, List.map_flatMap]
    exact congrArg (List.flatMap · _) (funext (ClassDef.walk_typed a.calls))
  have hfunctions : (a.functions.map (FunctionDef.typed a.calls)).flatMap FunctionDef.walk =
      (a.functions.flatMap FunctionDef.walk).map (Part.typed a.calls) := by
    rw [List.flatMap_map, List.map_flatMap]
    exact congrArg (List.flatMap · _) (funext (FunctionDef.walk_typed a.calls))
  rw [Program.walk, finish, Assembly.walk, hclasses, hfunctions, List.map_append, List.map_append,
    List.map_map]
  rfl

/-- The finished program has the nodes of the assembly and of the main block. -/
theorem Assembly.nodes_finish (a : Assembly) (main : Block) :
    (a.finish main).walk.map Part.node =
      (a.walk ++ (Block.walk main).map Part.statement).map Part.node := by
  rw [walk_finish, List.map_map]
  exact List.map_congr_left fun q _ => q.node_typed a.calls

/-! ## Constructors and calls -/

/-- Marking constructors moves no node. -/
theorem Program.nodes_withConstructors {p q : Program} (h : p.withConstructors = .ok q) :
    q.walk.map Part.node = p.walk.map Part.node := by
  obtain ⟨needed, -, h⟩ := bind_eq_ok.mp h
  cases h
  simp only [walk, List.map_append, List.flatMap_map, List.map_flatMap]
  refine congrArg (· ++ _ ++ _) (congrArg (List.flatMap · _) (funext fun c => ?_))
  split <;> rfl

/-- Without a library there is nothing to add. -/
theorem resolve_nil {limit : Int} {methods : List String} {l l' : Linking} :
    ∀ {pending : List CallSite}, resolve limit methods [] l pending = .ok l' → l' = l
  | [], h => by
    rw [resolve] at h
    cases h
    rfl
  | site :: rest, h => by
    rw [resolve] at h
    split at h
    next =>
      split at h
      next => exact resolve_nil h
      next => cases h
    next =>
      split at h
      next => exact resolve_nil h
      next =>
        -- a call that no definition answers is looked up in the library, which holds nothing
        split at h
        next => cases h
        next hget => simp at hget
        next hget => simp at hget

/-! ## Every node has one place -/

namespace Graph

variable {g : Graph} {limit : Int} {b : Build}

/-- Building without a library is assembling and finishing. -/
theorem buildAlone_eq_ok (h : g.buildAlone limit = .ok b) :
    ∃ main a, g.assemble limit = .ok (main, a) ∧ b.program = a.finish main := by
  obtain ⟨⟨main, a⟩, hassemble, h⟩ := bind_eq_ok.mp h
  obtain ⟨-, -, h⟩ := bind_eq_ok.mp h
  cases h
  exact ⟨main, a, hassemble, rfl⟩

/-- Building with an empty library is assembling, finishing and marking constructors. -/
theorem build_nil_eq_ok (h : g.build limit [] = .ok b) :
    ∃ main a, g.assemble limit = .ok (main, a) ∧
      (a.finish main).withConstructors = .ok b.program := by
  obtain ⟨⟨main, a⟩, hassemble, h⟩ := bind_eq_ok.mp h
  refine ⟨main, a, hassemble, ?_⟩
  simp only at h
  split at h
  next =>
    obtain ⟨l, hlink, h⟩ := bind_eq_ok.mp h
    obtain ⟨program, hprogram, h⟩ := bind_eq_ok.mp h
    cases h
    rw [resolve_nil hlink] at hprogram
    exact hprogram
  next => cases h

/-- An assembled program has every node of the graph once. -/
theorem nodes_assemble {main : Block} {a : Assembly} (h : g.assemble limit = .ok (main, a)) :
    ((a.finish main).walk.map Part.node).Perm g.ids := by
  obtain ⟨-, parts, hparts, hperm⟩ := assemble_becomes h
  rw [a.nodes_finish main]
  refine (hperm.map Part.node).trans ?_
  rw [Visit.map_node_of_becomes hparts, map_id_visits]
  exact (toured_of_assemble h).complete

/-- **Every node has exactly one place in the program.** Whether the calls are resolved or not, the
parts of the program have the nodes of the graph, each of them once. -/
theorem nodes_perm_ids (h : g.buildAlone limit = .ok b ∨ g.build limit [] = .ok b) :
    (b.program.walk.map Part.node).Perm g.ids := by
  rcases h with h | h
  · obtain ⟨main, a, hassemble, hprogram⟩ := buildAlone_eq_ok h
    rw [hprogram]
    exact nodes_assemble hassemble
  · obtain ⟨main, a, hassemble, hprogram⟩ := build_nil_eq_ok h
    rw [Program.nodes_withConstructors hprogram]
    exact nodes_assemble hassemble

/-- A graph with a class, a loop with a function inside of a branch, and a switch. -/
def sample : Graph where
  nodes :=
    [{ id := "cell", type := "classDefine", data := [("name", .text "Cell")] },
     { id := "value", type := "assign", data := [("name", .text "value"), ("value", .text "0")] },
     { id := "show", type := "functionDefine", data := [("name", .text "show")] },
     { id := "shown", type := "print", data := [("value", .text "value")] },
     { id := "loop", type := "while", data := [("condition", .text "i < 3")] },
     { id := "test", type := "if", data := [("condition", .text "i > 1")] },
     { id := "twice", type := "functionDefine",
       data := [("name", .text "twice"), ("params", .text "int n")] },
     { id := "doubled", type := "print", data := [("value", .text "n + n")] },
     { id := "small", type := "print", data := [("value", .text "i")] },
     { id := "choice", type := "switch",
       data := [("subject", .text "i"), ("cases", .text "1, 2")] },
     { id := "two", type := "print", data := [("value", .text "2")] },
     { id := "other", type := "print", data := [("value", .text "i")] }]
  edges :=
    [{ id := "e1", source := "cell", target := "value", role := some .body },
     { id := "e2", source := "value", target := "show", role := some .next },
     { id := "e3", source := "show", target := "shown", role := some .body },
     { id := "e4", source := "cell", target := "loop", role := some .next },
     { id := "e5", source := "loop", target := "test", role := some .body },
     { id := "e6", source := "test", target := "twice", role := some .whenTrue },
     { id := "e7", source := "twice", target := "doubled", role := some .body },
     { id := "e8", source := "test", target := "small", role := some .whenFalse },
     { id := "e9", source := "test", target := "loop", role := some .next },
     { id := "e10", source := "loop", target := "choice", role := some .next },
     { id := "e11", source := "choice", target := "two", role := some (.case 1) },
     { id := "e12", source := "choice", target := "other", role := some .default }]
  nodup := by decide

theorem exists_build_sample : ∃ b, sample.buildAlone 100 = .ok b :=
  exists_of_isOk (by decide +kernel)

theorem nodes_perm_ids_sample :
    ∃ b, sample.buildAlone 100 = .ok b ∧ (b.program.walk.map Part.node).Perm sample.ids := by
  obtain ⟨b, hb⟩ := exists_build_sample
  exact ⟨b, hb, nodes_perm_ids (Or.inl hb)⟩

theorem valid_sample : sample.Valid := by
  unfold Valid
  decide +kernel

end Graph

end Blockflow
