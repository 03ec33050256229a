import Blockflow.Proofs.Program.Blame
import Blockflow.Proofs.Program.Caller

/-!
# Parameters that take their types from a call

A parameter without a declared type takes the type of the argument at its position in a call. Which
call this is, is said here for every function of a linked program (`Graph.params_filled`): the first
one whose name ends in the name of the function, so a call of a method counts too. A function from
the library has been filled before, from the calls inside of its entry.

Where no method is called first, and nothing inside of the entry calls the function, it is the first
call of the function itself.
-/

namespace Blockflow

/-! ## Filling parameters -/

/-- The parameter with a type that was found for it, unless it has one. -/
def Param.filled (p : Param) (found? : Option ValueType) : Param :=
  if p.type = .unknown then { p with type := found?.getD .unknown } else p

/-- The parameters, where those without a type take the types of the arguments of a call. -/
def Param.fill (site? : Option CallSite) (params : List Param) : List Param :=
  params.mapIdx fun i p => p.filled (site?.bind (·.types[i]?))

@[simp] theorem Param.filled_none (p : Param) : p.filled none = p := by
  obtain ⟨name, type⟩ := p
  unfold filled
  split
  next h => cases h; rfl
  next => rfl

@[simp] theorem Param.fill_none (params : List Param) : Param.fill none params = params := by
  refine List.ext_getElem (by simp [fill]) fun i _ _ => ?_
  simp [fill]

theorem FunctionDef.params_typed (calls : List CallSite) (f : FunctionDef) :
    (f.typed calls).params = Param.fill (firstCall? calls f.name) f.params := by
  unfold typed
  split
  next h => rw [h, Param.fill_none]
  next site h =>
    rw [h]
    refine congrArg (List.mapIdx · f.params) (funext fun i => funext fun p => ?_)
    unfold Param.filled
    split
    next hunknown => simp only [hunknown, Option.bind_some]
    next => rfl

theorem lastComponent_of_notMem {name : String} (h : '.' ∉ name.toList) :
    lastComponent name = name := by
  rw [lastComponent, Text.splitOn_of_notMem h]
  simp

/-- Unless a method is called first, the call that counts is the first one of the function. -/
theorem firstCall?_eq_find? {name : String} (hdot : '.' ∉ name.toList) : ∀ {calls : List CallSite},
    (∀ site, firstCall? calls name = some site → site.name = name) →
      firstCall? calls name = calls.find? (·.name = name)
  | [], _ => rfl
  | site :: rest, hfirst => by
    unfold firstCall? at hfirst ⊢
    by_cases hlast : lastComponent site.name = name
    · have hname : site.name = name := hfirst site (by simp [hlast])
      rw [List.find?_cons_of_pos (by simpa using hlast),
        List.find?_cons_of_pos (by simpa using hname)]
    · have hname : site.name ≠ name := by
        rintro rfl
        exact hlast (lastComponent_of_notMem hdot)
      rw [List.find?_cons_of_neg (by simpa using hlast)] at hfirst ⊢
      rw [List.find?_cons_of_neg (by simpa using hname)]
      exact firstCall?_eq_find? hdot hfirst

/-! ## Declarations -/

/-- A node of the graph declares the function with these parameters. -/
def Graph.Declares (g : Graph) (f : FunctionDef) (params : List Param) : Prop :=
  ∃ n ∈ g.nodes, n.block? = some .function ∧ n.id = f.node ∧ n.definedName = f.name ∧
    ∃ text, (n.given "params").expression = .ok text ∧ Param.parseList text = .ok params

theorem Graph.declares_of_mem {g : Graph} {limit : Int} {main : Block} {a : Assembly}
    (h : g.assemble limit = .ok (main, a)) {f : FunctionDef} (hf : f ∈ a.functions) :
    g.Declares f f.params := by
  have hwalk : Part.function f ∈ a.walk ++ (Block.walk main).map .statement :=
    List.mem_append_left _ (List.mem_append_right _
      (List.mem_flatMap.mpr ⟨f, hf, List.mem_cons_self⟩))
  obtain ⟨n, hn, type, symbols, heading, blocks, hb, hread, hpart⟩ := exists_read_of_mem h hwalk
  have hkind := (Heading.read_fits hread).kind_part blocks
  rw [← hpart] at hkind
  cases hkind
  obtain ⟨text, htext, hread⟩ := bind_eq_ok.mp hread
  cases hparams : Param.parseList text with
  | error e =>
    rw [hparams] at hread
    cases hread
  | ok params =>
    rw [hparams] at hread
    cases hread
    cases hpart
    exact ⟨n, hn, hb, rfl, rfl, text, htext, hparams⟩

@[simp] theorem Graph.declares_typed {g : Graph} {f : FunctionDef} {params : List Param}
    (calls : List CallSite) : g.Declares (f.typed calls) params ↔ g.Declares f params := by
  simp [Declares]

/-- The name of a function that a valid graph declares has no dot. -/
theorem Graph.Declares.dot_notMem {g : Graph} (hv : g.Valid) {f : FunctionDef}
    {params : List Param} (h : g.Declares f params) : '.' ∉ f.name.toList := by
  obtain ⟨n, hn, hb, -, hname, -⟩ := h
  rw [← hname]
  exact Text.dot_notMem_of_passesLine (hv.exists_definition hn hb rfl).2

/-! ## Functions that are collected -/

namespace Linker

variable {k : Linker} {s t : Resolving} {a : Assembly}

/-- Each function is one of those that were there first, or one of an entry that was taken, filled
from the calls of that entry. -/
def Collected (k : Linker) (a : Assembly) (s : Resolving) : Prop :=
  ∀ f ∈ s.linking.assembly.functions, f ∈ a.functions ∨
    ∃ name ∈ s.linking.lookups, ∃ entry b, k.Entry name entry b ∧
      b.calls <:+: s.linking.assembly.calls ∧ ∃ f' ∈ b.functions, f = f'.typed b.calls

theorem collected_start (k : Linker) (a : Assembly) : k.Collected a (Graph.unresolved a) :=
  fun _ hf => Or.inl hf

theorem Collected.step (h : k.Collected a s) (hstep : k.Step s t) : k.Collected a t := by
  cases hstep with
  | answered _ => exact h
  | @taken l site rest saved program calls _ hget hload =>
    obtain ⟨entry, main, b, hentry, -, rfl, rfl⟩ := entry_of_loadEntry hget hload
    intro f hf
    rcases mem_of_mem_addMissing hf with hf | hf
    · refine (h f hf).imp_right fun ⟨name, hname, entry', b', hentry', hcalls, hf'⟩ => ?_
      exact ⟨name, List.mem_append_left _ hname, entry', b', hentry',
        hcalls.trans (List.prefix_append _ _).isInfix, hf'⟩
    · obtain ⟨f', hf', rfl⟩ := List.mem_map.mp hf
      exact Or.inr ⟨site.name, List.mem_append_right _ List.mem_cons_self, entry, b, hentry,
        (List.suffix_append _ _).isInfix, f', hf', rfl⟩

end Linker

namespace Graph

variable {g : Graph} {limit : Int} {lib : Library} {b : Build}

/-- **Where the types of parameters come from.** A function of a linked program is declared by the
graph, or by an entry that was looked up in the library. A parameter keeps the type that it is
declared with. If it has none, then for a function of an entry the first call inside of the entry
counts, and then for every function the first call of all: the first one whose name ends in the name
of the function. This is the first call of the function itself if no method is called first. -/
theorem params_filled (hv : g.Valid) (hb : g.build limit lib = .ok b) :
    ∀ f ∈ b.program.functions, ∃ declared inner,
      (g.Declares f declared ∧ inner = [] ∨
        ∃ name ∈ b.lookups, ∃ saved entry main a, lib.get? name = some (.ok saved) ∧
          Graph.load saved.subgraph = .ok entry ∧ entry.Valid ∧
          entry.assemble limit = .ok (main, a) ∧ entry.Declares f declared ∧ inner = a.calls) ∧
      inner <:+: b.calls ∧
      f.params = Param.fill (firstCall? b.calls f.name)
        (Param.fill (firstCall? inner f.name) declared) ∧
      ((∀ site, firstCall? b.calls f.name = some site → site.name = f.name) →
        firstCall? inner f.name = none →
        f.params = Param.fill (b.calls.find? (·.name = f.name)) declared) := by
  obtain ⟨main, a, l, hassemble, -, hlink, hprogram, -, hcalls, hlookups⟩ := build_eq_ok.mp hb
  obtain ⟨asked, hends⟩ := exists_ends_link limit lib a
  rw [hlink] at hends
  obtain ⟨s, hs, hstop⟩ := hends.exists_stop Linker.Collected.step (Linker.collected_start _ a)
  cases hstop
  rw [(Program.untyped_withConstructors hprogram).2.1, hcalls, hlookups]
  intro f hf
  obtain ⟨f₁, hf₁, rfl⟩ := List.mem_map.mp hf
  simp only [FunctionDef.name_typed, FunctionDef.params_typed, declares_typed]
  -- A function of an entry was typed by the calls of the entry before it was collected.
  rcases hs f₁ hf₁ with hown | ⟨name, hname, entry, c, hentry, hinfix, f₀, hf₀, rfl⟩
  · have hdeclares := declares_of_mem hassemble hown
    refine ⟨f₁.params, [], Or.inl ⟨hdeclares, rfl⟩, List.nil_infix, ?_, fun hfirst _ => ?_⟩
    · exact congrArg _ (Param.fill_none _).symm
    · rw [firstCall?_eq_find? (hdeclares.dot_notMem hv) hfirst]
  · obtain ⟨saved, block, hget, hload, hvalid, hentry⟩ := hentry
    have hdeclares := declares_of_mem hentry hf₀
    simp only [FunctionDef.name_typed, FunctionDef.params_typed, declares_typed]
    refine ⟨f₀.params, c.calls, Or.inr ?_, hinfix, rfl, fun hfirst hinner => ?_⟩
    · exact ⟨name, hname, saved, entry, block, c, hget, hload, hvalid, hentry, hdeclares, rfl⟩
    · rw [hinner, Param.fill_none, firstCall?_eq_find? (hdeclares.dot_notMem hvalid) hfirst]

/-- A saved function that calls itself with a text. -/
def reciter : SavedFunction where
  name := "echo"
  subgraph :=
    { nodes :=
        [{ id := "define", type := "functionDefine"
           data := [("name", .str "echo"), ("params", .str "x, y, int z")] },
         { id := "again", type := "functionCall"
           data := [("name", .str "echo"), ("args", .str "\"s\"")] }]
      edges :=
        [{ id := "e", source := "define", target := "again", sourceHandle := some "body" }] }

/-- A graph that calls the function with two numbers. -/
def reciting : Graph where
  nodes :=
    [{ id := "call", type := "functionCall"
       data := [("name", .text "echo"), ("args", .text "1, 2.5")] }]
  edges := []
  nodup := List.nodup_singleton _

theorem params_filled_reciting :
    reciting.Valid ∧ ∃ b, reciting.build 100 [("echo", .ok reciter)] = .ok b ∧
      ∃ f ∈ b.program.functions, f.params = [⟨"x", .string⟩, ⟨"y", .float⟩, ⟨"z", .int⟩] ∧
        ∃ declared inner, inner <:+: b.calls ∧
          f.params = Param.fill (firstCall? b.calls f.name)
            (Param.fill (firstCall? inner f.name) declared) := by
  have hv : reciting.Valid := by
    unfold Valid
    decide
  have hcheck : (reciting.buildWithin 3 100 [("echo", .ok reciter)]).any (fun r =>
      r.toOption.any fun b => b.program.functions.any fun f =>
        decide (f.params = [⟨"x", .string⟩, ⟨"y", .float⟩, ⟨"z", .int⟩])) = true := by
    decide +kernel
  obtain ⟨b, hb, hcheck⟩ := exists_build_of_any hcheck
  obtain ⟨f, hf, hparams⟩ := List.any_eq_true.mp hcheck
  obtain ⟨declared, inner, -, hinner, hfilled, -⟩ := params_filled hv hb f hf
  exact ⟨hv, b, hb, f, hf, of_decide_eq_true hparams, declared, inner, hinner, hfilled⟩

/-- A class with a method and a function of the same name; the method is called first. -/
def boxes : Graph where
  nodes :=
    [{ id := "c", type := "classDefine", data := [("name", .text "Box")] },
     { id := "k", type := "functionDefine",
       data := [("name", .text "put"), ("params", .text "int x")] },
     { id := "f", type := "functionDefine",
       data := [("name", .text "put"), ("params", .text "x")] },
     { id := "n", type := "createObject",
       data := [("className", .text "Box"), ("name", .text "box")] },
     { id := "a", type := "functionCall",
       data := [("name", .text "box.put"), ("args", .text "1")] },
     { id := "b", type := "functionCall",
       data := [("name", .text "put"), ("args", .text "\"a\"")] }]
  edges :=
    [{ id := "e1", source := "c", target := "k", role := some .body },
     { id := "e2", source := "n", target := "a", role := some .next },
     { id := "e3", source := "a", target := "b", role := some .next }]
  nodup := by decide

/-- The call of a method can give its types to a function. -/
theorem not_forall_params_from_own_calls :
    ¬ ∀ (g : Graph) (limit : Int) (lib : Library) (b : Build), g.Valid →
      g.build limit lib = .ok b → ∀ f ∈ b.program.functions, ∀ declared, g.Declares f declared →
        f.params = Param.fill (b.calls.find? (·.name = f.name)) declared := by
  intro hall
  have hv : boxes.Valid := by
    unfold Valid
    decide
  have hcheck : (boxes.buildWithin 3 100 []).any (fun r => r.toOption.any fun b =>
      b.program.functions.any fun f => decide (f.node = "f" ∧ f.name = "put" ∧
        f.params ≠ Param.fill (b.calls.find? (·.name = f.name)) [⟨"x", .unknown⟩])) = true := by
    decide +kernel
  obtain ⟨b, hb, hcheck⟩ := exists_build_of_any hcheck
  obtain ⟨f, hf, hcheck⟩ := List.any_eq_true.mp hcheck
  obtain ⟨hnode, hname, hparams⟩ := of_decide_eq_true hcheck
  refine hparams (hall boxes 100 [] b hv hb f hf [⟨"x", .unknown⟩] ?_)
  refine ⟨_, List.mem_of_getElem? (i := 2) rfl, rfl, hnode.symm, hname.symm, "x", rfl, ?_⟩
  decide

end Graph

end Blockflow
