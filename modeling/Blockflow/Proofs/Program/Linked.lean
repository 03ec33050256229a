import Blockflow.Proofs.Program.Resolution

/-!
# Linked programs

While calls are resolved, every call site is answered by a definition or still pending, and the
definitions of the graph stay in front of those that are added (`Linker.Sound`). When nothing is
pending any more, all calls of the program lead somewhere, and the library has changed nothing about
what the graph defines (`Graph.build_resolves`).
-/

namespace Blockflow

/-! ## Definitions without types -/

/-- A function without the types of its parameters. -/
def FunctionDef.untyped (f : FunctionDef) : FunctionDef :=
  { f with params := f.params.map fun p => { p with type := .unknown } }

def Member.untyped : Member → Member
  | .method f => .method f.untyped
  | member => member

/-- A class without the types of the parameters of its methods, and not marked. -/
def ClassDef.untyped (c : ClassDef) : ClassDef :=
  { c with members := c.members.map Member.untyped, hasConstructor := false }

theorem FunctionDef.name_untyped (f : FunctionDef) : f.untyped.name = f.name := rfl

theorem ClassDef.name_untyped (c : ClassDef) : c.untyped.name = c.name := rfl

/-- Giving types to parameters changes nothing else. -/
theorem FunctionDef.untyped_typed (calls : List CallSite) (f : FunctionDef) :
    (f.typed calls).untyped = f.untyped := by
  unfold typed
  split
  next => rfl
  next site _ =>
    unfold untyped
    refine congrArg (fun params => { f with params }) ?_
    refine List.ext_getElem (by simp) fun i _ _ => ?_
    simp only [List.getElem_map, List.getElem_mapIdx]
    split <;> rfl

theorem Member.untyped_typed (calls : List CallSite) (m : Member) :
    (m.typed calls).untyped = m.untyped := by
  cases m with
  | method f => exact congrArg Member.method (f.untyped_typed calls)
  | _ => rfl

/-- Giving types to parameters changes only these types. -/
theorem ClassDef.untyped_typed (calls : List CallSite) (c : ClassDef) :
    (c.typed calls).untyped = c.untyped := by
  unfold untyped typed
  rw [List.map_map]
  refine congrArg (fun members => { c with members, hasConstructor := false }) ?_
  exact List.map_congr_left fun m _ => m.untyped_typed calls

theorem ClassDef.names_methods_typed (calls : List CallSite) (c : ClassDef) :
    (c.typed calls).methods.map FunctionDef.name = c.methods.map FunctionDef.name := by
  unfold typed methods
  rw [List.filterMap_map, List.map_filterMap, List.map_filterMap]
  refine congrArg (List.filterMap · c.members) (funext fun m => ?_)
  cases m with
  | method f => exact congrArg some (f.name_typed calls)
  | _ => rfl

/-- Functions that agree apart from types have the same names. -/
theorem FunctionDef.map_name_of_untyped {fs fs' : List FunctionDef}
    (h : fs.map untyped = fs'.map untyped) : fs.map name = fs'.map name := by
  simpa [Function.comp_def, name_untyped] using congrArg (List.map name) h

theorem ClassDef.map_name_of_untyped {cs cs' : List ClassDef}
    (h : cs.map untyped = cs'.map untyped) : cs.map name = cs'.map name := by
  simpa [Function.comp_def, name_untyped] using congrArg (List.map name) h

/-- The types that are given in the end change nothing else. -/
theorem Assembly.untyped_finish (a : Assembly) (main : Block) :
    (a.finish main).functions.map FunctionDef.untyped = a.functions.map FunctionDef.untyped ∧
      (a.finish main).classes.map ClassDef.untyped = a.classes.map ClassDef.untyped := by
  constructor
  · rw [finish, List.map_map]
    exact List.map_congr_left fun f _ => f.untyped_typed a.calls
  · rw [finish, List.map_map]
    exact List.map_congr_left fun c _ => c.untyped_typed a.calls

/-! ## Marked classes -/

/-- A class, marked if its name is among these. -/
def ClassDef.marked (needed : List String) (c : ClassDef) : ClassDef :=
  if needed.contains c.name then { c with hasConstructor := true } else c

section Marked

variable (needed : List String) (c : ClassDef)

@[simp] theorem ClassDef.members_marked : (c.marked needed).members = c.members := by
  unfold marked
  split <;> rfl

@[simp] theorem ClassDef.untyped_marked : (c.marked needed).untyped = c.untyped := by
  unfold marked
  split <;> rfl

theorem ClassDef.name_marked : (c.marked needed).name = c.name := by
  rw [← name_untyped, untyped_marked, name_untyped]

theorem ClassDef.fields_marked : (c.marked needed).fields = c.fields := by
  rw [fields, members_marked, fields]

/-- A class has a constructor if one is needed or was there before. -/
theorem ClassDef.hasConstructor_marked :
    (c.marked needed).hasConstructor = true ↔ c.name ∈ needed ∨ c.hasConstructor = true := by
  unfold marked
  by_cases h : c.name ∈ needed <;> simp [h]

end Marked

namespace Program

variable {p q : Program}

/-- A program has its constructors once each object is created with the arguments that its class
wants. -/
theorem withConstructors_eq_ok :
    p.withConstructors = .ok q ↔
      ∃ needed, p.statements.mapM p.constructed? = .ok needed ∧
        q = { p with classes := p.classes.map (ClassDef.marked (needed.filterMap id)) } := by
  unfold withConstructors
  constructor
  · intro h
    obtain ⟨needed, hneeded, h⟩ := bind_eq_ok.mp h
    cases h
    exact ⟨needed, hneeded, rfl⟩
  · rintro ⟨needed, hneeded, rfl⟩
    exact bind_eq_ok.mpr ⟨needed, hneeded, rfl⟩

/-- Marking classes changes nothing else. -/
theorem untyped_withConstructors (h : p.withConstructors = .ok q) :
    q.main = p.main ∧ q.functions = p.functions ∧
      q.classes.map ClassDef.untyped = p.classes.map ClassDef.untyped := by
  obtain ⟨needed, -, rfl⟩ := withConstructors_eq_ok.mp h
  refine ⟨rfl, rfl, ?_⟩
  rw [List.map_map]
  exact List.map_congr_left fun c _ => c.untyped_marked _

/-- Marking constructors does not change what is called. -/
theorem calledNames_withConstructors (h : p.withConstructors = .ok q) :
    calledNames q.walk = calledNames p.walk := by
  obtain ⟨needed, -, rfl⟩ := withConstructors_eq_ok.mp h
  simp only [walk, calledNames_append, List.flatMap_map]
  refine congrArg (· ++ _ ++ _) ?_
  unfold calledNames
  rw [List.filterMap_flatMap, List.filterMap_flatMap]
  refine congrArg (List.flatMap · p.classes) (funext fun c => ?_)
  rw [ClassDef.walk, ClassDef.walk, ClassDef.members_marked]
  rfl

/-- A call of this name leads to a function, or to a method of some class. -/
def Resolves (p : Program) (name : String) : Prop :=
  if '.' ∈ name.toList then ∃ c ∈ p.classes, ∃ m ∈ c.methods, m.name = lastComponent name
  else ∃ f ∈ p.functions, f.name = name

end Program

/-! ## Answered or pending -/

namespace Linker

variable {k : Linker} {s t : Resolving} {a : Assembly} {main : Block}

/-- How far calls have been resolved: the definitions that were there first are still in front, no
name is defined twice, and each call of the program has a site that is answered or pending. -/
structure Sound (k : Linker) (a : Assembly) (main : Block) (s : Resolving) : Prop where
  functions : a.functions <+: s.linking.assembly.functions
  classes : a.classes <+: s.linking.assembly.classes
  nodup : ∀ kind, (s.linking.assembly.names kind).Nodup
  sited : calledNames (s.linking.assembly.walk ++ (Block.walk main).map Part.statement) ⊆
    s.linking.assembly.calls.map CallSite.name
  answered : ∀ name ∈ s.linking.assembly.calls.map CallSite.name,
    k.Answers s.linking name ∨ name ∈ s.pending.map CallSite.name

/-- The assembled graph is a sound state to start from. -/
theorem sound_start (k : Linker) {g : Graph} {limit : Int}
    (h : g.assemble limit = .ok (main, a)) : k.Sound a main (Graph.unresolved a) where
  functions := List.prefix_refl _
  classes := List.prefix_refl _
  nodup := by
    obtain ⟨hmain, -⟩ := Graph.assemble_eq_ok.mp h
    intro kind
    cases kind with
    | function => exact (Assembly.mainBlock_names rfl hmain).2 List.nodup_nil
    | classDef => exact (Assembly.mainBlock_names rfl hmain).2 List.nodup_nil
    | _ => exact List.nodup_nil
  sited := (Graph.calledNames_perm h).subset
  answered := fun _ hname => Or.inr hname

/-- The parts of an entry that are added are parts of the entry. -/
theorem walk_add_subset (l : Linking) (name : String) (p : Program) (calls : List CallSite) :
    (l.add name p calls).assembly.walk ⊆ l.assembly.walk ++ p.walk := by
  intro q hq
  rcases List.mem_append.mp hq with hq | hq
  · obtain ⟨c, hc, hq⟩ := List.mem_flatMap.mp hq
    rcases mem_of_mem_addMissing hc with hc | hc
    · exact List.mem_append_left _ (List.mem_append_left _ (List.mem_flatMap.mpr ⟨c, hc, hq⟩))
    · refine List.mem_append_right _ (List.mem_append_left _ (List.mem_append_left _ ?_))
      exact List.mem_flatMap.mpr ⟨c, hc, hq⟩
  · obtain ⟨f, hf, hq⟩ := List.mem_flatMap.mp hq
    rcases mem_of_mem_addMissing hf with hf | hf
    · exact List.mem_append_left _ (List.mem_append_right _ (List.mem_flatMap.mpr ⟨f, hf, hq⟩))
    · refine List.mem_append_right _ (List.mem_append_left _ (List.mem_append_right _ ?_))
      exact List.mem_flatMap.mpr ⟨f, hf, hq⟩

/-- A name that is answered stays answered when more is added. -/
theorem Answers.add {l : Linking} {name : String} (h : k.Answers l name) (other : String)
    (b : Assembly) (block : Block) : k.Answers (l.add other (b.finish block) b.calls) name := by
  unfold Answers at h ⊢
  split
  next hdot => rwa [if_pos hdot] at h
  next hdot =>
    rw [if_neg hdot] at h
    exact (names_add l other b block).1 h

/-- A step keeps the state sound. -/
theorem Sound.step (h : k.Sound a main s) (hstep : k.Step s t) : k.Sound a main t := by
  cases hstep with
  | @answered l site rest hanswers =>
    refine ⟨h.functions, h.classes, h.nodup, h.sited, fun name hname => ?_⟩
    rcases h.answered name hname with hans | hpending
    · exact Or.inl hans
    · rcases List.mem_cons.mp hpending with rfl | hpending
      · exact Or.inl hanswers
      · exact Or.inr hpending
  | @taken l site rest saved program calls hlacks _ hload =>
    obtain ⟨g, block, b, -, -, hassemble, hdefines, rfl, rfl⟩ := loadEntry_eq_ok.mp hload
    refine ⟨h.functions.trans prefix_addMissing, h.classes.trans prefix_addMissing, ?_, ?_, ?_⟩
    · intro kind
      cases kind with
      | function => exact nodup_addMissing (h.nodup .function)
      | classDef => exact nodup_addMissing (h.nodup .classDef)
      | _ => exact List.nodup_nil
    · -- what the entry calls has its sites among the calls of the entry
      have hentry : calledNames (b.finish block).walk ⊆ b.calls.map CallSite.name := by
        rw [Assembly.walk_finish, calledNames_typed]
        exact (Graph.calledNames_perm hassemble).subset
      have hbefore := h.sited
      rw [calledNames_append, List.append_subset] at hbefore
      show calledNames _ ⊆ (l.assembly.calls ++ b.calls).map CallSite.name
      rw [calledNames_append, List.map_append, List.append_subset]
      refine ⟨fun name hname => ?_, fun name hname => List.mem_append_left _ (hbefore.2 hname)⟩
      have hname := calledNames_subset (walk_add_subset l site.name _ _) hname
      rw [calledNames_append] at hname
      rcases List.mem_append.mp hname with hname | hname
      · exact List.mem_append_left _ (hbefore.1 hname)
      · exact List.mem_append_right _ (hentry hname)
    · intro name hname
      rw [List.map_append, List.map_map]
      change name ∈ (l.assembly.calls ++ b.calls).map CallSite.name at hname
      rw [List.map_append] at hname
      rcases List.mem_append.mp hname with hname | hname
      · rcases h.answered name hname with hans | hpending
        · exact Or.inl (hans.add site.name b block)
        · rcases List.mem_cons.mp hpending with rfl | hpending
          · -- the function that was looked up is defined by now
            refine Or.inl ?_
            rw [Answers, if_neg hlacks.1]
            exact (names_add l site.name b block).2 hdefines
          · exact Or.inr (List.mem_append_left _ hpending)
      · exact Or.inr (List.mem_append_right _ hname)

/-- **When nothing is pending, every call is answered.** -/
theorem Sound.of_ends {result : Except Failure Linking} {asked : List String}
    (hs : k.Sound a main s) (h : k.Ends s result asked) {l : Linking} (hl : result = .ok l) :
    k.Sound a main ⟨l, []⟩ := by
  obtain ⟨t, ht, hstop⟩ := h.exists_stop Sound.step hs
  cases hstop with
  | done =>
    cases hl
    exact ht
  | noMethod => cases hl
  | notTaken _ => cases hl

end Linker

/-! ## The program of a graph with a library -/

namespace Graph

variable {g : Graph} {limit : Int} {lib : Library} {main : Block} {a : Assembly} {l : Linking}

/-- What linking comes to is sound, with nothing left to look up. -/
theorem sound_of_link (h : g.assemble limit = .ok (main, a))
    (hlink : link limit lib a a.calls = .ok l) :
    (linker limit lib a).Sound a main ⟨l, []⟩ := by
  obtain ⟨asked, hends⟩ := exists_ends_link limit lib a
  exact (Linker.sound_start _ h).of_ends hends hlink

/-- What answers the calls is in the program. -/
theorem resolves_of_answers {program : Program} (hsound : (linker limit lib a).Sound a main ⟨l, []⟩)
    (hprogram : (l.assembly.finish main).withConstructors = .ok program) {name : String}
    (h : (linker limit lib a).Answers l name) : program.Resolves name := by
  obtain ⟨needed, -, rfl⟩ := Program.withConstructors_eq_ok.mp hprogram
  unfold Linker.Answers at h
  unfold Program.Resolves
  split
  next hdot =>
    rw [if_pos hdot] at h
    obtain ⟨m, hm, hname⟩ := List.mem_map.mp h
    obtain ⟨c, hc, hm⟩ := List.mem_flatMap.mp hm
    have hmethod :
        lastComponent name ∈ (c.typed l.assembly.calls).methods.map FunctionDef.name := by
      rw [ClassDef.names_methods_typed]
      exact List.mem_map.mpr ⟨m, hm, hname⟩
    obtain ⟨m', hm', hname'⟩ := List.mem_map.mp hmethod
    refine ⟨_, List.mem_map_of_mem (List.mem_map_of_mem (hsound.classes.subset hc)), m', ?_, hname'⟩
    rw [ClassDef.methods, ClassDef.members_marked]
    exact hm'
  next hdot =>
    rw [if_neg hdot] at h
    obtain ⟨f, hf, hname⟩ := List.mem_map.mp h
    exact ⟨_, List.mem_map_of_mem hf, (f.name_typed _).trans hname⟩

/-- The program that is built is the linked one, apart from types and marks. -/
theorem untyped_of_build {program : Program}
    (hprogram : (l.assembly.finish main).withConstructors = .ok program) :
    program.main = main ∧
      program.functions.map FunctionDef.untyped = l.assembly.functions.map FunctionDef.untyped ∧
      program.classes.map ClassDef.untyped = l.assembly.classes.map ClassDef.untyped := by
  obtain ⟨hmain, hfunctions, hclasses⟩ := Program.untyped_withConstructors hprogram
  obtain ⟨hfunctions', hclasses'⟩ := l.assembly.untyped_finish main
  exact ⟨hmain, by rw [hfunctions, hfunctions'], by rw [hclasses, hclasses']⟩

/-- **A linked program is complete, and a library only adds to it.** Every call leads to a function
of the program or to a method of one of its classes, and no function or class is defined twice. The
main block is that of the graph on its own, and so are the first functions and classes, apart from
types of parameters and marks. -/
theorem build_resolves {b : Build} (h : g.build limit lib = .ok b) :
    (∀ name args node, Part.statement (.call name args node) ∈ b.program.walk →
      b.program.Resolves name) ∧
    (b.program.functions.map FunctionDef.name).Nodup ∧
    (b.program.classes.map ClassDef.name).Nodup ∧
    ∃ alone, g.buildAlone limit = .ok alone ∧ b.program.main = alone.program.main ∧
      alone.program.functions.map FunctionDef.untyped <+:
        b.program.functions.map FunctionDef.untyped ∧
      alone.program.classes.map ClassDef.untyped <+: b.program.classes.map ClassDef.untyped := by
  obtain ⟨main, a, l, hassemble, htexts, hlink, hprogram, -, -, -⟩ := build_eq_ok.mp h
  have hsound := sound_of_link hassemble hlink
  have halone : g.buildAlone limit =
      .ok { program := a.finish main, symbols := a.symbols, calls := a.calls, lookups := [] } := by
    have hnames := checkNames_of_namesAreTexts htexts
    exact bind_eq_ok.mpr ⟨(main, a), hassemble, bind_eq_ok.mpr ⟨(), hnames, rfl⟩⟩
  obtain ⟨hmain, hfunctions, hclasses⟩ := untyped_of_build hprogram
  refine ⟨fun name args node hcall => ?_, ?_, ?_, _, halone, hmain, ?_, ?_⟩
  · have hname := mem_calledNames.mpr ⟨args, node, hcall⟩
    rw [Program.calledNames_withConstructors hprogram, Assembly.walk_finish, calledNames_typed]
      at hname
    rcases hsound.answered name (hsound.sited hname) with hanswers | hpending
    · exact resolves_of_answers hsound hprogram hanswers
    · cases hpending
  · rw [FunctionDef.map_name_of_untyped hfunctions]
    exact hsound.nodup .function
  · rw [ClassDef.map_name_of_untyped hclasses]
    exact hsound.nodup .classDef
  · rw [hfunctions, (a.untyped_finish main).1]
    exact hsound.functions.map _
  · rw [hclasses, (a.untyped_finish main).2]
    exact hsound.classes.map _

/-- A graph with a method and a function, both called, and a call of a function that it lacks. -/
def visitor : Graph where
  nodes :=
    [{ id := "cell", type := "classDefine", data := [("name", .text "Cell")] },
     { id := "show", type := "functionDefine", data := [("name", .text "show")] },
     { id := "ping", type := "functionDefine", data := [("name", .text "ping")] },
     { id := "body", type := "functionCall", data := [("name", .text "cell.show")] },
     { id := "local", type := "functionCall", data := [("name", .text "ping")] },
     { id := "saved", type := "functionCall", data := [("name", .text "pong")] }]
  edges :=
    [{ id := "e1", source := "cell", target := "show", role := some .body },
     { id := "e2", source := "cell", target := "ping", role := some .next },
     { id := "e3", source := "ping", target := "body", role := some .body },
     { id := "e4", source := "ping", target := "local", role := some .next },
     { id := "e5", source := "local", target := "saved", role := some .next }]
  nodup := by decide

theorem exists_build_visitor : ∃ b, visitor.build 100 partners = .ok b :=
  exists_build_of_buildWithin (n := 5) (by decide +kernel)

/-- A program with functions from the library has all functions that it calls, each of them once. -/
theorem build_resolves_visitor :
    ∃ b, visitor.build 100 partners = .ok b ∧
      (∀ name args node, Part.statement (.call name args node) ∈ b.program.walk →
        b.program.Resolves name) ∧
      (b.program.functions.map FunctionDef.name).Nodup := by
  obtain ⟨b, hb⟩ := exists_build_visitor
  obtain ⟨hcalls, hfunctions, -⟩ := build_resolves hb
  exact ⟨b, hb, hcalls, hfunctions⟩

end Graph

end Blockflow
