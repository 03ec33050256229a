import Blockflow.Proofs.Program.Linked

/-!
# Linkings that agree

The same definitions are linked in more than one place: in their own graph, and again wherever they
are taken from the library. Two linkings agree when they hold the same definitions, apart from types
of parameters, and have calls of the same names pending (`Linker.Agrees`). As long as no method is
called, they stay in step and come to the same definitions (`Linker.Agrees.ends`). Then one of them
has its constructors if the other one has (`Assembly.exists_withConstructors`).
-/

namespace Blockflow

/-! ## Adding definitions up to their types -/

section AddMissing

variable {α : Type} {name : α → String}

theorem map_addMissing {φ : α → α} (hφ : ∀ x, name (φ x) = name x) : ∀ {known more : List α},
    (addMissing name known more).map φ = addMissing name (known.map φ) (more.map φ)
  | _, [] => rfl
  | known, d :: more => by
    have hany : (known.map φ).any (name · = name (φ d)) = known.any (name · = name d) := by
      rw [List.any_map]
      exact congrArg (List.any known) (funext fun x => by rw [Function.comp, hφ, hφ])
    rw [List.map_cons, addMissing_cons, addMissing_cons, hany]
    refine (map_addMissing hφ).trans ?_
    split
    next => rfl
    next => rw [List.map_append, List.map_singleton]

theorem addMissing_of_nodup : ∀ (known : List α) {more : List α},
    ((known ++ more).map name).Nodup → addMissing name known more = known ++ more
  | known, [], _ => (List.append_nil known).symm
  | known, d :: more, h => by
    have hnew : ¬ known.any (name · = name d) = true := by
      rw [any_name_iff]
      intro hmem
      rw [List.map_append, List.map_cons] at h
      exact List.disjoint_of_nodup_append h hmem List.mem_cons_self
    rw [List.append_cons] at h
    rw [addMissing_cons, if_neg hnew, addMissing_of_nodup _ h, ← List.append_cons]

end AddMissing

theorem Linking.untyped_add (l : Linking) (name : String) (p : Program) (calls : List CallSite) :
    (l.add name p calls).assembly.functions.map FunctionDef.untyped =
        addMissing FunctionDef.name (l.assembly.functions.map FunctionDef.untyped)
          (p.functions.map FunctionDef.untyped) ∧
      (l.add name p calls).assembly.classes.map ClassDef.untyped =
        addMissing ClassDef.name (l.assembly.classes.map ClassDef.untyped)
          (p.classes.map ClassDef.untyped) :=
  ⟨map_addMissing FunctionDef.name_untyped, map_addMissing ClassDef.name_untyped⟩

namespace Linker

variable {k₁ k₂ : Linker} {s t : Resolving}

/-! ## Agreement -/

/-- Two linkings hold the same definitions, apart from the types of parameters, and have calls of
the same names pending. They have called the same methods, and their libraries agree about the
functions that are not defined. -/
structure Agrees (k₁ k₂ : Linker) (s t : Resolving) : Prop where
  limit : k₁.limit = k₂.limit
  library : ∀ name, name ∉ s.linking.assembly.names .function →
    k₁.library.get? name = k₂.library.get? name
  functions : s.linking.assembly.functions.map FunctionDef.untyped =
    t.linking.assembly.functions.map FunctionDef.untyped
  classes : s.linking.assembly.classes.map ClassDef.untyped =
    t.linking.assembly.classes.map ClassDef.untyped
  pending : s.pending.map CallSite.name = t.pending.map CallSite.name
  sited : ∀ name ∈ s.pending.map CallSite.name, '.' ∈ name.toList →
    name ∈ s.linking.assembly.calls.map CallSite.name
  methods : ∀ name, '.' ∈ name.toList →
    (name ∈ s.linking.assembly.calls.map CallSite.name ↔
      name ∈ t.linking.assembly.calls.map CallSite.name)

theorem Agrees.names_eq (h : Agrees k₁ k₂ s t) :
    s.linking.assembly.names .function = t.linking.assembly.names .function :=
  FunctionDef.map_name_of_untyped h.functions

theorem Agrees.symm (h : Agrees k₁ k₂ s t) : Agrees k₂ k₁ t s where
  limit := h.limit.symm
  library := fun name hname => (h.library name (h.names_eq ▸ hname)).symm
  functions := h.functions.symm
  classes := h.classes.symm
  pending := h.pending.symm
  sited := fun name hname hdot =>
    (h.methods name hdot).mp (h.sited name (h.pending ▸ hname) hdot)
  methods := fun name hdot => (h.methods name hdot).symm

/-- Entries are taken in the same way wherever they are called. -/
theorem loadEntry_congr {limit : Int} {site site' : CallSite} (hname : site.name = site'.name)
    {saved : SavedFunction} {p : Program} {calls : List CallSite}
    (h : loadEntry limit site saved = .ok (p, calls)) :
    loadEntry limit site' saved = .ok (p, calls) := by
  obtain ⟨g, main, a, hload, hvalid, hassemble, hdefines, hp, hcalls⟩ := loadEntry_eq_ok.mp h
  exact loadEntry_eq_ok.mpr ⟨g, main, a, hload, hvalid, hassemble, hname ▸ hdefines, hp, hcalls⟩

/-- **Linkings that agree stay in step,** unless a method is called. -/
theorem Agrees.step {s' : Resolving} (h : Agrees k₁ k₂ s t) (hstep : k₁.Step s s')
    (hdots : ∀ name ∈ s.pending.map CallSite.name, '.' ∉ name.toList) :
    ∃ t', k₂.Step t t' ∧ Agrees k₁ k₂ s' t' := by
  obtain ⟨l', pending'⟩ := t
  have hnames := h.names_eq
  cases hstep with
  | @answered l site rest hanswers =>
    have hpending := h.pending
    rw [List.map_cons] at hpending
    obtain ⟨site', rest', rfl, hname, hrest⟩ := List.map_eq_cons_iff.mp hpending.symm
    have hdot := hdots site.name List.mem_cons_self
    refine ⟨⟨l', rest'⟩, .answered ?_, ?_⟩
    · rw [Answers, if_neg hdot] at hanswers
      rw [Answers, hname, if_neg hdot, ← hnames]
      exact hanswers
    · exact ⟨h.limit, h.library, h.functions, h.classes, hrest.symm,
        fun name hmem => h.sited name (List.mem_cons_of_mem _ hmem), h.methods⟩
  | @taken l site rest saved program calls hlacks hget hload =>
    have hpending := h.pending
    rw [List.map_cons] at hpending
    obtain ⟨site', rest', rfl, hname, hrest⟩ := List.map_eq_cons_iff.mp hpending.symm
    rw [h.library site.name hlacks.2] at hget
    rw [h.limit] at hload
    refine ⟨_, .taken (hname ▸ ⟨hlacks.1, hnames ▸ hlacks.2⟩) (hname ▸ hget)
      (loadEntry_congr hname.symm hload), ?_⟩
    obtain ⟨g, main, b, -, -, -, hdefines, rfl, rfl⟩ := loadEntry_eq_ok.mp hload
    refine ⟨h.limit, ?_, ?_, ?_, ?_, ?_, ?_⟩
    · exact fun name hmem => h.library name fun hold => hmem ((names_add l site.name b main).1 hold)
    · rw [(l.untyped_add _ _ _).1, (l'.untyped_add _ _ _).1, h.functions]
    · rw [(l.untyped_add _ _ _).2, (l'.untyped_add _ _ _).2, h.classes]
    · rw [List.map_append, List.map_append, hrest, List.map_map, List.map_map]
      rfl
    · intro name hmem hdot
      rw [List.map_append, List.map_map] at hmem
      show name ∈ (l.assembly.calls ++ b.calls).map CallSite.name
      rw [List.map_append]
      rcases List.mem_append.mp hmem with hmem | hmem
      · exact List.mem_append_left _ (h.sited name (List.mem_cons_of_mem _ hmem) hdot)
      · exact List.mem_append_right _ hmem
    · intro name hdot
      show name ∈ (l.assembly.calls ++ b.calls).map CallSite.name ↔
        name ∈ (l'.assembly.calls ++ b.calls).map CallSite.name
      rw [List.map_append, List.map_append, List.mem_append, List.mem_append]
      exact or_congr_left (h.methods name hdot)

/-- Call sites are only added. -/
theorem Ends.calls_subset {k : Linker} {l : Linking} {asked : List String}
    (h : k.Ends s (.ok l) asked) : s.linking.assembly.calls ⊆ l.assembly.calls := by
  have hkept : ∀ {t t' : Resolving}, s.linking.assembly.calls ⊆ t.linking.assembly.calls →
      k.Step t t' → s.linking.assembly.calls ⊆ t'.linking.assembly.calls := by
    intro t t' ht hstep
    cases hstep with
    | answered _ => exact ht
    | taken _ _ _ => exact List.Subset.trans ht (List.subset_append_left _ _)
  obtain ⟨t, ht, hstop⟩ := h.exists_stop hkept (List.Subset.refl _)
  cases hstop
  exact ht

/-- **Linkings that agree come to the same definitions,** if no method is called. -/
theorem Agrees.ends {l : Linking} {asked : List String} (h : Agrees k₁ k₂ s t)
    (hends : k₁.Ends s (.ok l) asked)
    (hdots : ∀ name ∈ l.assembly.calls.map CallSite.name, '.' ∉ name.toList) :
    ∃ l' asked', k₂.Ends t (.ok l') asked' ∧ Agrees k₁ k₂ ⟨l, []⟩ ⟨l', []⟩ := by
  generalize hresult : Except.ok l = result at hends
  induction hends generalizing t with
  | @finished s result asked hround =>
    subst hresult
    obtain ⟨l', pending⟩ := t
    cases stop_of_round hround
    obtain rfl := List.map_eq_nil_iff.mp h.pending.symm
    exact ⟨l', _, .finished rfl, h⟩
  | @more s s' result asked hround hends ih =>
    subst hresult
    have hstep := step_of_round hround
    have hpending : ∀ name ∈ s.pending.map CallSite.name, '.' ∉ name.toList := by
      intro name hname hdot
      have hsited := h.sited name hname hdot
      exact hdots name (List.map_subset _ (Ends.more hround hends).calls_subset hsited) hdot
    obtain ⟨t', hstep', h'⟩ := h.step hstep hpending
    obtain ⟨l', asked', hends', hagrees⟩ := ih h' rfl
    exact ⟨l', asked', .more hstep'.round_eq hends', hagrees⟩

end Linker

/-! ## Constructors -/

/-- A list of computations succeeds if each of them does. -/
theorem exists_mapM_iff {ε α β : Type} {f : α → Except ε β} {l : List α} :
    (∃ r, l.mapM f = .ok r) ↔ ∀ a ∈ l, ∃ b, f a = .ok b := by
  constructor
  · rintro ⟨r, hr⟩ a ha
    obtain ⟨b, -, hb⟩ := mapM_eq_ok_mem hr a ha
    exact ⟨b, hb⟩
  · intro h
    induction l with
    | nil => exact ⟨[], rfl⟩
    | cons a l ih =>
      obtain ⟨b, hb⟩ := h a List.mem_cons_self
      obtain ⟨r, hr⟩ := ih fun a' ha' => h a' (List.mem_cons_of_mem _ ha')
      refine ⟨b :: r, ?_⟩
      rw [List.mapM_cons]
      exact bind_eq_ok.mpr ⟨b, hb, bind_eq_ok.mpr ⟨r, hr, rfl⟩⟩

theorem ClassDef.fields_untyped (c : ClassDef) : c.untyped.fields = c.fields := by
  unfold untyped fields
  rw [List.filterMap_map]
  refine congrArg (List.filterMap · c.members) (funext fun m => ?_)
  cases m <;> rfl

namespace Program

variable {p q : Program}

theorem mem_statements {s : Statement} : s ∈ p.statements ↔ Part.statement s ∈ p.walk := by
  unfold statements
  rw [List.mem_filterMap]
  constructor
  · rintro ⟨r, hr, h⟩
    cases r with
    | statement s' =>
      cases h
      exact hr
    | _ => cases h
  · intro h
    exact ⟨_, h, rfl⟩

/-- Marking classes leaves the statements as they are. -/
theorem statements_withConstructors (h : p.withConstructors = .ok q) :
    q.statements = p.statements := by
  obtain ⟨needed, -, rfl⟩ := withConstructors_eq_ok.mp h
  unfold statements walk
  simp only [List.filterMap_append, List.flatMap_map, List.filterMap_flatMap]
  refine congrArg (· ++ _ ++ _) (congrArg (List.flatMap · _) (funext fun c => ?_))
  simp [ClassDef.walk]

/-- A program has its constructors if every statement does its part. -/
theorem exists_withConstructors_iff :
    (∃ q, p.withConstructors = .ok q) ↔
      ∀ s, Part.statement s ∈ p.walk → ∃ r, p.constructed? s = .ok r := by
  have hmapM := exists_mapM_iff (f := p.constructed?) (l := p.statements)
  constructor
  · rintro ⟨q, hq⟩ s hs
    obtain ⟨needed, hneeded, -⟩ := withConstructors_eq_ok.mp hq
    exact hmapM.mp ⟨needed, hneeded⟩ s (mem_statements.mpr hs)
  · intro h
    obtain ⟨needed, hneeded⟩ := hmapM.mpr fun s hs => h s (mem_statements.mp hs)
    exact ⟨_, withConstructors_eq_ok.mpr ⟨needed, hneeded, rfl⟩⟩

/-- Only the names and the fields of the classes count for constructors. -/
theorem constructed?_congr (h : p.classes.map ClassDef.untyped = q.classes.map ClassDef.untyped)
    (s : Statement) : p.constructed? s = q.constructed? s := by
  have hfind : ∀ name, (p.classes.find? (·.name = name)).map ClassDef.untyped =
      (q.classes.find? (·.name = name)).map ClassDef.untyped := by
    intro name
    have := congrArg (List.find? (·.name = name)) h
    rw [List.find?_map, List.find?_map] at this
    exact this
  cases s with
  | create className name args node =>
    cases args with
    | nil => rfl
    | cons arg args =>
      unfold constructed?
      refine congrArg (Except.bind _) (funext fun className => ?_)
      have hclass := hfind className
      cases hp : p.classes.find? (·.name = className) with
      | none =>
        rw [hp, Option.map_none, eq_comm, Option.map_eq_none_iff] at hclass
        simp only [hclass]
      | some c =>
        rw [hp, Option.map_some, eq_comm, Option.map_eq_some_iff] at hclass
        obtain ⟨c', hq, huntyped⟩ := hclass
        have hname : c'.name = c.name := by rw [← c'.name_untyped, huntyped, c.name_untyped]
        have hfields : c'.fields = c.fields := by
          rw [← c'.fields_untyped, huntyped, c.fields_untyped]
        simp only [hq, hname, hfields]
  | _ => rfl

end Program

/-! ## Statements of definitions without types -/

theorem FunctionDef.statement_mem_untyped {f : FunctionDef} {s : Statement} :
    Part.statement s ∈ f.untyped.walk ↔ Part.statement s ∈ f.walk := by
  simp [walk, untyped]

theorem ClassDef.statement_mem_untyped {c : ClassDef} {s : Statement} :
    Part.statement s ∈ c.untyped.walk ↔ Part.statement s ∈ c.walk := by
  have hmember : ∀ m : Member,
      Part.statement s ∈ m.untyped.walk ↔ Part.statement s ∈ m.walk := by
    intro m
    cases m with
    | method f => exact FunctionDef.statement_mem_untyped
    | _ => exact Iff.rfl
  simp [walk, untyped, hmember]

namespace Assembly

variable {a b : Assembly} {main : Block} {s : Statement}

theorem statement_mem_walk_iff :
    Part.statement s ∈ a.walk ↔
      (∃ c ∈ a.classes.map ClassDef.untyped, Part.statement s ∈ c.walk) ∨
        ∃ f ∈ a.functions.map FunctionDef.untyped, Part.statement s ∈ f.walk := by
  simp [walk, ClassDef.statement_mem_untyped, FunctionDef.statement_mem_untyped]

theorem statement_mem_finish_iff :
    Part.statement s ∈ (a.finish main).walk ↔ Part.statement s ∈ a.walk ∨ s ∈ Block.walk main := by
  rw [walk_finish, List.mem_map]
  constructor
  · rintro ⟨q, hq, h⟩
    cases q with
    | statement s' =>
      cases h
      simpa using hq
    | _ => cases h
  · intro h
    exact ⟨.statement s, by simpa using h, rfl⟩

/-- Assemblies with the same definitions apart from types have the same constructors: it is enough
to look at the main block. -/
theorem exists_withConstructors (main' : Block) {p : Program}
    (hclasses : a.classes.map ClassDef.untyped = b.classes.map ClassDef.untyped)
    (hfunctions : a.functions.map FunctionDef.untyped = b.functions.map FunctionDef.untyped)
    (hp : (a.finish main).withConstructors = .ok p)
    (hmain : ∀ s ∈ Block.walk main', ∃ r, (b.finish main').constructed? s = .ok r) :
    ∃ q, (b.finish main').withConstructors = .ok q := by
  refine Program.exists_withConstructors_iff.mpr fun s hs => ?_
  rcases statement_mem_finish_iff.mp hs with hs | hs
  · rw [statement_mem_walk_iff, ← hclasses, ← hfunctions, ← statement_mem_walk_iff] at hs
    obtain ⟨r, hr⟩ := Program.exists_withConstructors_iff.mp ⟨p, hp⟩ s
      (statement_mem_finish_iff.mpr (Or.inl hs))
    refine ⟨r, ?_⟩
    rw [← hr]
    refine Program.constructed?_congr ?_ s
    rw [(b.untyped_finish main').2, (a.untyped_finish main).2, hclasses]
  · exact hmain s hs

end Assembly

end Blockflow
