import Blockflow.Proofs.Program.Calls

/-!
# Resolving calls

`resolve` strikes an entry off the library when it takes it, and so it ends. The rounds of a
`Linker` leave the library as it is: each of them looks at the first pending call, with all entries
at hand. Both come to the same (`Linker.ends_resolve`), since an entry is taken only if it defines
the function that was looked up, and a function that is defined is not looked up again.

So resolving ends for every library, even one whose entries call each other in a circle, and no name
is looked up twice (`Graph.link_ends`).
-/

namespace Blockflow

/-! ## Adding what is missing -/

theorem any_name_iff {α : Type} {name : α → String} {l : List α} {s : String} :
    l.any (name · = s) = true ↔ s ∈ l.map name := by
  simp

section AddMissing

variable {α : Type} {name : α → String}

theorem addMissing_cons (known : List α) (d : α) (more : List α) :
    addMissing name known (d :: more) =
      addMissing name (if known.any (name · = name d) then known else known ++ [d]) more := rfl

/-- Nothing that is known is moved or dropped. -/
theorem prefix_addMissing : ∀ {known more : List α}, known <+: addMissing name known more
  | known, [] => List.prefix_refl known
  | known, d :: more => by
    rw [addMissing_cons]
    split
    next => exact prefix_addMissing
    next => exact (List.prefix_append known [d]).trans prefix_addMissing

/-- Only what was known or offered is there in the end. -/
theorem mem_of_mem_addMissing {x : α} : ∀ {known more : List α},
    x ∈ addMissing name known more → x ∈ known ∨ x ∈ more
  | _, [], h => Or.inl h
  | known, d :: more, h => by
    rw [addMissing_cons] at h
    rcases mem_of_mem_addMissing h with h | h
    · split at h
      next => exact Or.inl h
      next =>
        rcases List.mem_append.mp h with h | h
        · exact Or.inl h
        · exact Or.inr (List.mem_cons.mpr (Or.inl (List.mem_singleton.mp h)))
    · exact Or.inr (List.mem_cons_of_mem _ h)

/-- Every name that is offered is there in the end. -/
theorem names_subset_addMissing : ∀ {known more : List α},
    more.map name ⊆ (addMissing name known more).map name
  | _, [] => List.nil_subset _
  | known, d :: more => by
    rw [addMissing_cons, List.map_cons, List.cons_subset]
    refine ⟨?_, names_subset_addMissing⟩
    refine (prefix_addMissing.map name).subset ?_
    split
    next h => exact any_name_iff.mp h
    next => simp

/-- No name is added twice. -/
theorem nodup_addMissing : ∀ {known more : List α}, (known.map name).Nodup →
    ((addMissing name known more).map name).Nodup
  | _, [], h => h
  | known, d :: more, h => by
    rw [addMissing_cons]
    refine nodup_addMissing ?_
    split
    next => exact h
    next hd =>
      rw [List.map_append, List.map_singleton, ← List.concat_eq_append]
      exact (List.nodup_concat _ _).mpr ⟨fun hmem => hd (any_name_iff.mpr hmem), h⟩

end AddMissing

/-! ## Library entries -/

@[simp] theorem FunctionDef.name_typed (calls : List CallSite) (f : FunctionDef) :
    (f.typed calls).name = f.name := by
  unfold typed
  split <;> rfl

/-- A graph is let through exactly when it is valid. -/
theorem Graph.ensureValid_eq_ok {g : Graph} : g.ensureValid = .ok () ↔ g.Valid := by
  unfold ensureValid Valid
  constructor
  · intro h
    split at h
    next => cases h
    next hvalid => exact hvalid
    next => cases h
  · intro h
    rw [h]

/-- A library entry that is taken has a valid graph and defines the function that is called. -/
theorem loadEntry_eq_ok {limit : Int} {site : CallSite} {saved : SavedFunction} {p : Program}
    {calls : List CallSite} :
    loadEntry limit site saved = .ok (p, calls) ↔
      ∃ g main a, Graph.load saved.subgraph = .ok g ∧ g.Valid ∧ g.assemble limit = .ok (main, a) ∧
        site.name ∈ a.names .function ∧ p = a.finish main ∧ calls = a.calls := by
  have hnames : ∀ (a : Assembly) (main : Block),
      (a.finish main).functions.any (·.name = site.name) = true ↔
        site.name ∈ a.names .function := by
    intro a main
    rw [any_name_iff, Assembly.finish, List.map_map, Assembly.names]
    simp
  unfold loadEntry
  constructor
  · intro h
    obtain ⟨g, hload, h⟩ := bind_eq_ok.mp h
    obtain ⟨_, hvalid, h⟩ := bind_eq_ok.mp h
    obtain ⟨⟨main, a⟩, hassemble, h⟩ := bind_eq_ok.mp h
    simp only at h
    split at h
    next hdefines =>
      cases h
      exact ⟨g, main, a, hload, Graph.ensureValid_eq_ok.mp hvalid, hassemble,
        (hnames a main).mp hdefines, rfl, rfl⟩
    next => cases h
  · rintro ⟨g, main, a, hload, hvalid, hassemble, hdefines, rfl, rfl⟩
    refine bind_eq_ok.mpr ⟨g, hload, bind_eq_ok.mpr ⟨(), Graph.ensureValid_eq_ok.mpr hvalid, ?_⟩⟩
    refine bind_eq_ok.mpr ⟨(main, a), hassemble, ?_⟩
    exact if_pos ((hnames a main).mpr hdefines)

/-! ## Rounds -/

/-- A program that is being linked, with the calls that are still to be resolved. -/
structure Resolving where
  linking : Linking
  pending : List CallSite

/-- What a round comes to: another state, or the result together with all names that were looked
up. -/
inductive Round where
  | more (next : Resolving)
  | finished (result : Except Failure Linking) (asked : List String)

/-- What stays the same while calls are resolved. -/
structure Linker where
  limit : Int
  methods : List String
  library : Library

namespace Linker

/-- Look at the first pending call. -/
def round (k : Linker) (s : Resolving) : Round :=
  match s.pending with
  | [] => .finished (.ok s.linking) s.linking.lookups
  | site :: rest =>
    let unknown : Failure := .compile (.unresolved site.node site.name .unknownFunction)
    if site.name.toList.contains '.' then
      if k.methods.contains (lastComponent site.name) then .more { s with pending := rest }
      else .finished (.error unknown) s.linking.lookups
    else if s.linking.assembly.functions.any (·.name = site.name) then
      .more { s with pending := rest }
    else
      let asked := s.linking.lookups ++ [site.name]
      match k.library.get? site.name with
      | none => .finished (.error unknown) asked
      | some (.error _) => .finished (.error (.defect (.unreadableEntry site.name))) asked
      | some (.ok saved) =>
        match loadEntry k.limit site saved with
        | .error failure => .finished (.error failure) asked
        | .ok (program, calls) =>
          .more
            { linking := s.linking.add site.name program calls
              pending := rest ++ calls.map fun nested => { nested with node := site.node } }

/-- Round after round, the state comes to this result, and these names have been looked up by
then. -/
inductive Ends (k : Linker) : Resolving → Except Failure Linking → List String → Prop where
  | finished {s result asked} : k.round s = .finished result asked → Ends k s result asked
  | more {s t result asked} : k.round s = .more t → Ends k t result asked → Ends k s result asked

/-- A call of this name needs nothing from the library. -/
def Answers (k : Linker) (l : Linking) (name : String) : Prop :=
  if '.' ∈ name.toList then lastComponent name ∈ k.methods
  else name ∈ l.assembly.names .function

/-- A function of this name has to come from the library. -/
def Lacks (l : Linking) (name : String) : Prop :=
  '.' ∉ name.toList ∧ name ∉ l.assembly.names .function

variable {k : Linker} {s t : Resolving} {result : Except Failure Linking} {asked : List String}

/-- What a round does if it is not the last one. -/
inductive Step (k : Linker) : Resolving → Resolving → Prop where
  | answered {l site rest} : k.Answers l site.name → Step k ⟨l, site :: rest⟩ ⟨l, rest⟩
  | taken {l site rest saved program calls} : Lacks l site.name →
      k.library.get? site.name = some (.ok saved) →
      loadEntry k.limit site saved = .ok (program, calls) →
      Step k ⟨l, site :: rest⟩
        { linking := l.add site.name program calls
          pending := rest ++ calls.map fun nested => { nested with node := site.node } }

/-- How the last round ends. A name for which no entry can be taken has been looked up as well. -/
inductive Stop (k : Linker) : Resolving → Except Failure Linking → List String → Prop where
  | done {l} : Stop k ⟨l, []⟩ (.ok l) l.lookups
  | noMethod {l site rest failure} : Stop k ⟨l, site :: rest⟩ (.error failure) l.lookups
  | notTaken {l site rest failure} : Lacks l site.name →
      Stop k ⟨l, site :: rest⟩ (.error failure) (l.lookups ++ [site.name])

theorem lacks_of_not {l : Linking} {name : String} (hdot : ¬ name.toList.contains '.' = true)
    (hdefined : ¬ l.assembly.functions.any (·.name = name) = true) : Lacks l name :=
  ⟨by simpa using hdot, fun h => hdefined (any_name_iff.mpr h)⟩

/-- A round that goes on is a step. -/
theorem step_of_round (h : k.round s = .more t) : k.Step s t := by
  obtain ⟨l, pending⟩ := s
  unfold round at h
  split at h
  next => cases h
  next site rest hpending =>
    cases hpending
    simp only at h
    split at h
    next hdot =>
      split at h
      next hmethod =>
        cases h
        refine .answered ?_
        rw [Answers, if_pos (by simpa using hdot)]
        simpa using hmethod
      next => cases h
    next hdot =>
      split at h
      next hdefined =>
        cases h
        refine .answered ?_
        rw [Answers, if_neg (by simpa using hdot)]
        exact any_name_iff.mp hdefined
      next hdefined =>
        split at h
        next => cases h
        next => cases h
        next saved hget =>
          split at h
          next => cases h
          next program calls hload =>
            cases h
            exact .taken (lacks_of_not hdot hdefined) hget hload

/-- A step is what a round does. -/
theorem Step.round_eq (h : k.Step s t) : k.round s = .more t := by
  cases h with
  | @answered l site rest hanswers =>
    unfold Answers at hanswers
    split at hanswers
    next hdot => simp [round, hdot, hanswers]
    next hdot =>
      have hdefined := any_name_iff.mpr hanswers
      simp only [round, if_neg (show ¬ site.name.toList.contains '.' = true by simpa using hdot),
        if_pos hdefined]
  | @taken l site rest saved program calls hlacks hget hload =>
    have hdefined : ¬ l.assembly.functions.any (·.name = site.name) = true :=
      fun h => hlacks.2 (any_name_iff.mp h)
    simp only [round,
      if_neg (show ¬ site.name.toList.contains '.' = true by simpa using hlacks.1),
      if_neg hdefined, hget, hload]

/-- A round that finishes is a stop. -/
theorem stop_of_round (h : k.round s = .finished result asked) : k.Stop s result asked := by
  obtain ⟨l, pending⟩ := s
  unfold round at h
  split at h
  next hpending =>
    cases hpending
    cases h
    exact .done
  next site rest hpending =>
    cases hpending
    simp only at h
    split at h
    next =>
      split at h
      next => cases h
      next =>
        cases h
        exact .noMethod
    next hdot =>
      split at h
      next => cases h
      next hdefined =>
        have hlacks := lacks_of_not hdot hdefined
        split at h
        next =>
          cases h
          exact .notTaken hlacks
        next =>
          cases h
          exact .notTaken hlacks
        next =>
          split at h
          next =>
            cases h
            exact .notTaken hlacks
          next => cases h

/-- What every round keeps holds in the last one. -/
theorem Ends.exists_last {I : Resolving → Prop} (hI : ∀ {s t}, I s → k.Step s t → I t)
    (h : k.Ends s result asked) (hs : I s) : ∃ t, I t ∧ k.round t = .finished result asked := by
  induction h with
  | finished hround => exact ⟨_, hs, hround⟩
  | more hround _ ih => exact ih (hI hs (step_of_round hround))

/-- A property that every step keeps holds where the rounds stop. -/
theorem Ends.exists_stop {I : Resolving → Prop} (hI : ∀ {s t}, I s → k.Step s t → I t)
    (h : k.Ends s result asked) (hs : I s) : ∃ t, I t ∧ k.Stop t result asked := by
  obtain ⟨t, ht, hround⟩ := h.exists_last hI hs
  exact ⟨t, ht, stop_of_round hround⟩

/-- There is one way only in which a state ends. -/
theorem Ends.unique {result' : Except Failure Linking} {asked' : List String}
    (h : k.Ends s result asked) (h' : k.Ends s result' asked') :
    result = result' ∧ asked = asked' := by
  induction h with
  | finished hround =>
    cases h' with
    | finished hround' =>
      cases hround.symm.trans hround'
      exact ⟨rfl, rfl⟩
    | more hround' _ => cases hround.symm.trans hround'
  | more hround _ ih =>
    cases h' with
    | finished hround' => cases hround.symm.trans hround'
    | more hround' hends' =>
      cases hround.symm.trans hround'
      exact ih hends'

/-- What a state comes to in at most `n` rounds, if it ends by then. -/
def rounds (k : Linker) : Nat → Resolving → Option (Except Failure Linking × List String)
  | 0, _ => none
  | n + 1, s =>
    match k.round s with
    | .more t => k.rounds n t
    | .finished result asked => some (result, asked)

/-- Rounds that come to an end within a bound come to that end. -/
theorem ends_of_rounds : ∀ {n : Nat} {s : Resolving},
    k.rounds n s = some (result, asked) → k.Ends s result asked
  | 0, _, h => by cases h
  | n + 1, s, h => by
    rw [rounds] at h
    split at h
    next t hround => exact .more hround (ends_of_rounds h)
    next hround =>
      cases h
      exact .finished hround

/-- The functions of an entry are defined once it has been added. -/
theorem names_add (l : Linking) (name : String) (a : Assembly) (main : Block) :
    l.assembly.names .function ⊆ (l.add name (a.finish main) a.calls).assembly.names .function ∧
      a.names .function ⊆ (l.add name (a.finish main) a.calls).assembly.names .function := by
  refine ⟨(prefix_addMissing.map _).subset, ?_⟩
  have hnames : (a.finish main).functions.map FunctionDef.name = a.names .function := by
    rw [Assembly.finish, List.map_map, Assembly.names]
    simp
  rw [← hnames]
  exact names_subset_addMissing

/-- **Resolving does what the rounds do.** What is struck off the library is defined by then, so it
is not looked up again. -/
theorem ends_resolve (k : Linker) (lib : Library) (l : Linking) (pending : List CallSite)
    (hlib : ∀ name, name ∉ l.assembly.names .function → lib.get? name = k.library.get? name) :
    ∃ asked, k.Ends ⟨l, pending⟩ (resolve k.limit k.methods lib l pending) asked := by
  fun_induction resolve k.limit k.methods lib l pending with
  | case1 lib l => exact ⟨l.lookups, .finished rfl⟩
  | case2 lib l site rest hdot hmethod ih =>
    obtain ⟨asked, hends⟩ := ih hlib
    refine ⟨asked, .more ?_ hends⟩
    simp only [round, if_pos hdot, if_pos hmethod]
  | case3 lib l site rest hdot hmethod =>
    refine ⟨l.lookups, .finished ?_⟩
    simp only [round, if_pos hdot, if_neg hmethod]
  | case4 lib l site rest hdot hdefined ih =>
    obtain ⟨asked, hends⟩ := ih hlib
    refine ⟨asked, .more ?_ hends⟩
    simp only [round, if_neg hdot, if_pos hdefined]
  | case5 lib l site rest hdot hdefined hget =>
    rw [hlib site.name (lacks_of_not hdot hdefined).2] at hget
    refine ⟨l.lookups ++ [site.name], .finished ?_⟩
    simp only [round, if_neg hdot, if_neg hdefined, hget]
  | case6 lib l site rest hdot hdefined faults hget =>
    rw [hlib site.name (lacks_of_not hdot hdefined).2] at hget
    refine ⟨l.lookups ++ [site.name], .finished ?_⟩
    simp only [round, if_neg hdot, if_neg hdefined, hget]
  | case7 lib l site rest hdot hdefined saved hget _ ih =>
    rw [hlib site.name (lacks_of_not hdot hdefined).2] at hget
    cases hload : loadEntry k.limit site saved with
    | error failure =>
      refine ⟨l.lookups ++ [site.name], .finished ?_⟩
      simp only [round, if_neg hdot, if_neg hdefined, hget, hload]
      rfl
    | ok entry =>
      obtain ⟨program, calls⟩ := entry
      obtain ⟨g, main, a, -, -, -, hdefines, rfl, rfl⟩ := loadEntry_eq_ok.mp hload
      obtain ⟨hkept, hadded⟩ := names_add l site.name a main
      obtain ⟨asked, hends⟩ := ih (a.finish main) a.calls fun name hname => by
        -- the entry that is struck off defines the name under which it was looked up
        have hne : site.name ≠ name := fun heq => hname (heq ▸ hadded hdefines)
        rw [Dict.get?_erase, if_neg hne]
        exact hlib name fun h => hname (hkept h)
      refine ⟨asked, .more ?_ hends⟩
      simp only [round, if_neg hdot, if_neg hdefined, hget, hload]

/-! ## Names that are looked up -/

/-- What has been looked up while the calls of `a` are resolved: names without a dot, which `a` does
not define, each of them once and now defined. -/
structure Recorded (a : Assembly) (s : Resolving) : Prop where
  kept : a.names .function ⊆ s.linking.assembly.names .function
  nodup : s.linking.lookups.Nodup
  defined : s.linking.lookups ⊆ s.linking.assembly.names .function
  foreign : ∀ name ∈ s.linking.lookups, Lacks { assembly := a } name

theorem recorded_start (a : Assembly) (pending : List CallSite) :
    Recorded a ⟨{ assembly := a }, pending⟩ where
  kept := fun _ h => h
  nodup := List.nodup_nil
  defined := List.nil_subset _
  foreign := fun _ h => absurd h List.not_mem_nil

/-- A name that is lacking has not been looked up before. -/
theorem Recorded.asks {a : Assembly} (h : Recorded a s) {name : String}
    (hlacks : Lacks s.linking name) :
    (s.linking.lookups ++ [name]).Nodup ∧
      ∀ other ∈ s.linking.lookups ++ [name], Lacks { assembly := a } other := by
  constructor
  · rw [← List.concat_eq_append]
    exact (List.nodup_concat _ _).mpr ⟨fun hmem => hlacks.2 (h.defined hmem), h.nodup⟩
  · intro other hother
    rcases List.mem_append.mp hother with hother | hother
    · exact h.foreign other hother
    · rw [List.mem_singleton.mp hother]
      exact ⟨hlacks.1, fun hmem => hlacks.2 (h.kept hmem)⟩

/-- A step keeps the record of the names that were looked up. -/
theorem Recorded.step {a : Assembly} (h : Recorded a s) (hstep : k.Step s t) : Recorded a t := by
  cases hstep with
  | answered _ => exact ⟨h.kept, h.nodup, h.defined, h.foreign⟩
  | @taken l site rest saved program calls hlacks _ hload =>
    obtain ⟨hnodup, hforeign⟩ := h.asks hlacks
    obtain ⟨g, main, b, -, -, -, hdefines, rfl, rfl⟩ := loadEntry_eq_ok.mp hload
    obtain ⟨hkept, hadded⟩ := names_add l site.name b main
    refine ⟨fun _ hmem => hkept (h.kept hmem), hnodup, fun other hother => ?_, hforeign⟩
    rcases List.mem_append.mp hother with hother | hother
    · exact hkept (h.defined hother)
    · rw [List.mem_singleton.mp hother]
      exact hadded hdefines

/-- Where the rounds stop, no name was looked up twice, and the graph itself has none of them. -/
theorem Recorded.stop {a : Assembly} (h : Recorded a s) (hstop : k.Stop s result asked) :
    asked.Nodup ∧ (∀ name ∈ asked, Lacks { assembly := a } name) ∧
      ∀ l, result = .ok l → l.lookups = asked := by
  cases hstop with
  | done => exact ⟨h.nodup, h.foreign, by rintro l ⟨⟩; rfl⟩
  | noMethod => exact ⟨h.nodup, h.foreign, by rintro l ⟨⟩⟩
  | notTaken hlacks =>
    obtain ⟨hnodup, hforeign⟩ := h.asks hlacks
    exact ⟨hnodup, hforeign, by rintro l ⟨⟩⟩

end Linker

/-! ## Linking a graph -/

namespace Graph

variable {g : Graph} {limit : Int} {lib : Library} {main : Block} {a : Assembly}

/-- What resolves the calls of a program that was put together. -/
def linker (limit : Int) (lib : Library) (a : Assembly) : Linker :=
  { limit, methods := a.methods.map FunctionDef.name, library := lib }

/-- The program that was put together, with all its calls pending. -/
def unresolved (a : Assembly) : Resolving := { linking := { assembly := a }, pending := a.calls }

/-- Names that are texts pass the check of names. -/
theorem checkNames_of_namesAreTexts (h : g.namesAreTexts a = true) : g.checkNames a = .ok () := by
  unfold namesAreTexts at h
  simp only [Bool.not_eq_true', Bool.or_eq_false_iff] at h
  obtain ⟨⟨hcalls, hfunctions⟩, -⟩ := h
  unfold checkNames
  rw [hcalls, hfunctions]
  rfl

/-- In a valid graph all names are texts, those of classes too. -/
theorem Valid.namesAreTexts (hv : g.Valid) (h : g.assemble limit = .ok (main, a)) :
    g.namesAreTexts a = true := by
  obtain ⟨-, parts, hparts, hperm⟩ := assemble_becomes h
  have hclasses : a.classes.any (g.hasObjectName ·.node) = false := by
    rw [List.any_eq_false]
    intro c hc
    have hwalk : Part.classDef c ∈ a.walk :=
      List.mem_append_left _ (List.mem_flatMap.mpr ⟨c, hc, List.mem_cons_self⟩)
    obtain ⟨v, hvis, hbecomes⟩ := forall₂_exists_left hparts
      (hperm.mem_iff.mp (List.mem_append_left _ hwalk))
    have hid : c.node = v.node.id := hbecomes.node_eq
    rw [hid, hv.hasObjectName_eq_false (mem_nodes_of_visit hvis) hbecomes.kind_eq (by decide)]
    simp
  have hnames := hv.checkNames h
  unfold Graph.checkNames at hnames
  split at hnames
  next => cases hnames
  next hcalls =>
    split at hnames
    next => cases hnames
    next hfunctions =>
      rw [Bool.not_eq_true] at hcalls hfunctions
      rw [Graph.namesAreTexts, hcalls, hfunctions, hclasses]
      rfl

/-- What a build consists of. -/
theorem build_eq_ok {b : Build} :
    g.build limit lib = .ok b ↔
      ∃ main a l, g.assemble limit = .ok (main, a) ∧ g.namesAreTexts a = true ∧
        link limit lib a a.calls = .ok l ∧
        (l.assembly.finish main).withConstructors = .ok b.program ∧
        b.symbols = a.symbols ∧ b.calls = l.assembly.calls ∧ b.lookups = l.lookups := by
  unfold build
  constructor
  · intro h
    obtain ⟨⟨main, a⟩, hassemble, h⟩ := bind_eq_ok.mp h
    simp only at h
    split at h
    next htexts =>
      obtain ⟨l, hlink, h⟩ := bind_eq_ok.mp h
      obtain ⟨program, hprogram, h⟩ := bind_eq_ok.mp h
      cases h
      exact ⟨main, a, l, hassemble, htexts, hlink, hprogram, rfl, rfl, rfl⟩
    next => cases h
  · rintro ⟨main, a, l, hassemble, htexts, hlink, hprogram, hsymbols, hcalls, hlookups⟩
    obtain ⟨program, symbols, calls, lookups⟩ := b
    cases hsymbols
    cases hcalls
    cases hlookups
    refine bind_eq_ok.mpr ⟨(main, a), hassemble, ?_⟩
    simp only [if_pos htexts]
    exact bind_eq_ok.mpr ⟨l, hlink, bind_eq_ok.mpr ⟨program, hprogram, rfl⟩⟩

/-- Linking does what the rounds do. -/
theorem exists_ends_link (limit : Int) (lib : Library) (a : Assembly) :
    ∃ asked, (linker limit lib a).Ends (unresolved a) (link limit lib a a.calls) asked :=
  (linker limit lib a).ends_resolve lib { assembly := a } a.calls fun _ _ => rfl

/-- Linking gives the result that the rounds end in. -/
theorem link_eq_of_ends {result : Except Failure Linking} {asked : List String}
    (h : (linker limit lib a).Ends (unresolved a) result asked) :
    link limit lib a a.calls = result := by
  obtain ⟨asked', h'⟩ := exists_ends_link limit lib a
  exact (h'.unique h).1

/-- The result of building, if calls are resolved in at most `n` rounds. Unlike `build` it can be
evaluated. -/
def buildWithin (n : Nat) (g : Graph) (limit : Int) (lib : Library) :
    Option (Except Failure Build) :=
  match g.assemble limit with
  | .error failure => some (.error failure)
  | .ok (main, a) =>
    if g.namesAreTexts a then
      ((linker limit lib a).rounds n (unresolved a)).map fun (result, _) => do
        let l ← result
        let program ← (l.assembly.finish main).withConstructors
        return { program, symbols := a.symbols, calls := l.assembly.calls, lookups := l.lookups }
    else some (.error (g.linkFailure limit lib a))

/-- A build that ends within a bound is the build. -/
theorem build_eq_of_buildWithin {n : Nat} {r : Except Failure Build}
    (h : g.buildWithin n limit lib = some r) : g.build limit lib = r := by
  unfold buildWithin at h
  unfold build
  split at h
  next failure hassemble =>
    cases h
    rw [hassemble]
    rfl
  next main a hassemble =>
    rw [hassemble]
    show (if g.namesAreTexts a then _ else _) = r
    split at h
    next htexts =>
      obtain ⟨⟨result, asked⟩, hrounds, hr⟩ := Option.map_eq_some_iff.mp h
      rw [if_pos htexts, link_eq_of_ends (Linker.ends_of_rounds hrounds)]
      exact hr
    next htexts =>
      cases h
      rw [if_neg htexts]
      rfl

/-- A build that ends well within a bound succeeds. -/
theorem exists_build_of_buildWithin {n : Nat}
    (h : (g.buildWithin n limit lib).any Except.isOk = true) : ∃ b, g.build limit lib = .ok b := by
  cases hr : g.buildWithin n limit lib with
  | none =>
    rw [hr] at h
    cases h
  | some r =>
    rw [hr] at h
    rw [build_eq_of_buildWithin hr]
    exact exists_of_isOk h

/-- A build that is checked by computing it. -/
theorem exists_build_of_any {n : Nat} {check : Build → Bool}
    (h : (g.buildWithin n limit lib).any (fun r => r.toOption.any check) = true) :
    ∃ b, g.build limit lib = .ok b ∧ check b = true := by
  obtain ⟨r, hr, hcheck⟩ := (Option.any_eq_true _ _).mp h
  rw [build_eq_of_buildWithin hr]
  exact exists_ok_of_any hcheck

/-- **Resolving calls ends, and looks up each name once.** However the entries of the library call
each other, round after round comes to an end. No name is looked up twice, none has a dot, and none
is the name of a function that the graph defines. The build has the result of the rounds. -/
theorem link_ends (hv : g.Valid) (h : g.assemble limit = .ok (main, a)) (lib : Library) :
    ∃ result asked, (linker limit lib a).Ends (unresolved a) result asked ∧ asked.Nodup ∧
      (∀ name ∈ asked, '.' ∉ name.toList ∧ name ∉ a.functions.map FunctionDef.name) ∧
      (∀ failure, result = .error failure → g.build limit lib = .error failure) ∧
      ∀ b, g.build limit lib = .ok b → ∃ l, result = .ok l ∧ b.lookups = asked := by
  obtain ⟨asked, hends⟩ := exists_ends_link limit lib a
  obtain ⟨s, hs, hstop⟩ := hends.exists_stop Linker.Recorded.step (Linker.recorded_start a a.calls)
  obtain ⟨hnodup, hforeign, hlookups⟩ := hs.stop hstop
  refine ⟨link limit lib a a.calls, asked, hends, hnodup, hforeign, ?_, ?_⟩
  · intro failure hfailure
    rw [build, h]
    simp only [bind, Except.bind, if_pos (hv.namesAreTexts h), hfailure]
  · intro b hb
    obtain ⟨main', a', l, h', -, hlink, -, -, -, hb⟩ := build_eq_ok.mp hb
    cases h.symm.trans h'
    exact ⟨l, hlink, hb.trans (hlookups l hlink)⟩

/-- A function that calls another one. -/
def partner (name callee : String) : SavedFunction where
  name
  subgraph :=
    { nodes :=
        [{ id := "define", type := "functionDefine", data := [("name", .str name)] },
         { id := "call", type := "functionCall", data := [("name", .str callee)] }]
      edges := [{ id := "e", source := "define", target := "call", sourceHandle := some "body" }] }

/-- Two saved functions that call each other. -/
def partners : Library :=
  [("ping", .ok (partner "ping" "pong")), ("pong", .ok (partner "pong" "ping"))]

/-- A node that calls a function. -/
def callNode (id name : String) : Node :=
  { id, type := "functionCall", data := [("name", .text name)] }

/-- The graph that consists of the call of a function. -/
def caller (id name : String) : Graph where
  nodes := [callNode id name]
  edges := []
  nodup := List.nodup_singleton _

/-- Two library functions that call each other are linked, and each is looked up at most once. -/
theorem link_ends_partners :
    (caller "call" "ping").Valid ∧ ∃ main a, (caller "call" "ping").assemble 100 = .ok (main, a) ∧
      ∃ result asked, (linker 100 partners a).Ends (unresolved a) result asked ∧ asked.Nodup := by
  have hv : (caller "call" "ping").Valid := by
    unfold Valid
    decide
  obtain ⟨⟨main, a⟩, h⟩ :=
    exists_of_isOk (x := (caller "call" "ping").assemble 100) (by decide +kernel)
  obtain ⟨result, asked, hends, hnodup, -⟩ := link_ends hv h partners
  exact ⟨hv, main, a, h, result, asked, hends, hnodup⟩

example : (do
    let (_, a) ← ((caller "call" "ping").assemble 100).toOption
    let (_, asked) ← (linker 100 partners a).rounds 4 (unresolved a)
    return asked) = some ["ping", "pong"] := by
  decide +kernel

end Graph

end Blockflow
