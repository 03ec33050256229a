import Mathlib.Logic.Relation
import Blockflow.Proofs.Program.Failure

/-!
# Who is to blame for a name that refers to nothing

The calls inside of a library entry are pending on behalf of the call that took the entry. So every
pending call belongs to a node of the graph that is built, and its name is reached from the name
that this node calls, by calls in the entries that were taken (`Linker.Blamed`). Each round keeps
this, and so the node that is blamed for an unresolved name is a call of the graph, however deep in
the library the name is met (`Graph.unresolved_blames_call`).
-/

namespace Blockflow

/-- The node calls a function or a method of this name. -/
def Node.Calls (n : Node) (name : String) : Prop := n.block? = some .call ∧ n.definedName = name

/-! ## Library entries that are refused -/

/-- Does the error say that a name refers to nothing? -/
def CompileError.IsReference (e : CompileError) : Prop := e.kind = "unresolved_reference"

instance (e : CompileError) : Decidable e.IsReference :=
  inferInstanceAs (Decidable (e.kind = "unresolved_reference"))

theorem Failure.IsStructural.not_isReference {e : CompileError}
    (h : (Failure.compile e).IsStructural) : ¬ e.IsReference := by
  cases e with
  | invalid _ => exact of_decide_eq_false rfl
  | controlFlow _ _ => exact of_decide_eq_false rfl
  | _ => exact h.elim

/-- The library has an entry of this name, with this graph and these definitions. -/
def Linker.Entry (k : Linker) (name : String) (entry : Graph) (a : Assembly) : Prop :=
  ∃ saved main, k.library.get? name = some (.ok saved) ∧ Graph.load saved.subgraph = .ok entry ∧
    entry.Valid ∧ entry.assemble k.limit = .ok (main, a)

/-- An entry that is taken defines the function that it was taken for. -/
theorem entry_of_loadEntry {k : Linker} {site : CallSite} {saved : SavedFunction}
    (hget : k.library.get? site.name = some (.ok saved)) {p : Program} {calls : List CallSite}
    (h : loadEntry k.limit site saved = .ok (p, calls)) :
    ∃ entry main a, k.Entry site.name entry a ∧ site.name ∈ a.names .function ∧
      p = a.finish main ∧ calls = a.calls := by
  obtain ⟨entry, main, a, hload, hvalid, hassemble, hdefines, hp, hcalls⟩ := loadEntry_eq_ok.mp h
  exact ⟨entry, main, a, ⟨saved, main, hget, hload, hvalid, hassemble⟩, hdefines, hp, hcalls⟩

/-- A diagram that is refused has no names that are looked up. -/
theorem Graph.load_eq_error {d : Diagram} {e : CompileError}
    (h : Graph.load d = .error (.compile e)) : (Failure.compile e).IsStructural := by
  unfold Graph.load at h
  simp only at h
  split at h
  next => cases h
  next =>
    split at h
    next => cases h
    next =>
      cases h
      trivial

theorem Graph.ensureValid_eq_error {g : Graph} {e : CompileError}
    (h : g.ensureValid = .error (.compile e)) : (Failure.compile e).IsStructural := by
  unfold Graph.ensureValid at h
  split at h
  next => cases h
  next => cases h
  next =>
    cases h
    trivial

/-- If taking an entry fails because of a name, then the entry does not define the function that it
was taken for. -/
theorem loadEntry_eq_error {k : Linker} {site : CallSite} {saved : SavedFunction}
    (hget : k.library.get? site.name = some (.ok saved)) {e : CompileError}
    (h : loadEntry k.limit site saved = .error (.compile e)) (he : e.IsReference) :
    e = .unresolved site.node site.name .notInEntry ∧
      ∃ entry a, k.Entry site.name entry a ∧ site.name ∉ a.names .function := by
  unfold loadEntry at h
  rcases bind_eq_error.mp h with h | ⟨entry, hload, h⟩
  · exact absurd he (Graph.load_eq_error h).not_isReference
  rcases bind_eq_error.mp h with h | ⟨_, hvalid, h⟩
  · exact absurd he (Graph.ensureValid_eq_error h).not_isReference
  have hvalid := Graph.ensureValid_eq_ok.mp hvalid
  rcases bind_eq_error.mp h with h | ⟨⟨main, a⟩, hassemble, h⟩
  · exact absurd he (hvalid.assemble_eq_error h).not_isReference
  -- Of the steps only the last one looks at a name: that of the function that is wanted.
  simp only at h
  split at h
  next => cases h
  next hdefines =>
    cases h
    refine ⟨rfl, entry, a, ⟨saved, main, hget, hload, hvalid, hassemble⟩,
      fun hmem => hdefines ?_⟩
    rw [any_name_iff, Assembly.finish, List.map_map]
    simpa [Assembly.names] using hmem

namespace Linker

variable {k : Linker} {s t : Resolving} {a : Assembly} {asked : List String}

/-! ## Names that refer to nothing -/

/-- The name refers to nothing where `a` is what the graph defines: it is that of a method that no
class has, or of a function that neither the graph nor the library has, or the entry of that name
does not define it. -/
inductive Dangling (k : Linker) (a : Assembly) (name : String) : ReferenceFault → Prop where
  | method : '.' ∈ name.toList → lastComponent name ∉ k.methods → Dangling k a name .unknownFunction
  | function : Lacks { assembly := a } name → k.library.get? name = none →
      Dangling k a name .unknownFunction
  | entry {entry : Graph} {b : Assembly} : Lacks { assembly := a } name → k.Entry name entry b →
      name ∉ b.names .function → Dangling k a name .notInEntry

/-- A round that ends with an unresolved name was looking at a call of that name, and blames the
node that the call is pending for. -/
theorem Recorded.dangling (h : Recorded a s) {e : CompileError} (he : e.IsReference)
    (hround : k.round s = .finished (.error (.compile e)) asked) :
    ∃ site ∈ s.pending, ∃ fault, e = .unresolved site.node site.name fault ∧
      k.Dangling a site.name fault ∧ s.linking.lookups ⊆ asked := by
  obtain ⟨l, pending⟩ := s
  unfold round at hround
  split at hround
  next => cases hround
  next site rest hpending =>
    cases hpending
    refine ⟨site, List.mem_cons_self, ?_⟩
    simp only at hround
    split at hround
    next hdot =>
      split at hround
      next => cases hround
      next hmethod =>
        cases hround
        exact ⟨_, rfl, .method (by simpa using hdot) (by simpa using hmethod), List.Subset.refl _⟩
    next hdot =>
      split at hround
      next => cases hround
      next hdefined =>
        -- What the program lacks after some rounds, the graph lacked from the start.
        have hlacks := lacks_of_not hdot hdefined
        have hforeign : Lacks { assembly := a } site.name :=
          ⟨hlacks.1, fun hmem => hlacks.2 (h.kept hmem)⟩
        split at hround
        next hget =>
          cases hround
          exact ⟨_, rfl, .function hforeign hget, List.subset_append_left _ _⟩
        next => cases hround
        next saved hget =>
          split at hround
          next failure hload =>
            cases hround
            obtain ⟨rfl, entry, b, hentry, hnot⟩ := loadEntry_eq_error hget hload he
            exact ⟨_, rfl, .entry hforeign hentry hnot, List.subset_append_left _ _⟩
          next => cases hround

/-! ## Pending calls belong to nodes of the graph -/

/-- The entry of this name was taken, and there is a call of the other name in it. -/
def Passes (k : Linker) (taken : List String) (name callee : String) : Prop :=
  name ∈ taken ∧ ∃ entry b, k.Entry name entry b ∧ name ∈ b.names .function ∧
    ∃ n ∈ entry.nodes, n.Calls callee

theorem Passes.mono {taken taken' : List String} (hsub : taken ⊆ taken') {name callee : String}
    (h : k.Passes taken name callee) : k.Passes taken' name callee :=
  ⟨hsub h.1, h.2⟩

/-- The call is one that the graph makes with the given node, or that it comes to by entries that
were taken. -/
def Stands (k : Linker) (g : Graph) (taken : List String) (site : CallSite) : Prop :=
  ∃ n ∈ g.nodes, n.id = site.node ∧ ∃ first, n.Calls first ∧
    Relation.ReflTransGen (k.Passes taken) first site.name

theorem Stands.mono {g : Graph} {taken taken' : List String} (hsub : taken ⊆ taken')
    {site : CallSite} (h : k.Stands g taken site) : k.Stands g taken' site := by
  obtain ⟨n, hn, hid, first, hcalls, hchain⟩ := h
  exact ⟨n, hn, hid, first, hcalls,
    Relation.ReflTransGen.mono (fun _ _ => Passes.mono hsub) _ _ hchain⟩

/-- Every pending call stands for a node of the graph. -/
def Blamed (k : Linker) (g : Graph) (s : Resolving) : Prop :=
  ∀ site ∈ s.pending, k.Stands g s.linking.lookups site

theorem blamed_start {g : Graph} {limit : Int} {main : Block}
    (h : g.assemble limit = .ok (main, a)) : k.Blamed g (Graph.unresolved a) := by
  intro site hsite
  obtain ⟨n, hn, hcall, hid, hname⟩ := Graph.exists_node_of_call h hsite
  exact ⟨n, hn, hid, site.name, ⟨hcall, hname⟩, .refl⟩

theorem Blamed.step {g : Graph} (h : k.Blamed g s) (hstep : k.Step s t) : k.Blamed g t := by
  cases hstep with
  | answered _ => exact fun site hsite => h site (List.mem_cons_of_mem _ hsite)
  | @taken l site rest saved program calls hlacks hget hload =>
    obtain ⟨entry, main, b, hentry, hdefines, rfl, rfl⟩ := entry_of_loadEntry hget hload
    have ⟨_, _, _, _, _, hassemble⟩ := hentry
    have hmore : l.lookups ⊆ l.lookups ++ [site.name] := List.subset_append_left _ _
    intro other hother
    rcases List.mem_append.mp hother with hother | hother
    · exact (h other (List.mem_cons_of_mem _ hother)).mono hmore
    · -- a call of the entry is pending for the node that the entry was taken for
      obtain ⟨nested, hnested, rfl⟩ := List.mem_map.mp hother
      obtain ⟨n, hn, hid, first, hcalls, hchain⟩ := (h site List.mem_cons_self).mono hmore
      obtain ⟨m, hm, hcall, -, hname⟩ := Graph.exists_node_of_call hassemble hnested
      refine ⟨n, hn, hid, first, hcalls, hchain.tail ⟨?_, ?_⟩⟩
      · exact List.mem_append_right _ List.mem_cons_self
      · exact ⟨entry, b, hentry, hdefines, m, hm, hcall, hname⟩

end Linker

/-- What the name is that refers to nothing, for which node, and why. -/
def Failure.reference? {α : Type} :
    Except Failure α → Option (String × String × ReferenceFault)
  | .error (.compile (.unresolved node name fault)) => some (node, name, fault)
  | _ => none

theorem Failure.eq_of_reference? {α : Type} {result : Except Failure α} {node name : String}
    {fault : ReferenceFault} (h : Failure.reference? result = some (node, name, fault)) :
    result = .error (.compile (.unresolved node name fault)) := by
  unfold reference? at h
  split at h
  next => cases h; rfl
  next => cases h

namespace Graph

variable {g : Graph} {limit : Int} {lib : Library} {main : Block} {a : Assembly}

/-- **A call of the graph is blamed for an unresolved name.** If resolving the calls of a valid
graph fails because a name refers to nothing, the node that is blamed is a node of the graph that
calls a function. The name is the one that this node calls, or it is reached from it by calls in
library entries, each of which was looked up and taken. The name does refer to nothing, and the
build fails with the same error. -/
theorem unresolved_blames_call (hv : g.Valid) (h : g.assemble limit = .ok (main, a))
    {e : CompileError} (hlink : link limit lib a a.calls = .error (.compile e))
    (he : e.kind = "unresolved_reference") :
    ∃ node name fault asked, e = .unresolved node name fault ∧
      (linker limit lib a).Ends (unresolved a) (.error (.compile e)) asked ∧
      (∃ n ∈ g.nodes, n.id = node ∧ n.block? = some .call ∧
        Relation.ReflTransGen ((linker limit lib a).Passes asked) n.definedName name) ∧
      (linker limit lib a).Dangling a name fault ∧
      g.build limit lib = .error (.compile e) := by
  obtain ⟨asked, hends⟩ := exists_ends_link limit lib a
  rw [hlink] at hends
  obtain ⟨s, ⟨hblamed, hrecorded⟩, hround⟩ := hends.exists_last
    (I := fun s => (linker limit lib a).Blamed g s ∧ Linker.Recorded a s)
    (fun hs hstep => ⟨hs.1.step hstep, hs.2.step hstep⟩)
    ⟨Linker.blamed_start h, Linker.recorded_start a a.calls⟩
  obtain ⟨site, hsite, fault, rfl, hdangling, hsub⟩ := hrecorded.dangling he hround
  obtain ⟨n, hn, hid, _, ⟨hcall, rfl⟩, hchain⟩ := (hblamed site hsite).mono hsub
  refine ⟨_, _, fault, asked, rfl, hends, ⟨n, hn, hid, hcall, hchain⟩, hdangling, ?_⟩
  rw [build, h]
  simp only [bind, Except.bind, if_pos (hv.namesAreTexts h), hlink]

/-- A chain of saved functions, the last of which calls a function that is not there. -/
def orphans : Library :=
  [("first", .ok (partner "first" "second")), ("second", .ok (partner "second" "third")),
   ("third", .ok (partner "third" "gone"))]

theorem unresolved_blames_call_orphans :
    (caller "call" "first").Valid ∧ ∃ main a asked,
      (caller "call" "first").assemble 100 = .ok (main, a) ∧
      link 100 orphans a a.calls =
        .error (.compile (.unresolved "call" "gone" .unknownFunction)) ∧
      Relation.ReflTransGen ((linker 100 orphans a).Passes asked) "first" "gone" := by
  have hv : (caller "call" "first").Valid := by
    unfold Valid
    decide
  have hcheck : ((caller "call" "first").assemble 100).toOption.any (fun r =>
      ((linker 100 orphans r.2).rounds 5 (unresolved r.2)).any fun q =>
        decide (Failure.reference? q.1 = some ("call", "gone", .unknownFunction))) = true := by
    decide +kernel
  obtain ⟨⟨main, a⟩, h, hrounds⟩ := exists_ok_of_any hcheck
  obtain ⟨⟨result, asked⟩, hrounds, hresult⟩ := (Option.any_eq_true _ _).mp hrounds
  obtain rfl := Failure.eq_of_reference? (of_decide_eq_true hresult)
  have hlink := link_eq_of_ends (Linker.ends_of_rounds hrounds)
  obtain ⟨node, name, fault, asked, he, -, ⟨n, hn, -, -, hchain⟩, -⟩ :=
    unresolved_blames_call hv h hlink rfl
  cases he
  cases List.mem_singleton.mp hn
  exact ⟨hv, main, a, asked, h, hlink, hchain⟩

end Graph

end Blockflow
