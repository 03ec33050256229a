import Blockflow.Proofs.Expression.DottedNames
import Blockflow.Proofs.Graph.Tidy
import Blockflow.Proofs.Program.Agreement

/-!
# Calling a function from the library

A graph that consists of one call takes the function from the library and everything that the
function calls. Its definitions are those of the graph of the function, so the two are linked in
step, with one difference: the graph of the function has its own methods, but a graph that only
calls it has none. So the call can be compiled exactly when nothing that is linked calls a method
(`Graph.exists_program_caller_iff`).
-/

namespace Blockflow

namespace Graph

variable {g : Graph}

/-- Definitions of a valid graph have names, up to a line break at the end. -/
theorem Valid.exists_definition (hv : g.Valid) {n : Node} (hn : n ∈ g.nodes) {type : BlockType}
    (hb : n.block? = some type) (htype : type.isDefinition = true) :
    n.data.get? "name" = some (.text n.definedName) ∧
      Text.passesLine Text.isName n.definedName.toList = true := by
  have hfield : "name" ∈ (type.fields.filter fun spec =>
      spec.required && spec.kind = .identifier).map FieldSpec.name := by
    cases type with
    | function | classDef => decide
    | _ => cases htype
  obtain ⟨s, hs, hpasses⟩ := hv.exists_identifier hn hb hfield
  have hname : n.definedName = s := by
    rw [Node.definedName, Node.given, hs]
    rfl
  rw [hname]
  exact ⟨hs, hpasses⟩

/-- If its texts are tidy, they are exactly names. -/
theorem Valid.isName_definition (hv : g.Valid) (htidy : g.Tidy) {n : Node} (hn : n ∈ g.nodes)
    {type : BlockType} (hb : n.block? = some type) (htype : type.isDefinition = true) :
    Text.isName n.definedName.toList = true := by
  obtain ⟨hget, hpasses⟩ := hv.exists_definition hn hb htype
  rwa [(htidy n hn _ _ hget).isName_eq] at hpasses

/-! ## The graph of a call -/

theorem block?_callNode (id name : String) : (callNode id name).block? = some .call := rfl

theorem node?_caller (id name : String) : (caller id name).node? id = some (callNode id name) :=
  node?_of_mem (n := callNode id name) List.mem_cons_self

theorem valid_caller (id : String) {name : String} (hname : Text.isName name.toList = true) :
    (caller id name).Valid := by
  have hne : name ≠ "" := by
    rintro rfl
    cases hname
  have hdotted : Text.passesLine Text.isDottedName name.toList = true :=
    Text.passesLine_of_test (Text.isDottedName_of_isName hname)
  have hcause : fieldCause? (callNode id name)
      { name := "name", kind := .dottedName, description := "Function name" } = none := by
    simp [fieldCause?, callNode, Dict.get?, textCause?, hne, hdotted]
  have hargs : fieldCause? (callNode id name) (BlockType.listField "args") = none := rfl
  have hroles : (caller id name).roleIssues = .ok [] := rfl
  have hfields : (caller id name).fieldIssues = [] := by
    show nodeFieldIssues (callNode id name) ++ [] = []
    rw [nodeFieldIssues, block?_callNode]
    have hforeign : foreignKeys (callNode id name) .call = [] := rfl
    simp [hforeign, BlockType.fields, hcause, hargs]
  unfold Valid validate
  rw [hroles, hfields]
  rfl

theorem outline_caller (id name : String) (limit : Int) :
    (caller id name).outline limit = ([.step (callNode id name) [] .done], [id]) := by
  have hentry : (caller id name).entryPoints = [id] := rfl
  rw [outline, hentry]
  simp only [mapAccum]
  rw [Tour.chain, dif_neg (by simp), if_neg (by simp)]
  split
  next hn => simp [node?_caller] at hn
  next n hn =>
    simp only [node?_caller, Option.some.injEq] at hn
    subst hn
    rfl

/-- What is put together from the graph of a call. -/
def callAssembly (id name : String) : Assembly :=
  { calls := [{ node := id, name, args := [], types := [] }] }

theorem assemble_caller (id name : String) (limit : Int) :
    (caller id name).assemble limit = .ok ([.call name [] id], callAssembly id name) := by
  refine assemble_eq_ok.mpr ⟨?_, ?_⟩
  · rw [outline_caller]
    rfl
  · rw [outline_caller]
    simp [unplaced?, caller, ids, callNode]

/-! ## Linking the call -/

variable {lib lib' : Library} {limit : Int} {id name : String} {main : Block} {a : Assembly}
  {saved : SavedFunction}

/-- The state after the function has been taken from the library. -/
def afterTaking (id name : String) (main : Block) (a : Assembly) : Resolving :=
  { linking := Linking.add { assembly := callAssembly id name } name (a.finish main) a.calls
    pending := a.calls.map fun nested => { nested with node := id } }

theorem step_caller (id : String) (hload : Graph.load saved.subgraph = .ok g) (hv : g.Valid)
    (hassemble : g.assemble limit = .ok (main, a)) (hdefines : name ∈ a.names .function)
    (hdot : '.' ∉ name.toList) (hget : lib'.get? name = some (.ok saved)) :
    (linker limit lib' (callAssembly id name)).Step (unresolved (callAssembly id name))
      (afterTaking id name main a) := by
  have hentry : loadEntry limit { node := id, name, args := [], types := [] } saved =
      .ok (a.finish main, a.calls) :=
    loadEntry_eq_ok.mpr ⟨g, main, a, hload, hv, hassemble, hdefines, rfl, rfl⟩
  exact .taken ⟨hdot, List.not_mem_nil⟩ hget hentry

/-- The function that has been taken agrees with its own graph. -/
theorem agrees_afterTaking (id : String) (hassemble : g.assemble limit = .ok (main, a))
    (hdefines : name ∈ a.names .function) (hdot : '.' ∉ name.toList)
    (hother : ∀ other, other ≠ name → lib'.get? other = lib.get? other) :
    Linker.Agrees (linker limit lib a) (linker limit lib' (callAssembly id name)) (unresolved a)
      (afterTaking id name main a) := by
  have hnodup := (Linker.sound_start (linker limit lib a) hassemble).nodup
  obtain ⟨hfunctions, hclasses⟩ := a.untyped_finish main
  obtain ⟨hfunctions', hclasses'⟩ := Linking.untyped_add { assembly := callAssembly id name } name
    (a.finish main) a.calls
  refine ⟨rfl, ?_, ?_, ?_, ?_, fun _ hname _ => hname, ?_⟩
  · intro other hmem
    exact (hother other fun heq => hmem (heq ▸ hdefines)).symm
  · rw [afterTaking, hfunctions', hfunctions]
    refine (addMissing_of_nodup [] ?_).symm
    rw [List.nil_append, List.map_map]
    exact hnodup .function
  · rw [afterTaking, hclasses', hclasses]
    refine (addMissing_of_nodup [] ?_).symm
    rw [List.nil_append, List.map_map]
    exact hnodup .classDef
  · rw [afterTaking, List.map_map]
    rfl
  · intro other hotherDot
    have hne : other ≠ name := fun heq => hdot (heq ▸ hotherDot)
    show _ ↔ other ∈ name :: a.calls.map CallSite.name
    rw [List.mem_cons, or_iff_right hne]
    exact Iff.rfl

/-- A function that cannot be read from the library cannot be called. -/
theorem program_caller_of_unreadable (hname : Text.isName name.toList = true)
    {faults : List SchemaFault} (hget : lib'.get? name = some (.error faults)) :
    (caller id name).program lib' = .error (.defect (.unreadableEntry name)) := by
  have hdot := Text.dot_notMem_of_isName hname
  have hcaller := assemble_caller id name defaultLimit
  have hvalid := valid_caller id hname
  have hround : (linker defaultLimit lib' (callAssembly id name)).round
      (unresolved (callAssembly id name)) =
        .finished (.error (.defect (.unreadableEntry name))) [name] := by
    simp [Linker.round, unresolved, callAssembly, linker, hdot, hget]
  have hlink := link_eq_of_ends (.finished hround)
  rw [program, ensureValid_eq_ok.mpr hvalid, build, hcaller]
  simp only [bind, Except.bind, if_pos (hvalid.namesAreTexts hcaller), hlink]

/-- If the call is compiled, no method is called on behalf of the function: the graph of the call
has none that could answer. -/
theorem dot_notMem_of_program_caller {l : Linking} {asked : List String} {p : Program}
    (hstep : (linker defaultLimit lib' (callAssembly id name)).Step
      (unresolved (callAssembly id name)) (afterTaking id name main a))
    (hagrees : Linker.Agrees (linker defaultLimit lib a)
      (linker defaultLimit lib' (callAssembly id name)) (unresolved a) (afterTaking id name main a))
    (hends : (linker defaultLimit lib a).Ends (unresolved a) (.ok l) asked)
    (hp : (caller id name).program lib' = .ok p) :
    ∀ called ∈ l.assembly.calls.map CallSite.name, '.' ∉ called.toList := by
  have hcaller := assemble_caller id name defaultLimit
  obtain ⟨-, -, hp⟩ := bind_eq_ok.mp hp
  obtain ⟨b, hbuild, -⟩ := bind_eq_ok.mp hp
  obtain ⟨_, _, l', hassemble, -, hlink, -⟩ := build_eq_ok.mp hbuild
  cases hcaller.symm.trans hassemble
  have hdots : ∀ called ∈ l'.assembly.calls.map CallSite.name, '.' ∉ called.toList := by
    intro called hmem hdot
    rcases (sound_of_link hcaller hlink).answered called hmem with hanswers | hpending
    · rw [Linker.Answers, if_pos hdot] at hanswers
      cases hanswers
    · cases hpending
  obtain ⟨asked', hends'⟩ := exists_ends_link defaultLimit lib' (callAssembly id name)
  rw [show link defaultLimit lib' (callAssembly id name) (callAssembly id name).calls = .ok l' from
    hlink] at hends'
  cases hends' with
  | finished hround => cases hstep.round_eq.symm.trans hround
  | more hround hends' =>
    cases hstep.round_eq.symm.trans hround
    obtain ⟨l'', asked'', hends'', hagrees'⟩ := hagrees.symm.ends hends' hdots
    cases (hends.unique hends'').1
    intro called hmem hdot
    exact hdots called ((hagrees'.methods called hdot).mpr hmem) hdot

/-- If no method is called on behalf of the function, the call is compiled. -/
theorem exists_program_caller {l : Linking} {asked : List String} {p : Program}
    (hname : Text.isName name.toList = true)
    (hstep : (linker defaultLimit lib' (callAssembly id name)).Step
      (unresolved (callAssembly id name)) (afterTaking id name main a))
    (hagrees : Linker.Agrees (linker defaultLimit lib a)
      (linker defaultLimit lib' (callAssembly id name)) (unresolved a) (afterTaking id name main a))
    (hends : (linker defaultLimit lib a).Ends (unresolved a) (.ok l) asked)
    (hp : (l.assembly.finish main).withConstructors = .ok p)
    (hdots : ∀ called ∈ l.assembly.calls.map CallSite.name, '.' ∉ called.toList) :
    ∃ q, (caller id name).program lib' = .ok q := by
  have hcaller := assemble_caller id name defaultLimit
  have hvalid := valid_caller id hname
  obtain ⟨l', asked', hends', hagrees'⟩ := hagrees.ends hends hdots
  have hlink := link_eq_of_ends (.more hstep.round_eq hends')
  -- all classes that are constructed are among those of the function
  obtain ⟨q, hq⟩ := Assembly.exists_withConstructors [.call name [] id] hagrees'.classes
    hagrees'.functions hp fun s hs => by
      rw [List.mem_singleton.mp hs]
      exact ⟨none, rfl⟩
  have hbuild : (caller id name).build defaultLimit lib' =
      .ok { program := q, symbols := [], calls := l'.assembly.calls, lookups := l'.lookups } :=
    build_eq_ok.mpr ⟨_, _, l', hcaller, hvalid.namesAreTexts hcaller, hlink, hq, rfl, rfl, rfl⟩
  exact ⟨q, bind_eq_ok.mpr ⟨(), ensureValid_eq_ok.mpr hvalid, bind_eq_ok.mpr ⟨_, hbuild, rfl⟩⟩⟩

/-- **A function from the library can be called if and only if no method is called on its behalf.**
The graph of the function is built with one library, and called with another one that holds it and
is the same for all other names. -/
theorem exists_program_caller_iff (hv : g.Valid) {b : Build}
    (hbuild : g.build defaultLimit lib = .ok b) (hload : Graph.load saved.subgraph = .ok g)
    (hassemble : g.assemble defaultLimit = .ok (main, a)) (hdefines : name ∈ a.names .function)
    (hname : Text.isName name.toList = true) (hget : lib'.get? name = some (.ok saved))
    (hother : ∀ other, other ≠ name → lib'.get? other = lib.get? other) :
    (∃ p, (caller id name).program lib' = .ok p) ↔
      ∀ site ∈ b.calls, '.' ∉ site.name.toList := by
  have hdot := Text.dot_notMem_of_isName hname
  obtain ⟨main', a', l, hassemble', -, hlink, hprogram, -, hcalls, -⟩ := build_eq_ok.mp hbuild
  cases hassemble.symm.trans hassemble'
  obtain ⟨asked, hends⟩ := exists_ends_link defaultLimit lib a
  rw [hlink] at hends
  have hstep := step_caller id hload hv hassemble hdefines hdot hget
  have hagrees := agrees_afterTaking id hassemble hdefines hdot hother
  have hsites : (∀ site ∈ b.calls, '.' ∉ site.name.toList) ↔
      ∀ called ∈ l.assembly.calls.map CallSite.name, '.' ∉ called.toList := by
    rw [hcalls]
    simp
  rw [hsites]
  constructor
  · rintro ⟨p, hp⟩
    exact dot_notMem_of_program_caller hstep hagrees hends hp
  · exact exists_program_caller hname hstep hagrees hends hprogram

end Graph

end Blockflow
